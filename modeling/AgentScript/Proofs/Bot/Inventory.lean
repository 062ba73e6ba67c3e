import AgentScript.Proofs.Bot.World

/-! Inventories, and what is left of them when something is taken out. -/
namespace AgentScript

/-- There is something in every stack of an inventory, and items of one type have one name. -/
structure Stocked (items : List Item) : Prop where
  count_pos : ∀ item ∈ items, 0 < item.count
  same_name : ∀ item ∈ items, ∀ other ∈ items, item.type = other.type → item.name = other.name

namespace Item

/-- What is left of a stack when some of it is taken: no stack at all if that was everything. -/
def less (stack : Item) (k : Int) : List Item :=
  if stack.count - k = 0 then [] else [{ stack with count := stack.count - k }]

/-- Items are taken out of the first stack of a name: as many as are wanted, or as many as there
are, and at least one. The other stacks stay what and where they are. -/
inductive Dropped (name : String) (wanted : Int) : List Item → Int → List Item → Prop
  | first {before after : List Item} {stack : Item} (hn : stack.name = name)
    (hfirst : ∀ item ∈ before, item.name ≠ name) (hpos : 1 ≤ min wanted stack.count) :
    Dropped name wanted (before ++ stack :: after) (min wanted stack.count)
      (before ++ (stack.less (min wanted stack.count) ++ after))

def total (name : String) (items : List Item) : Int :=
  ((items.filter (·.name = name)).map (·.count)).sum

@[simp] theorem total_nil (name : String) : total name [] = 0 := rfl

@[simp] theorem total_cons (name : String) (item : Item) (items : List Item) :
    total name (item :: items) =
      (if item.name = name then item.count else 0) + total name items := by
  unfold total
  by_cases h : item.name = name <;> simp [h]

@[simp] theorem total_append (name : String) (items more : List Item) :
    total name (items ++ more) = total name items + total name more := by
  simp [total]

theorem total_less (name : String) (stack : Item) (k : Int) :
    total name (stack.less k) = if stack.name = name then stack.count - k else 0 := by
  unfold less
  split
  · rename_i h
    rw [h, ite_self, total_nil]
  · simp

theorem mem_less {stack item : Item} {k : Int} (h : item ∈ stack.less k) :
    item = { stack with count := stack.count - k } ∧ stack.count - k ≠ 0 := by
  unfold less at h
  split at h
  · cases h
  · rename_i hk
    exact ⟨List.mem_singleton.mp h, hk⟩

namespace Dropped

variable {name : String} {wanted k : Int} {items items' : List Item}

theorem total_eq (h : Dropped name wanted items k items') :
    total name items = total name items' + k := by
  cases h with
  | first hn hfirst hpos =>
    simp only [total_append, total_cons, total_less, hn, if_true]
    omega

theorem total_other (h : Dropped name wanted items k items') {other : String} (ho : name ≠ other) :
    total other items' = total other items := by
  cases h with
  | @first before after stack hn hfirst hpos =>
    have hne : stack.name ≠ other := hn.trans_ne ho
    simp only [total_append, total_cons, total_less, hne, if_false]

/-- What is left is well stocked if it was before. -/
theorem stocked (h : Dropped name wanted items k items') (hs : Stocked items) : Stocked items' := by
  cases h with
  | @first before after stack hn hfirst hpos =>
    -- Every stack that is left has the name and the type of one that was there.
    have hleft : ∀ item ∈ before ++ (stack.less (min wanted stack.count) ++ after),
        0 < item.count ∧ ∃ other ∈ before ++ stack :: after,
          other.name = item.name ∧ other.type = item.type := by
      intro item hi
      rcases List.mem_append.mp hi with hi | hi
      · have hm : item ∈ before ++ stack :: after := List.mem_append_left _ hi
        exact ⟨hs.count_pos item hm, item, hm, rfl, rfl⟩
      rcases List.mem_append.mp hi with hi | hi
      · obtain ⟨rfl, hk⟩ := mem_less hi
        refine ⟨?_, stack, by simp, rfl, rfl⟩
        change 0 < stack.count - min wanted stack.count
        omega
      · have hm : item ∈ before ++ stack :: after := by simp [hi]
        exact ⟨hs.count_pos item hm, item, hm, rfl, rfl⟩
    refine ⟨fun item hi => (hleft item hi).1, fun item hi other ho ht => ?_⟩
    obtain ⟨-, item', hi', hin, hit⟩ := hleft item hi
    obtain ⟨-, other', ho', hon, hot⟩ := hleft other ho
    rw [← hin, ← hon]
    exact hs.same_name item' hi' other' ho' (by rw [hit, hot, ht])

end Dropped

end Item

namespace Bot

theorem takeItems_append {before rest : List Item} {type : Int} (n : Int)
    (h : ∀ item ∈ before, item.type ≠ type) :
    takeItems type n (before ++ rest) = before ++ takeItems type n rest := by
  induction before with
  | nil => rfl
  | cons item before ih =>
    rw [List.cons_append, takeItems, if_neg (h item List.mem_cons_self),
      ih fun other ho => h other (List.mem_cons_of_mem _ ho)]
    rfl

/-- The first stack of a name, which the bot finds, is also the first of its type, which it takes
from. -/
theorem dropped_of_findItem {b : Bot} {name : String} {stack : Item} {wanted : Int}
    (hs : Stocked b.items) (hf : b.findItem name = .ok (some stack)) (hw : 1 ≤ wanted) :
    Item.Dropped name wanted b.items (min wanted stack.count)
      (b.discard stack.type (min wanted stack.count)).items := by
  obtain ⟨-, -, hf⟩ := bind_eq_ok hf
  have hf : b.items.find? (·.name = name) = some stack := Except.ok.inj hf
  obtain ⟨hn, before, after, hitems, hfirst⟩ := List.find?_eq_some_iff_append.mp hf
  have hn : stack.name = name := by simpa using hn
  have hfirst : ∀ item ∈ before, item.name ≠ name := by simpa using hfirst
  have hpos := hs.count_pos stack (by simp [hitems])
  have htypes : ∀ item ∈ before, item.type ≠ stack.type := fun item hi ht =>
    hfirst item hi ((hs.same_name item (by simp [hitems, hi]) stack (by simp [hitems]) ht).trans hn)
  have htake : takeItems stack.type (min wanted stack.count) b.items =
      before ++ (stack.less (min wanted stack.count) ++ after) := by
    rw [hitems, takeItems_append _ htypes, takeItems, if_pos rfl, Item.less]
    have hiff : stack.count - min wanted stack.count ≤ 0 ↔
        stack.count - min wanted stack.count = 0 := by omega
    simp only [hiff]
    split <;> rfl
  have hone : 1 ≤ min wanted stack.count := by omega
  change Item.Dropped name wanted b.items _ (takeItems stack.type _ b.items)
  rw [htake, hitems]
  exact .first hn hfirst hone

end Bot

end AgentScript
