import AgentScript.Proofs.CommandLine.Folder
import AgentScript.Proofs.Number.Numeral
import AgentScript.Proofs.Text.Quoted
import Mathlib

/-! Listings of tokens: each token has a line of its own, and the lines tell which tokens they
are. That integers differ in their texts is a lemma of the standard library, which no part of Mathlib
brings along. -/
namespace AgentScript

open Text

section Fields

theorem isPrintable_of_isDigit {c : Char} (h : isDigit c = true) : isPrintable c = true := by
  unfold isDigit at h
  rw [Bool.and_eq_true, decide_eq_true_eq, decide_eq_true_eq] at h
  have h0 : '0'.toNat = 48 := rfl
  have h9 : '9'.toNat = 57 := rfl
  unfold isPrintable
  simp only [show c.toNat < 0x80 by omega, if_true, Bool.and_eq_true, decide_eq_true_eq]
  omega

/-- An integer is written with a sign and digits. -/
theorem int_chars {n : Int} {c : Char} (h : c ∈ (toString n).toList) :
    c = '-' ∨ isDigit c = true := by
  cases n with
  | ofNat n =>
    change c ∈ (Nat.repr n).toList at h
    rw [Nat.toList_repr] at h
    exact .inr (Number.isDigit_of_mem_toDigits h)
  | negSucc n =>
    change c ∈ ("-" ++ Nat.repr (n + 1)).toList at h
    rw [String.toList_append, Nat.toList_repr] at h
    rcases List.mem_append.mp h with h | h
    · exact .inl (List.mem_singleton.mp h)
    · exact .inr (Number.isDigit_of_mem_toDigits h)

theorem int_notMem {n : Int} {c : Char} (hm : c ≠ '-') (hd : isDigit c = false) :
    c ∉ (toString n).toList := fun h =>
  (int_chars h).elim hm fun hc => Bool.noConfusion (hd.symm.trans hc)

theorem TokenKind.ofLabel?_label (k : TokenKind) : ofLabel? k.label = some k := by
  cases k with
  | keyword k => cases k <;> decide +kernel
  | symbol s => cases s <;> decide +kernel
  | _ => decide +kernel

/-- A kind can be told from its label. -/
theorem TokenKind.label_inj {k k' : TokenKind} (h : k.label = k'.label) : k = k' :=
  Option.some.inj ((ofLabel?_label k).symm.trans ((congrArg ofLabel? h).trans (ofLabel?_label k')))

/-- A label has no blank, and all of it can be shown. -/
theorem TokenKind.label_chars {k : TokenKind} {c : Char} (h : c ∈ k.label.toList) :
    c ≠ ' ' ∧ isPrintable c = true := by
  have hall : k.label.toList.all (fun c => c != ' ' && isPrintable c) = true := by
    cases k with
    | keyword k => cases k <;> decide +kernel
    | symbol s => cases s <;> decide +kernel
    | _ => decide +kernel
  have hc := List.all_eq_true.mp hall c h
  rwa [Bool.and_eq_true, bne_iff_ne] at hc

end Fields

section Listings

theorem append_sep_inj {sep : Char} {xs ys more more' : List Char} (hx : sep ∉ xs) (hy : sep ∉ ys)
    (h : xs ++ sep :: more = ys ++ sep :: more') : xs = ys ∧ more = more' := by
  have hs := congrArg (splitAt sep) h
  rw [splitAt_append_sep hx, splitAt_append_sep hy] at hs
  obtain rfl := (List.cons.inj hs).1
  exact ⟨rfl, (List.cons.inj (List.append_cancel_left h)).2⟩

namespace Token

theorem listing_toList (t : Token) : t.listing.toList =
    (toString t.loc.line).toList ++ ':' :: ((toString t.loc.column).toList ++
      ' ' :: (t.kind.label.toList ++ ' ' :: (quoted t.text).toList)) := by
  simp [listing, String.toList_append]

/-- A token can be told from its line in a listing. -/
theorem listing_inj {t u : Token} (h : t.listing = u.listing) : t = u := by
  have h := String.toList_inj.mpr h
  rw [listing_toList, listing_toList] at h
  obtain ⟨hline, h⟩ := append_sep_inj (int_notMem (by decide) (by decide))
    (int_notMem (by decide) (by decide)) h
  obtain ⟨hcolumn, h⟩ := append_sep_inj (int_notMem (by decide) (by decide))
    (int_notMem (by decide) (by decide)) h
  obtain ⟨hlabel, h⟩ := append_sep_inj (fun hc => (TokenKind.label_chars hc).1 rfl)
    (fun hc => (TokenKind.label_chars hc).1 rfl) h
  obtain ⟨kind, text, line, column⟩ := t
  obtain ⟨kind', text', line', column'⟩ := u
  obtain rfl : kind = kind' := TokenKind.label_inj (String.toList_inj.mp hlabel)
  obtain rfl : text = text' := quoted_inj (String.toList_inj.mp h)
  obtain rfl : line = line' := Int.repr_injective (String.toList_inj.mp hline)
  obtain rfl : column = column' := Int.repr_injective (String.toList_inj.mp hcolumn)
  rfl

/-- All of a line in a listing can be shown. -/
theorem isPrintable_listing (t : Token) : ∀ c ∈ t.listing.toList, isPrintable c = true := by
  have hint {n : Int} : ∀ c ∈ (toString n).toList, isPrintable c = true := by
    intro c hc
    rcases int_chars hc with rfl | hd
    · decide +kernel
    · exact isPrintable_of_isDigit hd
  rw [listing_toList]
  simp only [List.forall_mem_append, List.forall_mem_cons]
  exact ⟨hint, by decide +kernel, hint, by decide +kernel,
    fun c hc => (TokenKind.label_chars hc).2, by decide +kernel, isPrintable_quoted t.text⟩

end Token

end Listings

namespace CommandLine

def listed (source : String) : Report :=
  { output := (tokenize source).map fun t => .print t.listing }

variable {stamp : Float → String}

theorem outputText_toList (ts : List Token) :
    (Report.outputText stamp { output := ts.map fun t => .print t.listing }).toList =
      ts.flatMap fun t => t.listing.toList ++ ['\n'] := by
  unfold Report.outputText
  rw [String.toList_join]
  simp [List.flatMap_map, lineText]

theorem lines_outputText (ts : List Token) :
    splitAt '\n' (Report.outputText stamp { output := ts.map fun t => .print t.listing }).toList =
      ts.map (·.listing.toList) ++ [[]] := by
  rw [outputText_toList]
  induction ts with
  | nil => rfl
  | cons t ts ih =>
    have hn : '\n' ∉ t.listing.toList := fun hc =>
      notMem_lineBreaks (t.isPrintable_listing _ hc) (by decide)
    rw [List.flatMap_cons, List.append_assoc, List.singleton_append, splitAt_append_sep hn, ih]
    rfl

/-- A listing of tokens has one line for each token, none of which breaks, and tells exactly which
tokens they are. -/
theorem listed_faithful (stamp : Float → String) (s s' : String) :
    splitAt '\n' ((listed s).outputText stamp).toList =
      (tokenize s).map (·.listing.toList) ++ [[]] ∧
    (∀ t ∈ tokenize s, ∀ c ∈ t.listing.toList, c ∉ lineBreaks) ∧
    ((listed s).outputText stamp = (listed s').outputText stamp ↔ tokenize s = tokenize s') ∧
    ∀ (d : Desk) (path : String), d.source path = .ok s.toList → d.listTokens path = listed s := by
  refine ⟨lines_outputText _, fun t _ c hc => notMem_lineBreaks (t.isPrintable_listing c hc),
    ⟨fun h => ?_, fun h => by rw [listed, listed, h]⟩, fun d path h => ?_⟩
  · have hlines := congrArg (splitAt '\n') (congrArg String.toList h)
    unfold listed at hlines
    rw [lines_outputText, lines_outputText] at hlines
    have hmap : (tokenize s).map (·.listing.toList) = (tokenize s').map (·.listing.toList) :=
      List.append_cancel_right hlines
    exact List.map_injective_iff.mpr
      (fun _ _ ht => Token.listing_inj (String.toList_inj.mp ht)) hmap
  · unfold Desk.listTokens
    rw [h]
    simp only [String.ofList_toList]
    rfl

/-- A text with an apostrophe stands between quotation marks, and its tabulator is escaped. -/
example : (tokenize "say \"it's\t\"").map (·.listing) =
    ["1:1 SAY 'SAY'", "1:5 STRING \"it's\\t\"", "1:12 EOF ''"] := by decide +kernel

end CommandLine

end AgentScript
