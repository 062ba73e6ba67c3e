import AgentScript.Syntax
import Mathlib.Data.List.Forall2
import Mathlib.Data.Option.Basic

/-! Trees that match: the same construct stands wherever one stands in the other, and only places and
names may differ, as told by two relations. The places of commands are never used. -/
namespace AgentScript

/-- The same datum, or nodes of one kind at related places. -/
inductive Json.Match (L : Location → Location → Prop) : Json → Json → Prop
  | datum {tree : Json} (h : tree.nodeLocation? = none) : Match L tree tree
  | node {tree tree' : Json} {l l' : Location} (h : tree.nodeLocation? = some l)
    (h' : tree'.nodeLocation? = some l') (hk : tree'.nodeKind = tree.nodeKind) (hl : L l l') :
    Match L tree tree'

section

variable (L : Location → Location → Prop) (N : Label → Label → Prop)

inductive Expr.Match : Expr → Expr → Prop
  | number {l l' : Location} (hl : L l l') (x : Float) : Match (.number l x) (.number l' x)
  | string {l l' : Location} (hl : L l l') (s : String) : Match (.string l s) (.string l' s)
  | boolean {l l' : Location} (hl : L l l') (b : Bool) : Match (.boolean l b) (.boolean l' b)
  | reference {l l' : Location} {name name' : Label} (hl : L l l') (hn : N name name') :
    Match (.reference l name) (.reference l' name')
  | binary {l l' : Location} {left left' right right' : Expr} (hl : L l l') (op : BinaryOp)
    (ha : Match left left') (hb : Match right right') :
    Match (.binary l op left right) (.binary l' op left' right')
  | unary {l l' : Location} {operand operand' : Expr} (hl : L l l') (op : UnaryOp)
    (h : Match operand operand') : Match (.unary l op operand) (.unary l' op operand')
  | misfit {tree tree' : Json} (h : tree.Match L tree') : Match (.misfit tree) (.misfit tree')

inductive Command.Match : Command → Command → Prop
  | say (l l' : Location) {message message' : Expr} (h : message.Match L N message') :
    Match (.say l message) (.say l' message')
  | goto (l l' : Location) {x x' y y' z z' : Expr} (hx : x.Match L N x') (hy : y.Match L N y')
    (hz : z.Match L N z') : Match (.goto l x y z) (.goto l' x' y' z')
  | attack (l l' : Location) {target target' : Expr} (h : target.Match L N target') :
    Match (.attack l target) (.attack l' target')
  | dig (l l' : Location) {block block' : Option Expr}
    (h : Option.Rel (Expr.Match L N) block block') : Match (.dig l block) (.dig l' block')
  | place (l l' : Location) {item item' : Expr} {x x' y y' z z' : Option Expr}
    (hi : item.Match L N item') (hx : Option.Rel (Expr.Match L N) x x')
    (hy : Option.Rel (Expr.Match L N) y y') (hz : Option.Rel (Expr.Match L N) z z') :
    Match (.place l item x y z) (.place l' item' x' y' z')
  | equip (l l' : Location) {item item' : Expr} (h : item.Match L N item') :
    Match (.equip l item) (.equip l' item')
  | drop (l l' : Location) {item item' : Expr} {count count' : Option Expr}
    (hi : item.Match L N item') (hc : Option.Rel (Expr.Match L N) count count') :
    Match (.drop l item count) (.drop l' item' count')
  | wait (l l' : Location) {seconds seconds' : Expr} (h : seconds.Match L N seconds') :
    Match (.wait l seconds) (.wait l' seconds')
  | misfit {tree tree' : Json} (h : tree.Match L tree') : Match (.misfit tree) (.misfit tree')

mutual

inductive Stmt.Match : Stmt → Stmt → Prop
  | declare {l l' : Location} {name name' : Label} {init init' : Expr} (hl : L l l')
    (hn : N name name') (he : init.Match L N init') :
    Stmt.Match (.declare l name init) (.declare l' name' init')
  | assign {l l' : Location} {name name' : Label} {value value' : Expr} (hl : L l l')
    (hn : N name name') (he : value.Match L N value') :
    Stmt.Match (.assign l name value) (.assign l' name' value')
  | branch {l l' : Location} {condition condition' : Expr} {yes yes' : Body}
    {no no' : Option Body} (hl : L l l') (he : condition.Match L N condition')
    (hy : Body.Match yes yes') (hn : Option.Rel Body.Match no no') :
    Stmt.Match (.branch l condition yes no) (.branch l' condition' yes' no')
  | loop {l l' : Location} {count count' : Expr} {body body' : Body} (hl : L l l')
    (he : count.Match L N count') (hb : Body.Match body body') :
    Stmt.Match (.loop l count body) (.loop l' count' body')
  | command {l l' : Location} {c c' : Command} (hl : L l l') (hc : c.Match L N c') :
    Stmt.Match (.command l c) (.command l' c')
  | evaluate {l l' : Location} {e e' : Expr} (hl : L l l') (he : e.Match L N e') :
    Stmt.Match (.evaluate l e) (.evaluate l' e')
  | misfit {tree tree' : Json} (h : tree.Match L tree') :
    Stmt.Match (.misfit tree) (.misfit tree')

inductive Body.Match : Body → Body → Prop
  | statements {list list' : List Stmt} (h : List.Forall₂ Stmt.Match list list') :
    Body.Match (.statements list) (.statements list')
  | misfit {tree tree' : Json} (h : tree.Match L tree') :
    Body.Match (.misfit tree) (.misfit tree')

end

inductive Program.Match : Program → Program → Prop
  | program (l l' : Location) {body body' : Body} (h : body.Match L N body') :
    Match (.program l body) (.program l' body')
  | misfit {tree tree' : Json} (h : tree.Match L tree') : Match (.misfit tree) (.misfit tree')

end

/-! The names in a tree, and trees with other names. -/

section Labels

variable (f : Label → Label)

namespace Expr

def labels : Expr → List Label
  | reference _ name => [name]
  | binary _ _ left right => left.labels ++ right.labels
  | unary _ _ operand => operand.labels
  | number .. | string .. | boolean .. | misfit _ => []

def relabel : Expr → Expr
  | reference l name => .reference l (f name)
  | binary l op left right => .binary l op left.relabel right.relabel
  | unary l op operand => .unary l op operand.relabel
  | e => e

end Expr

namespace Command

def labels : Command → List Label
  | say _ e | attack _ e | equip _ e | wait _ e => e.labels
  | goto _ x y z => x.labels ++ y.labels ++ z.labels
  | dig _ block => block.toList.flatMap Expr.labels
  | place _ item x y z =>
    item.labels ++ (x.toList ++ y.toList ++ z.toList).flatMap Expr.labels
  | drop _ item count => item.labels ++ count.toList.flatMap Expr.labels
  | misfit _ => []

def relabel : Command → Command
  | say l message => .say l (message.relabel f)
  | goto l x y z => .goto l (x.relabel f) (y.relabel f) (z.relabel f)
  | attack l target => .attack l (target.relabel f)
  | dig l block => .dig l (block.map (Expr.relabel f))
  | place l item x y z =>
    .place l (item.relabel f) (x.map (Expr.relabel f)) (y.map (Expr.relabel f))
      (z.map (Expr.relabel f))
  | equip l item => .equip l (item.relabel f)
  | drop l item count => .drop l (item.relabel f) (count.map (Expr.relabel f))
  | wait l seconds => .wait l (seconds.relabel f)
  | misfit tree => .misfit tree

end Command

mutual

def Stmt.labels : Stmt → List Label
  | .declare _ name e | .assign _ name e => name :: e.labels
  | .branch _ condition yes none => condition.labels ++ yes.labels
  | .branch _ condition yes (some no) => condition.labels ++ yes.labels ++ no.labels
  | .loop _ count body => count.labels ++ body.labels
  | .command _ c => c.labels
  | .evaluate _ e => e.labels
  | .misfit _ => []

def Body.labels : Body → List Label
  | .statements list => Stmt.labelsOf list
  | .misfit _ => []

def Stmt.labelsOf : List Stmt → List Label
  | [] => []
  | s :: rest => s.labels ++ Stmt.labelsOf rest

end

mutual

def Stmt.relabel : Stmt → Stmt
  | .declare l name init => .declare l (f name) (init.relabel f)
  | .assign l name value => .assign l (f name) (value.relabel f)
  | .branch l condition yes none => .branch l (condition.relabel f) yes.relabel none
  | .branch l condition yes (some no) =>
    .branch l (condition.relabel f) yes.relabel (some no.relabel)
  | .loop l count body => .loop l (count.relabel f) body.relabel
  | .command l c => .command l (c.relabel f)
  | .evaluate l e => .evaluate l (e.relabel f)
  | .misfit tree => .misfit tree

def Body.relabel : Body → Body
  | .statements list => .statements (Stmt.relabelAll list)
  | .misfit tree => .misfit tree

def Stmt.relabelAll : List Stmt → List Stmt
  | [] => []
  | s :: rest => s.relabel :: Stmt.relabelAll rest

end

namespace Program

def labels : Program → List Label
  | program _ body => body.labels
  | misfit _ => []

def relabel : Program → Program
  | program l body => .program l (body.relabel f)
  | misfit tree => .misfit tree

end Program

end Labels

section Relabel

variable {L : Location → Location → Prop} {N : Label → Label → Prop} {f : Label → Label}

theorem Json.match_refl (hL : ∀ l, L l l) (tree : Json) : tree.Match L tree := by
  cases h : tree.nodeLocation? with
  | none => exact .datum h
  | some l => exact .node h h rfl (hL l)

/-- A tree matches itself under other names as far as its names do. -/
theorem Expr.match_relabel (hL : ∀ l, L l l) {e : Expr} (h : ∀ n ∈ e.labels, N n (f n)) :
    e.Match L N (e.relabel f) := by
  induction e with
  | number l x => exact .number (hL l) x
  | string l s => exact .string (hL l) s
  | boolean l b => exact .boolean (hL l) b
  | reference l name => exact .reference (hL l) (h name (List.mem_singleton_self name))
  | binary l op left right ihl ihr =>
    refine .binary (hL l) op (ihl fun n hn => ?_) (ihr fun n hn => ?_)
    · exact h n (List.mem_append_left _ hn)
    · exact h n (List.mem_append_right _ hn)
  | unary l op operand ih => exact .unary (hL l) op (ih h)
  | misfit tree => exact .misfit (Json.match_refl hL tree)

theorem Expr.match_relabel_option (hL : ∀ l, L l l) {e : Option Expr}
    (h : ∀ n ∈ e.toList.flatMap Expr.labels, N n (f n)) :
    Option.Rel (Expr.Match L N) e (e.map (Expr.relabel f)) := by
  cases e with
  | none => exact .none
  | some e =>
    refine .some (match_relabel hL fun n hn => h n ?_)
    exact List.mem_flatMap.mpr ⟨e, List.mem_singleton_self e, hn⟩

theorem Command.match_relabel (hL : ∀ l, L l l) {c : Command} (h : ∀ n ∈ c.labels, N n (f n)) :
    c.Match L N (c.relabel f) := by
  cases c with
  | say l message => exact .say l l (Expr.match_relabel hL h)
  | goto l x y z =>
    simp only [labels, List.mem_append] at h
    refine .goto l l ?_ ?_ ?_
    · exact Expr.match_relabel hL fun n hn => h n (.inl (.inl hn))
    · exact Expr.match_relabel hL fun n hn => h n (.inl (.inr hn))
    · exact Expr.match_relabel hL fun n hn => h n (.inr hn)
  | attack l target => exact .attack l l (Expr.match_relabel hL h)
  | dig l block => exact .dig l l (Expr.match_relabel_option hL h)
  | place l item x y z =>
    simp only [labels, List.flatMap_append, List.mem_append] at h
    refine .place l l ?_ ?_ ?_ ?_
    · exact Expr.match_relabel hL fun n hn => h n (.inl hn)
    · exact Expr.match_relabel_option hL fun n hn => h n (.inr (.inl (.inl hn)))
    · exact Expr.match_relabel_option hL fun n hn => h n (.inr (.inl (.inr hn)))
    · exact Expr.match_relabel_option hL fun n hn => h n (.inr (.inr hn))
  | equip l item => exact .equip l l (Expr.match_relabel hL h)
  | drop l item count =>
    simp only [labels, List.mem_append] at h
    refine .drop l l ?_ ?_
    · exact Expr.match_relabel hL fun n hn => h n (.inl hn)
    · exact Expr.match_relabel_option hL fun n hn => h n (.inr hn)
  | wait l seconds => exact .wait l l (Expr.match_relabel hL h)
  | misfit tree => exact .misfit (Json.match_refl hL tree)

mutual

theorem Stmt.match_relabel (hL : ∀ l, L l l) : (s : Stmt) → (∀ n ∈ s.labels, N n (f n)) →
    s.Match L N (s.relabel f)
  | .declare l name init, h =>
    .declare (hL l) (h name List.mem_cons_self)
      (Expr.match_relabel hL fun n hn => h n (List.mem_cons_of_mem _ hn))
  | .assign l name value, h =>
    .assign (hL l) (h name List.mem_cons_self)
      (Expr.match_relabel hL fun n hn => h n (List.mem_cons_of_mem _ hn))
  | .branch l condition yes none, h => by
    simp only [Stmt.labels, List.mem_append] at h
    refine .branch (hL l) (Expr.match_relabel hL fun n hn => h n (.inl hn)) ?_ .none
    exact Body.match_relabel hL yes fun n hn => h n (.inr hn)
  | .branch l condition yes (some no), h => by
    simp only [Stmt.labels, List.mem_append] at h
    refine .branch (hL l) (Expr.match_relabel hL fun n hn => h n (.inl (.inl hn))) ?_ (.some ?_)
    · exact Body.match_relabel hL yes fun n hn => h n (.inl (.inr hn))
    · exact Body.match_relabel hL no fun n hn => h n (.inr hn)
  | .loop l count body, h => by
    simp only [Stmt.labels, List.mem_append] at h
    refine .loop (hL l) (Expr.match_relabel hL fun n hn => h n (.inl hn)) ?_
    exact Body.match_relabel hL body fun n hn => h n (.inr hn)
  | .command l c, h => .command (hL l) (Command.match_relabel hL h)
  | .evaluate l e, h => .evaluate (hL l) (Expr.match_relabel hL h)
  | .misfit tree, _ => .misfit (Json.match_refl hL tree)

theorem Body.match_relabel (hL : ∀ l, L l l) : (b : Body) → (∀ n ∈ b.labels, N n (f n)) →
    b.Match L N (b.relabel f)
  | .statements list, h => .statements (Stmt.match_relabelAll hL list h)
  | .misfit tree, _ => .misfit (Json.match_refl hL tree)

theorem Stmt.match_relabelAll (hL : ∀ l, L l l) : (list : List Stmt) →
    (∀ n ∈ Stmt.labelsOf list, N n (f n)) →
    List.Forall₂ (Stmt.Match L N) list (Stmt.relabelAll f list)
  | [], _ => .nil
  | s :: rest, h =>
    .cons (Stmt.match_relabel hL s fun n hn => h n (List.mem_append_left _ hn))
      (Stmt.match_relabelAll hL rest fun n hn => h n (List.mem_append_right _ hn))

end

theorem Expr.relabel_id (e : Expr) : e.relabel id = e := by
  induction e with
  | binary l op left right ihl ihr => simp only [relabel, ihl, ihr]
  | unary l op operand ih => simp only [relabel, ih]
  | _ => rfl

theorem Command.relabel_id (c : Command) : c.relabel id = c := by
  have hid : Expr.relabel id = id := funext Expr.relabel_id
  cases c <;> simp [relabel, hid]

mutual

theorem Stmt.relabel_id : (s : Stmt) → s.relabel id = s
  | .declare l name init => by rw [Stmt.relabel, Expr.relabel_id, id]
  | .assign l name value => by rw [Stmt.relabel, Expr.relabel_id, id]
  | .branch l condition yes none => by
    rw [Stmt.relabel, Expr.relabel_id, Body.relabel_id yes]
  | .branch l condition yes (some no) => by
    rw [Stmt.relabel, Expr.relabel_id, Body.relabel_id yes, Body.relabel_id no]
  | .loop l count body => by rw [Stmt.relabel, Expr.relabel_id, Body.relabel_id body]
  | .command l c => by rw [Stmt.relabel, Command.relabel_id]
  | .evaluate l e => by rw [Stmt.relabel, Expr.relabel_id]
  | .misfit tree => rfl

theorem Body.relabel_id : (b : Body) → b.relabel id = b
  | .statements list => by rw [Body.relabel, Stmt.relabelAll_id list]
  | .misfit tree => rfl

theorem Stmt.relabelAll_id : (list : List Stmt) → Stmt.relabelAll id list = list
  | [] => rfl
  | s :: rest => by rw [Stmt.relabelAll, Stmt.relabel_id s, Stmt.relabelAll_id rest]

end

/-- Statements match themselves as far as the names in them do. -/
theorem Stmt.matchAll_refl (hL : ∀ l, L l l) {list : List Stmt}
    (h : ∀ n ∈ Stmt.labelsOf list, N n n) : List.Forall₂ (Stmt.Match L N) list list := by
  have hm := Stmt.match_relabelAll (f := id) hL list h
  rwa [Stmt.relabelAll_id] at hm

theorem Program.match_relabel (hL : ∀ l, L l l) {p : Program} (h : ∀ n ∈ p.labels, N n (f n)) :
    p.Match L N (p.relabel f) := by
  cases p with
  | program l body => exact .program l l (Body.match_relabel hL body h)
  | misfit tree => exact .misfit (Json.match_refl hL tree)

/-- A program matches itself as far as the names in it do. -/
theorem Program.match_refl (hL : ∀ l, L l l) {p : Program} (h : ∀ n ∈ p.labels, N n n) :
    p.Match L N p := by
  have hm := match_relabel (f := id) hL h
  have hid : p.relabel id = p := by
    cases p with
    | program l body => rw [relabel, Body.relabel_id]
    | misfit tree => rfl
  rwa [hid] at hm

end Relabel

end AgentScript
