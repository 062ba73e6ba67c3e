import AgentScript.Syntax.Codec
import Mathlib.Data.List.Forall2

/-! When a node survives as data: its fields have the names its kind asks for, and each field holds
what that kind of field holds. -/
namespace AgentScript

namespace Json

/-- A datum that normalising leaves as it is. -/
def IsNormal (v : Json) : Prop := v.normalise = .ok v

theorem isNormal_null : null.IsNormal := rfl

end Json

/-- What a field of each kind holds in a normal tree. -/
inductive FieldKind.Holds : FieldKind → Json → Prop
  | child {v : Json} (h : v.IsNormal) : Holds .child v
  | optionalChild {v : Json} (h : v.IsNormal) : Holds .optionalChild v
  | name (v : Json) : Holds .name v
  | number (x : Float) : Holds .number (.real x)
  | string (s : String) : Holds .string (.str s)
  | boolean (b : Bool) : Holds .boolean (.bool b)
  | binaryOp (op : BinaryOp) : Holds .binaryOp (.str op.spelling)
  | unaryOp (op : UnaryOp) : Holds .unaryOp (.str op.spelling)

namespace Json

theorem convertField_holds {key : String} {kind : FieldKind} {trees : List FieldTree} {v : Json}
    (hf : trees.find? (·.key = key) = some ⟨key, v, v.normalise⟩) (h : kind.Holds v) :
    convertField key kind trees = .ok v := by
  unfold convertField
  rw [hf]
  cases h with
  | child h => exact h
  | optionalChild h => exact h
  | name | number | string => rfl
  | boolean b => cases b <;> rfl
  | binaryOp op => cases op <;> rfl
  | unaryOp op => cases op <;> rfl

theorem find?_fieldTrees {fields : List (String × Json)} (hn : (fields.map (·.1)).Nodup)
    {f : String × Json} (h : f ∈ fields) :
    (fieldTrees fields).find? (·.key = f.1) = some ⟨f.1, f.2, f.2.normalise⟩ := by
  induction fields with
  | nil => cases h
  | cons first rest ih =>
    rw [List.map_cons, List.nodup_cons] at hn
    rw [fieldTrees]
    by_cases hk : first.1 = f.1
    · obtain rfl : f = first := by
        refine (List.mem_cons.mp h).resolve_right fun h => hn.1 ?_
        rw [hk]
        exact List.mem_map_of_mem h
      simp
    · have h : f ∈ rest := (List.mem_cons.mp h).resolve_left fun he => hk (he ▸ rfl)
      rw [List.find?_cons_of_neg (by simpa using hk)]
      exact ih hn.2 h

/-- No field of a node is named twice, and none is named as the kind or the place of the node. -/
theorem nodeFields?_nodup {kind : String} {shape : List (String × FieldKind)}
    (h : nodeFields? kind = some shape) :
    ("type" :: "line" :: "column" :: shape.map (·.1)).Nodup := by
  unfold nodeFields? at h
  split at h <;> cases h <;> decide

theorem operatorFirst_perm (fields : List (String × Json)) :
    (operatorFirst fields).Perm fields := by
  have h := List.filter_append_perm (fun f : String × Json => decide (f.1 = "op")) fields
  simpa only [operatorFirst, ne_eq, decide_not] using h

/-- The fields of a node that hold the given data, in the order in which they are checked. -/
def fieldsOf (shape : List (String × FieldKind)) (values : List Json) : List (String × Json) :=
  List.zipWith (fun field v => (field.1, v)) shape values

section Fields

variable {shape : List (String × FieldKind)} {values : List Json}

theorem keys_fieldsOf (hv : List.Forall₂ (fun field v => field.2.Holds v) shape values) :
    (fieldsOf shape values).map (·.1) = shape.map (·.1) := by
  induction hv with
  | nil => rfl
  | cons _ _ ih =>
    rw [fieldsOf, List.zipWith_cons_cons, List.map_cons, ← fieldsOf, ih, List.map_cons]

theorem mapM_convertField {trees : List FieldTree}
    (hv : List.Forall₂ (fun field v => field.2.Holds v) shape values)
    (hf : ∀ f ∈ fieldsOf shape values,
      trees.find? (·.key = f.1) = some ⟨f.1, f.2, f.2.normalise⟩) :
    (shape.mapM fun field => do return (field.1, ← convertField field.1 field.2 trees)) =
      .ok (fieldsOf shape values) := by
  induction hv with
  | nil => rfl
  | @cons field v shape values h _ ih =>
    rw [fieldsOf, List.zipWith_cons_cons, List.forall_mem_cons] at hf
    rw [List.mapM_cons, ih hf.2, convertField_holds hf.1 h]
    rfl

/-- A node whose kind and place are found converts as its fields do. -/
theorem convertNode_of_fields {trees : List FieldTree} {kind : String} {loc : Location}
    {converted : List (String × Json)}
    (htype : trees.find? (·.key = "type") = some ⟨"type", .str kind, .ok (.str kind)⟩)
    (hline : trees.find? (·.key = "line") = some ⟨"line", .int loc.line, .ok (.int loc.line)⟩)
    (hcolumn : trees.find? (·.key = "column") =
      some ⟨"column", .int loc.column, .ok (.int loc.column)⟩)
    (hs : nodeFields? kind = some shape)
    (hm : (shape.mapM fun field => do return (field.1, ← convertField field.1 field.2 trees)) =
      .ok converted) :
    convertNode trees = .ok (nodeTree kind loc (operatorFirst converted)) := by
  rw [convertNode, placeField, hline, placeField, hcolumn, htype]
  simp only [Option.map_some, Option.getD_some, hs]
  exact congrArg (· >>= fun c => pure (nodeTree kind loc (operatorFirst c))) hm

/-- A node is normal when its fields hold what its kind asks for. -/
theorem normal_node {kind : String} {loc : Location} {fields : List (String × Json)}
    (hs : nodeFields? kind = some shape)
    (hv : List.Forall₂ (fun field v => field.2.Holds v) shape values)
    (hf : fields = operatorFirst (fieldsOf shape values)) :
    (nodeTree kind loc fields).IsNormal := by
  have hperm : fields.Perm (fieldsOf shape values) := hf ▸ operatorFirst_perm _
  have hn : ("type" :: "line" :: "column" :: fields.map (·.1)).Nodup := by
    have hkeys : (fields.map (·.1)).Perm (shape.map (·.1)) := keys_fieldsOf hv ▸ hperm.map _
    rw [(((hkeys.cons "column").cons "line").cons "type").nodup_iff]
    exact nodeFields?_nodup hs
  -- every field of the node is the one found under its name
  have hfind (f : String × Json) (hm : f ∈ ("type", .str kind) :: ("line", .int loc.line) ::
      ("column", .int loc.column) :: fields) := find?_fieldTrees (by exact hn) hm
  have htype := hfind ("type", .str kind) (by simp)
  have hline := hfind ("line", .int loc.line) (by simp)
  have hcolumn := hfind ("column", .int loc.column) (by simp)
  have hm := mapM_convertField hv fun f hf => hfind f (by simp [hperm.mem_iff.mpr hf])
  rw [IsNormal, nodeTree, normalise, convertNode_of_fields htype hline hcolumn hs hm, ← hf,
    nodeTree]

end Fields

end Json
end AgentScript
