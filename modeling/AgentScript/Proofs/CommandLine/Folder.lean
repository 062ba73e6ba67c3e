import AgentScript.CommandLine.Desk
import Mathlib.Tactic.ByContra

/-! Files by their paths. The plain form of a path has its parts and its root, and is plain still
when its last part is lengthened; a file that is written is found again, and no other one changes. -/
namespace AgentScript

namespace Text

theorem notMem_of_splitAt {sep : Char} {cs : List Char} :
    ∀ part ∈ splitAt sep cs, sep ∉ part := by
  induction cs with
  | nil =>
    intro part h
    rw [List.mem_singleton.mp h]
    exact List.not_mem_nil
  | cons c cs ih =>
    intro part h
    rw [splitAt] at h
    split at h
    · rcases List.mem_cons.mp h with rfl | h
      · exact List.not_mem_nil
      · exact ih part h
    · next hc =>
      split at h
      · next first more hs =>
        rw [hs, List.forall_mem_cons] at ih
        rcases List.mem_cons.mp h with rfl | h
        · simp [Ne.symm hc, ih.1]
        · exact ih.2 part h
      · rw [List.mem_singleton.mp h]
        simp [Ne.symm hc]

theorem splitAt_append_sep {sep : Char} {part : List Char} (h : sep ∉ part) (cs : List Char) :
    splitAt sep (part ++ sep :: cs) = part :: splitAt sep cs := by
  induction part with
  | nil => rw [List.nil_append, splitAt, if_pos rfl]
  | cons c part ih =>
    rw [List.mem_cons, not_or] at h
    rw [List.cons_append, splitAt, if_neg (Ne.symm h.1), ih h.2]

theorem splitAt_of_notMem {sep : Char} {part : List Char} (h : sep ∉ part) :
    splitAt sep part = [part] := by
  induction part with
  | nil => rfl
  | cons c part ih =>
    rw [List.mem_cons, not_or] at h
    rw [splitAt, if_neg (Ne.symm h.1), ih h.2]

theorem splitAt_intercalate {sep : Char} {part : List Char} {more : List (List Char)}
    (h : ∀ p ∈ part :: more, sep ∉ p) :
    splitAt sep (List.intercalate [sep] (part :: more)) = part :: more := by
  induction more generalizing part with
  | nil =>
    have hp := splitAt_of_notMem (h part (by simp))
    simpa [List.intercalate] using hp
  | cons next more ih =>
    have ih := ih fun p hp => h p (List.mem_cons_of_mem part hp)
    have hp := splitAt_append_sep (h part (by simp)) (List.intercalate [sep] (next :: more))
    rw [ih] at hp
    simpa [List.intercalate, List.intersperse] using hp

end Text

namespace Path

structure IsName (part : List Char) : Prop where
  ne_nil : part ≠ []
  ne_point : part ≠ ['.']
  noSlash : '/' ∉ part

theorem parts_isName (path : String) : ∀ p ∈ parts path, IsName p := by
  intro p hp
  obtain ⟨hm, hne⟩ := List.mem_filter.mp hp
  have hne : p ≠ [] ∧ p ≠ ['.'] := by simpa using hne
  exact ⟨hne.1, hne.2, Text.notMem_of_splitAt p hm⟩

theorem root_cases (cs : List Char) : root cs = [] ∨ root cs = ['/'] ∨ root cs = ['/', '/'] := by
  unfold root
  split <;> simp

def join (root : List Char) (ps : List (List Char)) : List Char :=
  root ++ List.intercalate ['/'] ps

theorem parts_join (cs : List Char) {ps : List (List Char)} (h : ∀ p ∈ ps, IsName p) :
    parts (String.ofList (join (root cs) ps)) = ps := by
  have hfilter : ps.filter (fun p => p ≠ [] && p ≠ ['.']) = ps := by
    refine List.filter_eq_self.mpr fun p hp => ?_
    simp [(h p hp).ne_nil, (h p hp).ne_point]
  unfold parts
  rw [String.toList_ofList, join]
  cases ps with
  | nil => rcases root_cases cs with hr | hr | hr <;> rw [hr] <;> rfl
  | cons p more =>
    have hs := Text.splitAt_intercalate fun q hq => (h q hq).noSlash
    rcases root_cases cs with hr | hr | hr
    · rw [hr, List.nil_append, hs, hfilter]
    · rw [hr, List.cons_append, List.nil_append, Text.splitAt, if_pos rfl, hs]
      exact hfilter
    · rw [hr, List.cons_append, List.cons_append, List.nil_append, Text.splitAt, if_pos rfl,
        Text.splitAt, if_pos rfl, hs]
      exact hfilter

theorem exists_intercalate {p : List Char} (h : IsName p) (more : List (List Char)) :
    ∃ c r, List.intercalate ['/'] (p :: more) = c :: r ∧ c ≠ '/' := by
  obtain ⟨c, r, rfl⟩ := List.exists_cons_of_ne_nil h.ne_nil
  have hc : c ≠ '/' := fun he => h.noSlash (he ▸ List.mem_cons_self)
  cases more with
  | nil => exact ⟨c, _, rfl, hc⟩
  | cons q more => exact ⟨c, _, rfl, hc⟩

theorem root_join (cs : List Char) {ps : List (List Char)} (h : ∀ p ∈ ps, IsName p) :
    root (join (root cs) ps) = root cs := by
  unfold join
  cases ps with
  | nil => rcases root_cases cs with hr | hr | hr <;> rw [hr] <;> rfl
  | cons p more =>
    obtain ⟨c, r, hi, hc⟩ := exists_intercalate (h p (by simp)) more
    rw [hi]
    rcases root_cases cs with hr | hr | hr <;> rw [hr] <;> simp [root, hc]

/-- A root with parts is plain. -/
theorem normal_join (cs : List Char) {ps : List (List Char)} (h : ∀ p ∈ ps, IsName p)
    (hne : join (root cs) ps ≠ []) :
    normal (String.ofList (join (root cs) ps)) = String.ofList (join (root cs) ps) := by
  unfold normal
  rw [parts_join cs h, String.toList_ofList, root_join cs h]
  exact if_neg (by simpa [join] using hne)

theorem normal_eq (path : String) :
    normal path = if join (root path.toList) (parts path) = [] then "."
      else String.ofList (join (root path.toList) (parts path)) := by
  unfold normal join
  simp only [List.isEmpty_iff]

theorem join_ne_nil (cs : List Char) {ps : List (List Char)} (h : ∀ p ∈ ps, IsName p)
    (hp : ps ≠ []) : join (root cs) ps ≠ [] := by
  obtain ⟨p, more, rfl⟩ := List.exists_cons_of_ne_nil hp
  obtain ⟨c, r, hi, -⟩ := exists_intercalate (h p (by simp)) more
  rw [join, hi]
  simp

theorem parts_normal (path : String) : parts (normal path) = parts path := by
  rw [normal_eq]
  split
  · next he =>
    have hp : parts path = [] := by
      by_contra hp
      exact join_ne_nil _ (parts_isName path) hp he
    rw [hp]
    rfl
  · exact parts_join _ (parts_isName path)

theorem isFolder_normal (path : String) : isFolder (normal path) = isFolder path := by
  rw [isFolder, parts_normal]
  rfl

theorem intercalate_append (init : List (List Char)) (last ext : List Char) :
    List.intercalate ['/'] (init ++ [last]) ++ ext =
      List.intercalate ['/'] (init ++ [last ++ ext]) := by
  induction init with
  | nil => simp [List.intercalate]
  | cons p init ih =>
    cases init with
    | nil => simp [List.intercalate, List.intersperse]
    | cons q init =>
      simp only [List.intercalate, List.cons_append, List.intersperse, List.flatten_cons,
        List.append_assoc] at ih ⊢
      rw [ih]

/-- To lengthen a plain path lengthens its last part. -/
theorem exists_extended {path : String} (h : parts path ≠ []) {ext : List Char} (he : ext ≠ [])
    (hs : '/' ∉ ext) :
    ∃ init last, (∀ p ∈ init ++ [last ++ ext], IsName p) ∧
      normal path ++ String.ofList ext =
        String.ofList (join (root path.toList) (init ++ [last ++ ext])) := by
  have hnames := parts_isName path
  have hn := normal_eq path
  rw [if_neg (join_ne_nil _ hnames h)] at hn
  obtain ⟨init, last, hp⟩ := (List.eq_nil_or_concat (parts path)).resolve_left h
  rw [hp, List.concat_eq_append] at hn hnames
  refine ⟨init, last, ?_, ?_⟩
  · intro p hm
    rcases List.mem_append.mp hm with hm | hm
    · exact hnames p (List.mem_append_left _ hm)
    · obtain rfl := List.mem_singleton.mp hm
      have hlast := hnames last (by simp)
      refine ⟨by simp [he], fun hpoint => ?_, by simp [hlast.noSlash, hs]⟩
      have hlength := congrArg List.length hpoint
      have hl := List.length_pos_iff.mpr hlast.ne_nil
      have hx := List.length_pos_iff.mpr he
      rw [List.length_append, List.length_singleton] at hlength
      omega
  · rw [hn, ← String.ofList_append, join, List.append_assoc, intercalate_append, ← join]

variable {path : String}

theorem normal_extended (h : parts path ≠ []) (ext : List Char) (he : ext ≠ []) (hs : '/' ∉ ext) :
    normal (normal path ++ String.ofList ext) = normal path ++ String.ofList ext := by
  obtain ⟨init, last, hnames, hn⟩ := exists_extended h he hs
  rw [hn]
  exact normal_join _ hnames (join_ne_nil _ hnames (by simp))

/-- A file is named by a longer path too. -/
theorem isFolder_extended (h : parts path ≠ []) (ext : List Char) (he : 2 < ext.length)
    (hs : '/' ∉ ext) : isFolder (normal path ++ String.ofList ext) = false := by
  have hne : ext ≠ [] := List.ne_nil_of_length_pos (by omega)
  obtain ⟨init, last, hnames, hn⟩ := exists_extended h hne hs
  have hup : last ++ ext ≠ ['.', '.'] := fun hup => by
    have hlength := congrArg List.length hup
    rw [List.length_append, List.length_cons, List.length_singleton] at hlength
    omega
  rw [hn, isFolder, parts_join _ hnames]
  simp [hup]

end Path

namespace Folder

theorem lookup_put (name text : String) (files : List (String × String)) :
    (put name text files).lookup name = some text := by
  induction files with
  | nil => simp [put]
  | cons f files ih =>
    obtain ⟨n, t⟩ := f
    unfold put
    split
    · next hn => simp [hn]
    · next hn => rw [List.lookup_cons, beq_false_of_ne (Ne.symm hn), ih]

theorem lookup_put_ne {name other : String} (h : other ≠ name) (text : String)
    (files : List (String × String)) : (put name text files).lookup other = files.lookup other := by
  induction files with
  | nil => simp [put, h]
  | cons f files ih =>
    obtain ⟨n, t⟩ := f
    unfold put
    split
    · next hn =>
      rw [hn, List.lookup_cons, List.lookup_cons, beq_false_of_ne h]
    · rw [List.lookup_cons, List.lookup_cons, ih]

variable {d : Folder} {path name text : String}

theorem isFolder_of_file (h : d.entry? path = some (.file text)) : Path.isFolder path = false := by
  by_contra hf
  rw [Folder.entry?, if_pos (by simpa using hf)] at h
  cases h

theorem parts_of_file (h : d.entry? path = some (.file text)) : Path.parts path ≠ [] := by
  intro hp
  have hf := isFolder_of_file h
  rw [Path.isFolder, hp] at hf
  cases hf

/-- What was written is found under every path to the file. -/
theorem finds_written (hp : Path.normal path = Path.normal name) (hf : Path.isFolder path = false) :
    Folder.entry? (d.write name text) path = some (.file text) := by
  rw [Folder.entry?, if_neg (by simp [hf]), write, hp, lookup_put]
  rfl

theorem finds_beside (h : Path.normal path ≠ Path.normal name) :
    Folder.entry? (d.write name text) path = d.entry? path := by
  simp only [Folder.entry?, write, lookup_put_ne h]

theorem unifyBreaks_of_clean {cs : List Char} (h : '\r' ∉ cs) : unifyBreaks cs = cs := by
  induction cs with
  | nil => rfl
  | cons c cs ih =>
    rw [List.mem_cons, not_or] at h
    have ih := ih h.2
    unfold unifyBreaks
    split
    · next he => cases he
    · next he => exact absurd (List.cons.inj he).1.symm h.1
    · next he => exact absurd (List.cons.inj he).1.symm h.1
    · next he =>
      obtain ⟨rfl, rfl⟩ := List.cons.inj he
      rw [ih]

theorem length_unifyBreaks (cs : List Char) : (unifyBreaks cs).length ≤ cs.length := by
  fun_induction unifyBreaks cs <;> simp_all
  omega

end Folder

namespace CommandLine.Desk

theorem source_of_file {d : Desk} {path text : String}
    (h : d.folder.entry? path = some (.file text)) :
    d.source path = .ok (Folder.unifyBreaks text.toList) := by
  unfold source
  rw [h]
  rfl

theorem given_of_file {d : Desk} {path text : String}
    (h : d.folder.entry? path = some (.file text)) : given (some path) = some path := by
  refine if_pos (decide_eq_true ?_)
  rintro rfl
  cases h

end CommandLine.Desk

end AgentScript
