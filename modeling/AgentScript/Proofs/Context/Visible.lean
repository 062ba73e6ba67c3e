import AgentScript.Proofs.Context.Sound
import Mathlib.Data.List.Induction
import Mathlib.Data.List.TFAE
import Mathlib.Tactic.TFAE

/-! The view of all visible variables. It lays the frames over each other from the global one inward,
where a look-up goes outward and stops at the first frame that binds the name. In every context that
can be reached the two agree. -/
namespace AgentScript

def Binding.entry (b : Binding) : String × Value := (b.name, b.value)

namespace Frame

theorem lookup_entries (f : Frame) (name : String) :
    (f.map Binding.entry).lookup name = (f.find? name).map (·.value) := by
  induction f with
  | nil => rfl
  | cons b f ih =>
    rw [List.map_cons, find?_cons, Binding.entry]
    by_cases hn : b.name = name
    · subst hn
      rw [if_pos rfl, List.lookup_cons_self]
      rfl
    · have hne : (name == b.name) = false := by simpa using Ne.symm hn
      rw [if_neg hn, List.lookup_cons, hne]
      exact ih

theorem names_entries (f : Frame) : (f.map Binding.entry).map (·.1) = f.map (·.name) := by
  rw [List.map_map]
  rfl

theorem mem_names_iff {f : Frame} {name : String} :
    name ∈ f.map (·.name) ↔ (f.find? name).isSome = true := by
  rw [find?, List.find?_isSome]
  simp

theorem overlay_entries (f : Frame) (b : Binding) :
    Context.overlay (f.map Binding.entry) b = (f.put b).map Binding.entry := by
  induction f with
  | nil => rfl
  | cons a f ih =>
    rw [List.map_cons, Binding.entry, Context.overlay, put]
    by_cases hn : a.name = b.name
    · rw [if_pos hn, if_pos hn, hn]
      rfl
    · rw [if_neg hn, if_neg hn, ih]
      rfl

theorem foldl_overlay_entries (f g : Frame) :
    g.foldl Context.overlay (f.map Binding.entry) = (g.foldl put f).map Binding.entry := by
  induction g generalizing f with
  | nil => rfl
  | cons b g ih => rw [List.foldl_cons, overlay_entries, ih, List.foldl_cons]

def flatten (fs : List Frame) : Frame := fs.foldl (fun f g => g.foldl put f) []

theorem flatten_concat (fs : List Frame) (g : Frame) :
    flatten (fs ++ [g]) = g.foldl put (flatten fs) := by
  rw [flatten, List.foldl_append]
  rfl

theorem nodup_foldl_put {f : Frame} (h : (f.map (·.name)).Nodup) (bindings : List Binding) :
    ((bindings.foldl put f).map (·.name)).Nodup := by
  induction bindings generalizing f with
  | nil => exact h
  | cons b bindings ih => exact ih (nodup_put h b)

theorem nodup_flatten (fs : List Frame) : ((flatten fs).map (·.name)).Nodup := by
  induction fs using List.reverseRecOn with
  | nil => exact List.nodup_nil
  | append_singleton fs g ih =>
    rw [flatten_concat]
    exact nodup_foldl_put ih g

/-- Of many frames laid over each other, the last one that binds a name is seen. The names of each
must differ, or the last of two would win and not the first. -/
theorem find?_flatten {fs : List Frame} (h : ∀ f ∈ fs, ∃ scope, f.Sound scope) (name : String) :
    (flatten fs).find? name = fs.reverse.findSome? (·.find? name) := by
  induction fs using List.reverseRecOn with
  | nil => rfl
  | append_singleton fs g ih =>
    obtain ⟨scope, hg⟩ := h g (List.mem_append_right _ List.mem_cons_self)
    rw [flatten_concat, find?_foldl_put, hg.find?_reverse,
      ih fun f hf => h f (List.mem_append_left _ hf), List.reverse_concat, List.findSome?_cons]
    cases g.find? name <;> rfl

end Frame

namespace Context

variable {c : Context}

theorem visible_eq (c : Context) :
    c.visible = (Frame.flatten c.frames.reverse).map Binding.entry := by
  have hframes : ∀ (fs : List Frame) (f : Frame),
      fs.foldl (fun shown g => g.foldl overlay shown) (f.map Binding.entry) =
        (fs.foldl (fun f g => g.foldl Frame.put f) f).map Binding.entry := by
    intro fs
    induction fs with
    | nil => exact fun _ => rfl
    | cons g fs ih =>
      intro f
      rw [List.foldl_cons, Frame.foldl_overlay_entries, ih, List.foldl_cons]
  rw [reverse_frames]
  exact hframes _ []

theorem find?_flatten_frames (hc : c.Sound) (name : String) :
    (Frame.flatten c.frames.reverse).find? name = c.lookup? name := by
  rw [Frame.find?_flatten fun f hf => hc.frame (List.mem_reverse.mp hf), List.reverse_reverse]
  rfl

theorem lookup_visible (hc : c.Sound) (name : String) :
    c.visible.lookup name = (c.lookup? name).map (·.value) := by
  rw [visible_eq, Frame.lookup_entries, find?_flatten_frames hc]

theorem nodup_visible (c : Context) : (c.visible.map (·.1)).Nodup := by
  rw [visible_eq, Frame.names_entries]
  exact Frame.nodup_flatten _

theorem mem_names_visible (hc : c.Sound) (name : String) :
    name ∈ c.visible.map (·.1) ↔ (c.lookup? name).isSome = true := by
  rw [visible_eq, Frame.names_entries, Frame.mem_names_iff, find?_flatten_frames hc]

/-- In every context that some actions make of a fresh one, a name stands in the view of visible
variables exactly if it can be read at all, and both give the value that it has in the innermost frame
that binds it. -/
theorem visible_agrees (botName version : String) (now : Float) (actions : List Action) :
    let c := (fresh botName version now).since actions
    (c.visible.map (·.1)).Nodup ∧ ∀ name,
      List.TFAE [name ∈ c.visible.map (·.1), c.has name = true, ∃ v, c.get name = .ok v,
        ∃ b, c.lookup? name = some b, ∃ height b, c.Means name height b] ∧
      ∀ height b, c.Means name height b →
        c.visible.lookup name = some b.value ∧ c.get name = .ok b.value ∧
          c.lookup? name = some b := by
  intro c
  have hc : c.Sound := (sound_fresh botName version now).since actions
  refine ⟨nodup_visible c, fun name => ⟨?_, fun height b hm => ?_⟩⟩
  · tfae_have 1 ↔ 2 := mem_names_visible hc name
    tfae_have 2 ↔ 4 := Option.isSome_iff_exists
    tfae_have 4 → 5 := by
      rintro ⟨b, hb⟩
      obtain ⟨height, hm⟩ := lookup?_eq_some_iff.mp hb
      exact ⟨height, b, hm⟩
    tfae_have 5 → 3 := by
      rintro ⟨height, b, hm⟩
      exact ⟨b.value, get_of_means hm⟩
    tfae_have 3 → 4 := by
      rintro ⟨v, hv⟩
      unfold get at hv
      cases hl : c.lookup? name with
      | none =>
        rw [hl] at hv
        cases hv
      | some b => exact ⟨b, rfl⟩
    tfae_finish
  · have hl : c.lookup? name = some b := lookup?_eq_some_iff.mpr ⟨height, hm⟩
    refine ⟨?_, get_of_means hm, hl⟩
    rw [lookup_visible hc, hl]
    rfl

end Context

end AgentScript
