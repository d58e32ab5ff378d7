import Recompile.Path.Absolute
import Recompile.Proofs.Disk.Reach
import Recompile.Proofs.Path.Push

/-!
# Normal forms

The normal form of a path is made of proper names, if the names of the working directory are proper
or the path is absolute.
-/

namespace Recompile

namespace Path

variable {p : Path} {l base : Location}

/-- Taking steps from a proper place leads to a proper place. -/
theorem isProper_foldl_step {steps : List Component}
    (hsteps : ∀ name, Component.name name ∈ steps → IsName name) (hl : l.IsProper) :
    (steps.foldl step l).IsProper := by
  induction steps generalizing l with
  | nil => exact hl
  | cons c rest ih =>
    refine ih (fun name hname => hsteps name (List.mem_cons_of_mem c hname)) ?_
    cases c with
    | root =>
      intro name hname
      cases hname
    | here => exact hl
    | up => exact fun name hname => hl name (List.mem_of_mem_dropLast hname)
    | name text =>
      intro name hname
      rcases List.mem_append.1 hname with hold | hnew
      · exact hl name hold
      · rw [List.mem_singleton.1 hnew]
        exact hsteps text List.mem_cons_self

theorem isName_of_ofPart? {part name : String} (hpart : '/' ∉ part.toList)
    (h : Component.ofPart? part = some (.name name)) : IsName name := by
  unfold Component.ofPart? at h
  simp only [Bool.or_eq_true, decide_eq_true_eq] at h
  split_ifs at h with hskip hup
  · cases h
  · obtain ⟨hempty, hhere⟩ := not_or.1 hskip
    obtain rfl : part = name := by simpa using h
    exact ⟨hempty, hhere, hup, hpart⟩

theorem isName_of_mem_components {name : String} (h : Component.name name ∈ p.components) :
    IsName name := by
  have hparts : ∀ part ∈ p.parts, '/' ∉ part.toList := fun part hpart =>
    Text.not_mem_of_mem_fields hpart
  unfold components at h
  split at h
  · cases h
  next first rest heq =>
    rw [heq] at hparts
    rcases List.mem_append.1 h with hfirst | hrest
    · split_ifs at hfirst
      · simp at hfirst
      · simp at hfirst
      · exact isName_of_ofPart? (hparts first List.mem_cons_self) (by simpa using hfirst)
    · obtain ⟨part, hpart, hname⟩ := List.mem_filterMap.1 hrest
      exact isName_of_ofPart? (hparts part (List.mem_cons_of_mem first hpart)) hname

theorem isProper_location (hbase : p.isAbsolute = false → base.IsProper) :
    (p.location base).IsProper := by
  unfold location
  cases habsolute : p.isAbsolute with
  | false => exact isProper_foldl_step (fun _ => isName_of_mem_components) (hbase habsolute)
  | true =>
    -- the first step goes to the root, wherever the path is read
    obtain ⟨rest, hrest⟩ := (Text.startsWith_slash_iff _).1 habsolute
    have hparts : p.parts = "" :: Text.fields '/' rest := by
      have hsplit := Text.fields_append_slash "" rest
      have hempty : Text.fields '/' "" = [""] := Text.fields_of_not_mem (by simp)
      rwa [String.empty_append, ← hrest, hempty, List.singleton_append] at hsplit
    obtain ⟨next, more, hmore⟩ := List.exists_cons_of_ne_nil (Text.fields_ne_nil '/' rest)
    have hroot : ∃ steps, p.components = .root :: steps := by
      refine ⟨(next :: more).filterMap Component.ofPart?, ?_⟩
      rw [components, hparts, hmore]
      simp
    obtain ⟨steps, hsteps⟩ := hroot
    have hstart : p.components.foldl step base = p.components.foldl step [] := by
      rw [hsteps]
      rfl
    rw [hstart]
    exact isProper_foldl_step (fun _ => isName_of_mem_components) fun name hname => by cases hname

end Path

end Recompile
