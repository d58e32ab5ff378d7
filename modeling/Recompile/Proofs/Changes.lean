import Recompile.Changes
import Recompile.Proofs.Action

/-!
# What is known about the sources of a build

Hashing reads every source and changes nothing. If it succeeds, the table has the digest of each
source and nothing else.
-/

namespace Recompile.Changes

variable {w : World}

theorem getElem?_changed_between (digests previous : Table) (source : String) :
    (between digests previous).changed[source]? =
      (digests[source]?).filter fun digest => previous[source]? != some digest := by
  rw [between, Std.ExtTreeMap.getElem?_filter']

theorem mem_deleted_between (digests previous : Table) (source : String) :
    source ∈ (between digests previous).deleted ↔ source ∈ previous ∧ source ∉ digests := by
  simp only [between, Std.ExtTreeSet.mem_ofList, List.contains_iff_mem, List.mem_filter,
    Std.ExtTreeMap.mem_keys, Bool.not_eq_true', ← Bool.not_eq_true, Std.ExtTreeMap.contains_iff_mem]

theorem mem_seeds (c : Changes) (source : String) :
    source ∈ c.seeds ↔ source ∈ c.changed ∨ source ∈ c.deleted := by
  simp only [seeds, Std.ExtTreeSet.mem_ofList, List.contains_iff_mem, List.mem_append,
    Std.ExtTreeMap.mem_keys, Std.ExtTreeSet.mem_toList]

theorem digestOf_reads (file : Path) :
    (digestOf file).wp w
      (fun digest w' => w' = w ∧ ∃ bytes, w.disk.readFile w.cwd file = .ok bytes ∧
        digest = Sha256.hex bytes)
      fun f w' => w' = w ∧ ∃ fault, w.disk.readFile w.cwd file = .error fault ∧
        f = ⟨[.hashing file], .fault fault⟩ := by
  unfold digestOf Action.readBytes
  simp only [Action.wp_bind, Action.wp_within, Action.wp_query, Action.wp_pure]
  cases hread : w.disk.readFile w.cwd file with
  | ok bytes => exact ⟨trivial, bytes, rfl, rfl⟩
  | error fault => exact ⟨trivial, fault, rfl, rfl⟩

/-- The table holds the digests of these sources and no others. -/
structure IsDigest (d : Disk) (cwd : Location) (sources : List String) (digests : Table) :
    Prop where
  read : ∀ source ∈ sources, ∃ bytes, d.readFile cwd ⟨source⟩ = .ok bytes ∧
    digests[source]? = some (Sha256.hex bytes)
  other : ∀ source ∉ sources, digests[source]? = none

theorem IsDigest.unique {d : Disk} {cwd : Location} {sources : List String} {table table' : Table}
    (h : IsDigest d cwd sources table) (h' : IsDigest d cwd sources table') : table = table' := by
  refine Std.ExtTreeMap.ext_getElem? fun source => ?_
  by_cases hmem : source ∈ sources
  · obtain ⟨bytes, hbytes, hdigest⟩ := h.read source hmem
    obtain ⟨bytes', hbytes', hdigest'⟩ := h'.read source hmem
    obtain rfl : bytes = bytes' := Except.ok.inj (hbytes.symm.trans hbytes')
    rw [hdigest, hdigest']
  · rw [h.other source hmem, h'.other source hmem]

theorem digests_reads (sources : List String) :
    (digests sources).wp w
      (fun table w' => w' = w ∧ IsDigest w.disk w.cwd sources table)
      fun f w' => w' = w ∧ ∃ source ∈ sources, ∃ fault,
        w.disk.readFile w.cwd ⟨source⟩ = .error fault ∧ f = ⟨[.hashing ⟨source⟩], .fault fault⟩ := by
  induction sources with
  | nil => exact ⟨rfl, by simp, by simp⟩
  | cons source rest ih =>
    unfold digests
    simp only [Action.wp_bind, Action.wp_pure]
    refine (digestOf_reads (w := w) ⟨source⟩).mono (fun digest w₁ h₁ => ?_) fun _ w₁ h => ?_
    · obtain ⟨rfl, bytes, hbytes, rfl⟩ := h₁
      refine ih.mono (fun table w₂ h₂ => ?_) fun _ w₂ h => ?_
      · obtain ⟨rfl, hread, hother⟩ := h₂
        refine ⟨rfl, fun other hmem => ?_, fun other hnot => ?_⟩
        · by_cases heq : other = source
          · subst heq
            exact ⟨bytes, hbytes, by simp⟩
          · obtain ⟨more, hmore, hlookup⟩ := hread other (List.mem_of_ne_of_mem heq hmem)
            refine ⟨more, hmore, ?_⟩
            rw [Std.ExtTreeMap.getElem?_insert, if_neg (by simpa using Ne.symm heq), hlookup]
        · simp only [List.mem_cons, not_or] at hnot
          rw [Std.ExtTreeMap.getElem?_insert, if_neg (by simpa using Ne.symm hnot.1),
            hother other hnot.2]
      · obtain ⟨rfl, other, hmem, hfault⟩ := h
        exact ⟨rfl, other, List.mem_cons_of_mem source hmem, hfault⟩
    · exact ⟨h.1, source, List.mem_cons_self, h.2⟩

/-- What has changed is found by reading every source; nothing but the log changes. -/
theorem detect_reads (sources : Names) (previous : Table) :
    (detect sources previous).wp w
      (fun changes w' => w.Quiet w' ∧ ∃ table, IsDigest w.disk w.cwd sources.toList table ∧
        changes = between table previous)
      fun f w' => w' = w ∧ ∃ source ∈ sources.toList, ∃ fault,
        w.disk.readFile w.cwd ⟨source⟩ = .error fault ∧ f = ⟨[.hashing ⟨source⟩], .fault fault⟩ := by
  unfold detect
  simp only [Action.wp_bind, Action.wp_pure]
  refine (digests_reads sources.toList).mono (fun table w₁ h₁ => ?_) fun _ _ h => h
  obtain ⟨rfl, hdigest⟩ := h₁
  have hlogs : (sources.toList.forM fun _ =>
      Action.log .debug "incjc::detect" "comparing hashes").wp w₁ (fun _ => w₁.Quiet) fun _ _ =>
        False :=
    Action.wp_forM _ _ (fun _ _ _ h => h.trans ⟨⟨rfl, rfl, rfl⟩, rfl⟩) (.refl w₁)
  refine hlogs.mono (fun _ w₂ h₂ => ?_) fun _ _ h => h.elim
  rw [Action.wp_log]
  exact ⟨h₂.trans ⟨⟨rfl, rfl, rfl⟩, rfl⟩, table, hdigest, rfl⟩

end Recompile.Changes
