import Recompile.Proofs.Changes
import Recompile.Proofs.Store.Mutators

/-!
# What has changed, as a patch of the recorded digests

What is detected is a patch: without the deleted sources and with the changed ones, the recorded
digests are the digests of all sources as they are now. So after the patch nothing has changed, as
long as the sources can be read as before.
-/

namespace Recompile

namespace Changes

/-- The digest of a source that can be read. -/
def HasDigest (w : World) (source digest : String) : Prop :=
  ∃ bytes, w.disk.readFile w.cwd ⟨source⟩ = .ok bytes ∧ digest = Sha256.hex bytes

/-- What tells the sources of now from those that were recorded. -/
structure IsPatch (w : World) (sources : Names) (previous : Table) (c : Changes) : Prop where
  changed : ∀ source digest, c.changed[source]? = some digest ↔
    source ∈ sources ∧ HasDigest w source digest ∧ previous[source]? ≠ some digest
  deleted : ∀ source, source ∈ c.deleted ↔ source ∈ previous ∧ source ∉ sources
  disjoint : ∀ source, source ∈ c.changed → source ∉ c.deleted
  seeds : ∀ source, source ∈ c.seeds ↔ source ∈ c.changed ∨ source ∈ c.deleted

variable {w : World} {sources : Names} {previous table : Table}

theorem IsDigest.getElem?_eq_some_iff
    (h : IsDigest w.disk w.cwd sources.toList table) (source digest : String) :
    table[source]? = some digest ↔ source ∈ sources ∧ HasDigest w source digest := by
  constructor
  · intro hdigest
    have hmem : source ∈ sources.toList := by
      by_contra hnot
      rw [h.other source hnot] at hdigest
      cases hdigest
    obtain ⟨bytes, hbytes, htable⟩ := h.read source hmem
    refine ⟨Std.ExtTreeSet.mem_toList.1 hmem, bytes, hbytes, ?_⟩
    exact Option.some.inj (hdigest.symm.trans htable)
  · rintro ⟨hmem, bytes, hbytes, rfl⟩
    obtain ⟨bytes', hbytes', htable⟩ := h.read source (Std.ExtTreeSet.mem_toList.2 hmem)
    rw [htable, Except.ok.inj (hbytes.symm.trans hbytes')]

theorem IsDigest.mem_iff (h : IsDigest w.disk w.cwd sources.toList table) (source : String) :
    source ∈ table ↔ source ∈ sources := by
  rw [Table.mem_iff_exists_getElem?]
  simp only [h.getElem?_eq_some_iff]
  constructor
  · rintro ⟨-, hmem, -⟩
    exact hmem
  · intro hmem
    obtain ⟨bytes, hbytes, -⟩ := h.read source (Std.ExtTreeSet.mem_toList.2 hmem)
    exact ⟨_, hmem, bytes, hbytes, rfl⟩

theorem isPatch_between (h : IsDigest w.disk w.cwd sources.toList table) (previous : Table) :
    IsPatch w sources previous (between table previous) where
  changed source digest := by
    rw [getElem?_changed_between, Option.filter_eq_some_iff, h.getElem?_eq_some_iff, and_assoc,
      bne_iff_ne]
  deleted source := by rw [mem_deleted_between, h.mem_iff]
  disjoint source hchanged hdeleted := by
    obtain ⟨digest, hdigest⟩ := (Table.mem_iff_exists_getElem? _ _).1 hchanged
    rw [getElem?_changed_between, Option.filter_eq_some_iff] at hdigest
    exact ((mem_deleted_between _ _ _).1 hdeleted).2
      ((Table.mem_iff_exists_getElem? _ _).2 ⟨digest, hdigest.1⟩)
  seeds := mem_seeds _

theorem between_self (table : Table) : between table table = ⟨∅, ∅⟩ := by
  have hchanged : (between table table).changed = ∅ := by
    refine Std.ExtTreeMap.ext_getElem? fun source => ?_
    rw [getElem?_changed_between]
    cases table[source]? <;> simp
  have hdeleted : (between table table).deleted = ∅ := by
    ext source
    rw [mem_deleted_between]
    simp
  exact Changes.mk.injEq .. ▸ ⟨hchanged, hdeleted⟩

end Changes

namespace Store

/-- The store with the digests of the sources as they are now. -/
def patch (s : Store) (c : Changes) : Store := (s.deleteSources c.deleted).addSources c.changed

/-- Without the deleted sources and with the changed ones, the recorded digests are those of now. -/
theorem sources_patch_between (s : Store) (table : Table) :
    (s.patch (.between table s.sources)).sources = table := by
  refine Std.ExtTreeMap.ext_getElem? fun source => ?_
  rw [patch, getElem?_sources_addSources, getElem?_sources_deleteSources,
    Changes.getElem?_changed_between]
  have hdeleted := Changes.mem_deleted_between table s.sources source
  simp only [Table.mem_iff_exists_getElem?] at hdeleted
  cases hnow : table[source]? with
  | none =>
    cases hold : s.sources[source]? with
    | none => simp
    | some digest =>
      rw [if_pos (hdeleted.2 ⟨⟨digest, hold⟩, by simp [hnow]⟩)]
      rfl
  | some digest =>
    rw [if_neg fun hmem => (hdeleted.1 hmem).2 ⟨digest, hnow⟩]
    by_cases hold : s.sources[source]? = some digest <;> simp [hold, Option.filter_some]

end Store

namespace Changes

variable {w : World} {sources : Names} {table : Table}

theorem exists_error_of_unreadable {source : String} {fault : Fault} (previous : Table)
    (hmem : source ∈ sources) (hfault : w.disk.readFile w.cwd ⟨source⟩ = .error fault) :
    ∃ f w', (detect sources previous).on w = (.error f, w') := by
  rcases hdetect : (detect sources previous).on w with ⟨f | c, w'⟩
  · exact ⟨f, w', rfl⟩
  · obtain ⟨-, table, hdigest, -⟩ := (detect_reads sources previous).of_ok hdetect
    obtain ⟨bytes, hbytes, -⟩ := hdigest.read source (Std.ExtTreeSet.mem_toList.2 hmem)
    rw [hfault] at hbytes
    cases hbytes

/-- Detection against the digests of now finds nothing. -/
theorem detect_unchanged {later : World} (h : IsDigest w.disk w.cwd sources.toList table)
    (hsame : ∀ source ∈ sources,
      later.disk.readFile later.cwd ⟨source⟩ = w.disk.readFile w.cwd ⟨source⟩) :
    ∃ w', (detect sources table).on later = (.ok ⟨∅, ∅⟩, w') ∧ later.Quiet w' := by
  rcases hdetect : (detect sources table).on later with ⟨f | c, w'⟩
  · obtain ⟨-, source, hmem, fault, hfault, -⟩ := (detect_reads sources table).of_error hdetect
    obtain ⟨bytes, hbytes, -⟩ := h.read source hmem
    rw [hsame source (Std.ExtTreeSet.mem_toList.1 hmem), hbytes] at hfault
    cases hfault
  · obtain ⟨hquiet, table', hdigest, rfl⟩ := (detect_reads sources table).of_ok hdetect
    have hnow : IsDigest w.disk w.cwd sources.toList table' := by
      refine ⟨fun source hmem => ?_, hdigest.other⟩
      rw [← hsame source (Std.ExtTreeSet.mem_toList.1 hmem)]
      exact hdigest.read source hmem
    rw [hnow.unique h, between_self]
    exact ⟨w', rfl, hquiet⟩

/-- Detection fails exactly if a source cannot be read, and then tells which. Otherwise it finds a
patch of the recorded digests: with the patch they are the digests of the sources as they are now,
and detection from there finds nothing, as long as the sources are read as before. -/
theorem detect_patches (s : Store) (sources : Names) (w : World) :
    ((∃ f w', (detect sources s.sources).on w = (.error f, w')) ↔
      ∃ source ∈ sources, ∃ fault, w.disk.readFile w.cwd ⟨source⟩ = .error fault) ∧
    (∀ f w', (detect sources s.sources).on w = (.error f, w') → w' = w ∧
      ∃ source ∈ sources, ∃ fault, w.disk.readFile w.cwd ⟨source⟩ = .error fault ∧
        f = ⟨[.hashing ⟨source⟩], .fault fault⟩) ∧
    ∀ c w', (detect sources s.sources).on w = (.ok c, w') → w.Quiet w' ∧
      IsPatch w sources s.sources c ∧
      (∀ source digest, (s.patch c).sources[source]? = some digest ↔
        source ∈ sources ∧ HasDigest w source digest) ∧
      ∀ later : World, (∀ source ∈ sources,
          later.disk.readFile later.cwd ⟨source⟩ = w.disk.readFile w.cwd ⟨source⟩) →
        ∃ w'', (detect sources (s.patch c).sources).on later = (.ok ⟨∅, ∅⟩, w'') := by
  have hfails : ∀ f w', (detect sources s.sources).on w = (.error f, w') → w' = w ∧
      ∃ source ∈ sources, ∃ fault, w.disk.readFile w.cwd ⟨source⟩ = .error fault ∧
        f = ⟨[.hashing ⟨source⟩], .fault fault⟩ := by
    intro f w' hdetect
    obtain ⟨hworld, source, hmem, hfault⟩ := (detect_reads sources s.sources).of_error hdetect
    exact ⟨hworld, source, Std.ExtTreeSet.mem_toList.1 hmem, hfault⟩
  refine ⟨⟨?_, ?_⟩, hfails, fun c w' hdetect => ?_⟩
  · rintro ⟨f, w', hdetect⟩
    obtain ⟨-, source, hmem, fault, hfault, -⟩ := hfails f w' hdetect
    exact ⟨source, hmem, fault, hfault⟩
  · rintro ⟨source, hmem, fault, hfault⟩
    exact exists_error_of_unreadable s.sources hmem hfault
  · obtain ⟨hquiet, table, hdigest, rfl⟩ := (detect_reads sources s.sources).of_ok hdetect
    rw [Store.sources_patch_between]
    refine ⟨hquiet, isPatch_between hdigest s.sources, hdigest.getElem?_eq_some_iff, ?_⟩
    intro later hsame
    obtain ⟨w'', hagain, -⟩ := detect_unchanged hdigest hsame
    exact ⟨w'', hagain⟩

/-- A tree with one source. -/
def oneSource : World := .start ⟨[(["A.java"], .file .empty false)], by decide⟩ [] ∅

/-- A store that knows another source only. -/
def goneStore : Store := { Store.new ⟨"/store"⟩ with sources := {("/Gone.java", "00")} }

theorem detect_patches_oneSource :
    ∃ c w', (detect (.ofList ["/A.java"]) goneStore.sources).on oneSource = (.ok c, w') ∧
      "/A.java" ∈ c.changed ∧ "/Gone.java" ∈ c.deleted ∧
        ∃ w'', (detect (.ofList ["/A.java"]) (goneStore.patch c).sources).on w' =
          (.ok ⟨∅, ∅⟩, w'') := by
  obtain ⟨hfails, -, hpatch⟩ := detect_patches goneStore (.ofList ["/A.java"]) oneSource
  have hread : oneSource.disk.readFile oneSource.cwd ⟨"/A.java"⟩ = .ok .empty := by decide
  have hmem : ∀ source, source ∈ (.ofList ["/A.java"] : Names) ↔ source = "/A.java" := by
    intro source
    simp only [Std.ExtTreeSet.mem_ofList, List.contains_iff_mem, List.mem_singleton]
  rcases hdetect : (detect (.ofList ["/A.java"]) goneStore.sources).on oneSource with ⟨f | c, w'⟩
  · obtain ⟨source, hsource, fault, hfault⟩ := hfails.1 ⟨f, w', hdetect⟩
    rw [(hmem source).1 hsource, hread] at hfault
    cases hfault
  · obtain ⟨hquiet, hc, -, hagain⟩ := hpatch c w' hdetect
    refine ⟨c, w', hdetect, ?_, ?_, hagain w' fun source _ => by rw [hquiet.disk, hquiet.cwd]⟩
    · rw [Table.mem_iff_exists_getElem?]
      refine ⟨_, (hc.changed _ _).2 ⟨(hmem _).2 rfl, ⟨_, hread, rfl⟩, ?_⟩⟩
      simp [goneStore]
    · rw [hc.deleted, hmem]
      simp [goneStore]

end Changes

end Recompile
