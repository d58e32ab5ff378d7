import Recompile.Proofs.Build.Committed
import Recompile.Proofs.Build.Incremental
import Recompile.Proofs.Build.Sources
import Recompile.Proofs.Store.Patch
import Recompile.Proofs.Store.Unbroken

/-!
# Stores that are current

A store is current if its digests are those of the sources. A build that finds such a store has
nothing to do: it calls no tool and changes nothing, so that the store stays current and any number
of builds have nothing to do. A store that was saved with digests of sources is there and is loaded
with them, if what it was told has no line feeds.
-/

namespace Recompile.Build

open Directory Disk Staging World

attribute [local irreducible] Action.wp

variable {tools : Toolchain} {p : Places} {w w' : World} {t : Target} {s : Store}
  {storeRoot output sourceTree storeAt : Path}

/-- There is a store, it can be loaded, and its digests are those of the sources. -/
structure IsCurrent (storeAt : Path) (t : Target) (s : Store) (w : World) : Prop where
  isAt : Store.isAt w.disk w.cwd storeAt = true
  load : (Store.load storeAt).on w = (.ok s, w)
  digest : Changes.IsDigest w.disk w.cwd t.sources.toList s.sources

/-! ## Nothing to do -/

namespace IsCurrent

theorem of_view (h : IsCurrent storeAt t s w) (hview : w'.view = w.view) :
    IsCurrent storeAt t s w' := by
  have hdisk : w'.disk = w.disk := congrArg View.disk hview
  have hcwd : w'.cwd = w.cwd := congrArg View.cwd hview
  obtain ⟨w₁, hload⟩ := (Store.load_blind storeAt).answers hview.symm h.load
  obtain rfl := (Store.load_quiet.of_ok hload).1
  refine ⟨?_, hload, ?_⟩ <;> rw [hdisk, hcwd]
  · exact h.isAt
  · exact h.digest

/-- Nothing has changed since a current store was saved, so that nothing is to be compiled. -/
theorem compared (h : IsCurrent storeAt t s w) :
    ∃ affected, Compared t storeAt w s s.sources affected ∧
      (plan s (.between s.sources s.sources) affected).recompile.isEmpty = true := by
  obtain ⟨affected, haffected, hmem⟩ := Store.affectedSources_eq_ok (Store.load_sound h.load)
    (Changes.between s.sources s.sources).seeds
  refine ⟨affected, ⟨h.load, h.digest, haffected⟩, ?_⟩
  rw [Std.ExtTreeSet.isEmpty_iff]
  ext source
  simp only [mem_recompile_plan, hmem, Changes.between_self, Std.ExtTreeMap.not_mem_empty,
    Std.ExtTreeSet.not_mem_empty, not_false_eq_true, and_true, false_or, iff_false]
  -- no class is touched if no source has changed
  rintro ⟨className, ⟨seed, seedSource, -, hseed, -⟩, -⟩
  rw [Changes.mem_seeds] at hseed
  simp at hseed

theorem prepare_nothing (h : IsCurrent storeAt t s w) :
    (prepare tools t storeAt).wp w (fun ready w' => ready = .nothing ∧ w.Quiet w')
      fun _ _ => False := by
  obtain ⟨affected, compared, hempty⟩ := h.compared
  have hdeleted : (Changes.between s.sources s.sources).deleted.isEmpty = true := by
    simp [Changes.between_self]
  refine prepare_wp (fun _ _ _ hnot => hnot _ _ _ compared)
    (fun _ _ _ _ w' hquiet _ _ => ⟨rfl, hquiet⟩) (fun store table affected' c w' _ _ hnot => ?_)
    fun store table affected' c w' _ hnot => ?_
  · obtain ⟨rfl, rfl, -⟩ := compared.unique c
    exact absurd hdeleted hnot
  · obtain ⟨rfl, rfl, rfl⟩ := compared.unique c
    exact absurd hempty hnot

/-- A build that finds a current store has nothing to do. -/
theorem run_upToDate (h : IsCurrent (storeFor storeRoot sourceTree w.cwd) t s w)
    (hlocate : (locate output sourceTree).on w = (.ok t, w)) (hsources : t.sources.isEmpty = false) :
    ∃ w', (run tools storeRoot output sourceTree).on w = (.ok .upToDate, w') ∧ w.Quiet w' := by
  obtain ⟨w₁, hquiet, hrun⟩ := @run_eq_incremental tools w t storeRoot output sourceTree hlocate hsources h.isAt
  have hspec : (incremental tools t (storeFor storeRoot sourceTree w.cwd)).wp w₁
      (fun outcome w' => outcome = .upToDate ∧ w₁.Quiet w') fun _ _ => False := by
    unfold incremental
    rw [Action.wp_bind]
    refine (h.of_view hquiet.view).prepare_nothing.mono (fun ready w₂ h₂ => ?_) fun _ _ => id
    obtain ⟨rfl, hquiet₂⟩ := h₂
    rw [commit, Action.wp_bind, Action.wp_print, Action.wp_pure]
    exact ⟨rfl, hquiet₂.trans ⟨⟨rfl, rfl, rfl⟩, rfl⟩⟩
  rw [hrun]
  rcases hon : (incremental tools t (storeFor storeRoot sourceTree w.cwd)).on w₁ with ⟨f | outcome, w'⟩
  · exact (hspec.of_error hon).elim
  · obtain ⟨rfl, hquiet'⟩ := hspec.of_ok hon
    exact ⟨w', rfl, hquiet.trans hquiet'⟩

end IsCurrent

/-- The world after some builds, one after the other. -/
def afterBuilds (tools : Toolchain) (storeRoot output sourceTree : Path) : ℕ → World → World
  | 0, w => w
  | n + 1, w => ((run tools storeRoot output sourceTree).on
      (afterBuilds tools storeRoot output sourceTree n w)).2

/-- After any number of builds that found a current store, the next one has nothing to do either. -/
theorem IsCurrent.run_afterBuilds (h : IsCurrent (storeFor storeRoot sourceTree w.cwd) t s w)
    (hlocate : (locate output sourceTree).on w = (.ok t, w)) (hsources : t.sources.isEmpty = false)
    (n : ℕ) :
    w.Quiet (afterBuilds tools storeRoot output sourceTree n w) ∧
      ∃ w', (run tools storeRoot output sourceTree).on
        (afterBuilds tools storeRoot output sourceTree n w) = (.ok .upToDate, w') := by
  have hnext (w₁ : World) (hquiet : w.Quiet w₁) :
      ∃ w', (run tools storeRoot output sourceTree).on w₁ = (.ok .upToDate, w') ∧ w₁.Quiet w' := by
    obtain ⟨w₂, hlocate₁⟩ := (locate_blind output sourceTree).answers hquiet.view.symm hlocate
    obtain rfl := (locate_quiet.of_ok hlocate₁).1
    have hcurrent : IsCurrent (storeFor storeRoot sourceTree w₂.cwd) t s w₂ := by
      rw [hquiet.cwd]
      exact h.of_view hquiet.view
    exact hcurrent.run_upToDate hlocate₁ hsources
  induction n with
  | zero =>
    obtain ⟨w', hrun, -⟩ := hnext w (.refl w)
    exact ⟨.refl w, w', hrun⟩
  | succ n ih =>
    obtain ⟨hquiet, w₁, hrun⟩ := ih
    obtain ⟨w₂, hrun₂, hquiet₂⟩ := hnext _ hquiet
    have hafter : afterBuilds tools storeRoot output sourceTree (n + 1) w = w₂ := by
      rw [afterBuilds, hrun₂]
    rw [hafter]
    obtain ⟨w₃, hrun₃, -⟩ := hnext w₂ (hquiet.trans hquiet₂)
    exact ⟨hquiet.trans hquiet₂, w₃, hrun₃⟩

/-! ## Saved stores -/

theorem reaches_store (layout : Layout w.disk w.cwd (Store.sites p.storeAt p.above p.name)) :
    w.disk.Reaches w.cwd p.storeAt p.store := by
  have hsite : (p.storeAt, p.store) ∈ Store.sites p.storeAt p.above p.name := by
    simp [Store.sites, Places.store]
  exact layout.reaches_self hsite

namespace Filed

variable {d : Disk} {m : Location}

theorem find?_store (h : Filed IsClassPlace p s d) : d.find? p.store = some .directory := by
  obtain ⟨before, -, hholds, -, hsince⟩ := h.saved
  exact (hsince _ (.inl (Location.covers_self _))).eq_of_not_isFile hholds.directory rfl

theorem not_isClassPlace_table {table : String} (htable : table ∈ Store.tableNames) (l : Location) :
    ¬IsClassPlace (l ++ [table]) := by
  rintro ⟨k, name, heq, stem, rfl⟩
  obtain ⟨-, hlast⟩ := List.append_inj' heq rfl
  have hend := congrArg (fun s => s.toList.getLast?) (List.singleton_inj.1 hlast)
  simp only [Store.tableNames, List.mem_cons, List.not_mem_nil, or_false] at htable
  rcases htable with rfl | rfl | rfl <;> simp at hend

theorem find?_table (h : Filed IsClassPlace p s d) {table : String} {bytes : ByteArray}
    (htable : table ∈ Store.tableNames) (hbytes : s.contents table = some bytes) :
    ∃ runnable, d.find? (p.store ++ [table]) = some (.file bytes runnable) := by
  obtain ⟨before, -, hholds, -, hsince⟩ := h.saved
  obtain ⟨runnable, hfind⟩ := hholds.file table bytes hbytes
  exact ⟨runnable, (hsince _ (.inl (Location.covers_append _ _))).eq_of_not_free
    (not_isClassPlace_table htable _) hfind⟩

/-- No source is where a store was saved. -/
theorem fileAt_source (h : Filed IsClassPlace p s d) (hplace : IsSourcePlace m)
    (hm : p.store.covers m = true ∨ p.beside.covers m = true) : d.fileAt m = none := by
  obtain ⟨before, tree, hholds, hgone, hsince⟩ := h.saved
  rw [fileAt_of_drifts (hsince m hm) hplace.not_class]
  rcases hm with hm | hm
  · rw [Option.eq_none_iff_forall_ne_some]
    intro bytes hbytes
    obtain ⟨runnable, hfind⟩ := fileAt_eq_some_iff.1 hbytes
    obtain ⟨-, hentry⟩ | ⟨table, bytes', _, rfl, htable, -⟩ := hholds.eq_of_find? tree hm hfind
    · cases hentry
    · obtain ⟨k, name, heq, hname⟩ := hplace
      obtain ⟨-, hlast⟩ := List.append_inj' heq rfl
      rw [List.singleton_inj.1 hlast] at htable
      simp only [Store.contents, Store.files] at htable
      split_ifs at htable with hclasses hsources hdependencies
      · subst hclasses
        exact absurd hname (by decide)
      · subst hsources
        exact absurd hname (by decide)
      · subst hdependencies
        exact absurd hname (by decide)
  · rw [fileAt, hgone m hm]

variable (h : Filed IsClassPlace p s w.disk)
  (layout : Layout w.disk w.cwd (Store.sites p.storeAt p.above p.name))

include h layout

theorem readFile {table : String} {bytes : ByteArray} (htable : table ∈ Store.tableNames)
    (hbytes : s.contents table = some bytes) :
    w.disk.readFile w.cwd (p.storeAt.push table) = .ok bytes := by
  obtain ⟨runnable, hfind⟩ := h.find?_table htable hbytes
  have hreach := reaches_store layout
  have hpush := hreach.push (Store.isName_tableNames htable) (by simp [h.find?_store])
  rw [hpush.readFile_eq_ok_iff layout.tree (by simp [hfind])]
  exact ⟨h.checks table htable, runnable, hfind⟩

theorem isAt : Store.isAt w.disk w.cwd p.storeAt = true := by
  have hreach := reaches_store layout
  have htables : ∀ table ∈ Store.tableNames, ∃ bytes runnable,
      w.disk.find? (p.store ++ [table]) = some (.file bytes runnable) := by
    intro table htable
    have hbytes : ∃ bytes, s.contents table = some bytes := by
      simp only [Store.tableNames, List.mem_cons, List.not_mem_nil, or_false] at htable
      rcases htable with rfl | rfl | rfl <;> exact ⟨_, rfl⟩
    obtain ⟨bytes, hbytes⟩ := hbytes
    exact ⟨bytes, h.find?_table htable hbytes⟩
  have unlinked : Store.Unlinked w.disk p.store := by
    refine ⟨by simp [h.find?_store], fun table htable target hlink => ?_⟩
    obtain ⟨bytes, runnable, hfind⟩ := htables table htable
    rw [hfind] at hlink
    cases hlink
  refine (Store.isAt_iff layout.tree hreach unlinked).2 ⟨?_, fun table htable =>
    ⟨h.checks table htable, htables table htable⟩⟩
  exact hreach.isOpen.check_of_push (Store.isName_tableNames (by simp [Store.tableNames]))
    (h.checks "classes.txt" (by simp [Store.tableNames]))

/-- A store that was saved with digests of sources is there and is loaded with them, and with its
classes if these are read back. -/
theorem exists_load {d : Disk} {cwd : Location} (hs : s.Unbroken)
    (hdigest : Changes.IsDigest d cwd t.sources.toList s.sources)
    (hsources : ∀ source ∈ t.sources, Text.Unbroken source) :
    ∃ s', (Store.load p.storeAt).on w = (.ok s', w) ∧ s'.sources = s.sources ∧
      ((∀ row ∈ s.classes.toList, Store.ReadsBack .first row) → s'.classes = s.classes) :=
  hs.exists_load (Store.readsBack_of_isDigest hdigest fun source hsource =>
    hsources source (Std.ExtTreeSet.mem_toList.1 hsource)) fun _ htable _ hbytes =>
      h.readFile layout htable hbytes

/-- A store that was saved is loaded as it was, if its rows are read back. -/
theorem exists_load_agrees (readable : s.IsReadable) :
    ∃ s', (Store.load p.storeAt).on w = (.ok s', w) ∧ s.Agrees s' :=
  readable.exists_load fun _ htable _ hbytes => h.readFile layout htable hbytes

end Filed

end Recompile.Build
