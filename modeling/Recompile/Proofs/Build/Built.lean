import Recompile.Proofs.Build.Pruned
import Recompile.Proofs.Build.Told

/-!
# Stores and output directories that are built

A store and an output directory are built from sources if the store describes these and the directory
holds the class files of their classes. A build that finds them built from some sources, or that
finds no store, leaves them built from the sources that are there now, unless the compiler rejects
these. Then they stay as they were, and a build without a store leaves none.
-/

namespace Recompile

/-- No line ends in the text. -/
def Text.OneLine (text : String) : Prop := '\n' ∉ text.toList ∧ '\r' ∉ text.toList

namespace SourceLanguage

variable {g : SourceLanguage} {c : Contents} {s : Store} {corpus : Set ByteArray}

/-- The contents of the sources are known ones, no class is declared twice, and all names and the
texts of the sources can be written into the rows of a table. -/
structure WellFormed (g : SourceLanguage) (corpus : Set ByteArray) (c : Contents) : Prop where
  distinct : g.Distinct c
  names : g.ProperNames c
  classes : ∀ className, g.Declared c className →
    Text.OneLine className ∧ ¬Text.Occurs Store.arrow className
  sources : ∀ source content, c source = some content → Text.OneLine source ∧ content ∈ corpus

theorem not_return_of_oneLine {text : String} (h : Text.OneLine text) :
    text.toList.getLast? ≠ some '\r' := fun hlast => h.2 (List.mem_of_getLast? hlast)

/-- A store that describes such sources is read back as it is written. -/
theorem Describes.isReadable (h : g.Describes c s) (wf : g.WellFormed corpus c) : s.IsReadable := by
  refine ⟨fun ⟨className, source⟩ hrow => ?_, fun ⟨source, digest⟩ hrow => ?_,
    fun ⟨dependency, dependent⟩ hedge => ?_⟩
  · have hdeclares := (h.classes className source).1 (Store.mem_toList_iff.1 hrow)
    obtain ⟨hline, harrow⟩ := wf.classes className ⟨source, hdeclares⟩
    obtain ⟨content, hcontent, -⟩ := hdeclares
    have hsource := (wf.sources source content hcontent).1
    exact ⟨hline.1, hsource.1, not_return_of_oneLine hsource, harrow⟩
  · rw [Store.mem_toList_iff, h.sources, Option.map_eq_some_iff] at hrow
    obtain ⟨content, hcontent, rfl⟩ := hrow
    exact Store.readsBack_digest (wf.sources source content hcontent).1.1 content
  · obtain ⟨source, hdependent, -, hdependency⟩ := (h.edges dependency dependent).1 hedge
    obtain ⟨hline, harrow⟩ := wf.classes dependency hdependency
    have hdependent := (wf.classes dependent ⟨source, hdependent⟩).1
    exact ⟨hline.1, hdependent.1, not_return_of_oneLine hdependent, harrow⟩

theorem Describes.hasProperClasses (h : g.Describes c s) (wf : g.WellFormed corpus c) :
    Build.HasProperClasses s := fun className hmem =>
  wf.names.declared className (h.mem_classes_iff.1 hmem)

end SourceLanguage

namespace Build

open Directory Disk Staging World

attribute [local irreducible] Action.wp scratchName

/-- By which paths the builds of a source tree go, and what these reach. -/
structure Setting where
  storeRoot : Path
  output : Path
  sourceTree : Path
  places : Places
  out : Location
  tree : Location

namespace Setting

variable {σ : Setting} {g : SourceLanguage} {tools : Toolchain} {c c₀ : Contents}
  {corpus : Set ByteArray} {w w₁ w' : World} {t : Target} {s store : Store} {table : Table}
  {affected : Names}

/-- The store and the output directory are what the sources make them. -/
structure IsBuilt (σ : Setting) (g : SourceLanguage) (c : Contents) (w : World) : Prop where
  isAt : Store.isAt w.disk w.cwd σ.places.storeAt = true
  store : ∃ s, (Store.load σ.places.storeAt).on w = (.ok s, w) ∧ g.Describes c s
  classes : g.HoldsClasses c σ.out w.disk
  settled : g.Settled c

/-- If there is a store, it and the output directory are what some sources have made them. -/
def Keeps (σ : Setting) (g : SourceLanguage) (corpus : Set ByteArray) (w : World) : Prop :=
  Store.isAt w.disk w.cwd σ.places.storeAt = true → ∃ c, g.WellFormed corpus c ∧ σ.IsBuilt g c w

/-- Nothing has happened to the store, and the same files are in the output directory. -/
structure Leaves (σ : Setting) (w w' : World) : Prop extends LeavesStore σ.places.storeAt w w' where
  files : ∀ names, w'.disk.fileAt (σ.out ++ names) = w.disk.fileAt (σ.out ++ names)

theorem Leaves.of_view (hview : w'.view = w.view) : σ.Leaves w w' := by
  have hdisk : w'.disk = w.disk := congrArg View.disk hview
  exact ⟨.of_view hview, fun _ => by rw [hdisk]⟩

theorem IsBuilt.of_leaves (h : σ.IsBuilt g c w) (hleaves : σ.Leaves w w') : σ.IsBuilt g c w' := by
  obtain ⟨s, hload, describes⟩ := h.store
  refine ⟨hleaves.isAt.trans h.isAt, ⟨s, ?_, describes⟩, h.classes.congr hleaves.files, h.settled⟩
  have hsame := hleaves.load
  rw [hload] at hsame
  rcases hon : (Store.load σ.places.storeAt).on w' with ⟨f | s', w''⟩
  · rw [hon] at hsame
    cases hsame
  · rw [hon] at hsame
    cases hsame
    rw [(Store.load_quiet.of_ok hon).1]

theorem Keeps.of_leaves (h : σ.Keeps g corpus w) (hleaves : σ.Leaves w w') :
    σ.Keeps g corpus w' := by
  intro hat
  obtain ⟨c, wf, hbuilt⟩ := h (hleaves.isAt.symm.trans hat)
  exact ⟨c, wf, hbuilt.of_leaves hleaves⟩

theorem IsBuilt.hasProperClasses (h : σ.IsBuilt g c w) (wf : g.WellFormed corpus c)
    (store : Store) (w' : World) (hload : (Store.load σ.places.storeAt).on w = (.ok store, w')) :
    HasProperClasses store := by
  obtain ⟨s, hload', describes⟩ := h.store
  obtain ⟨rfl, -⟩ : s = store ∧ w = w' := by simpa using hload'.symm.trans hload
  exact describes.hasProperClasses wf

theorem IsBuilt.keeps (h : σ.IsBuilt g c w) (wf : g.WellFormed corpus c) : σ.Keeps g corpus w :=
  fun _ => ⟨c, wf, h⟩

/-- A store that describes the sources is current, whether or not a compiler accepts these. -/
theorem IsBuilt.isCurrent (h : σ.IsBuilt g c w) (are : c.AreRead w.disk w.cwd t.sources.toList) :
    ∃ s, IsCurrent σ.places.storeAt t s w := by
  obtain ⟨s, hload, describes⟩ := h.store
  refine ⟨s, h.isAt, hload, fun source hsource => ?_, fun source hsource => ?_⟩
  · obtain ⟨content, hread, hcontent⟩ := are.read source hsource
    exact ⟨content, hread, by rw [describes.sources, hcontent, Option.map_some]⟩
  · rw [describes.sources, are.other source hsource, Option.map_none]

/-- A store that was saved is loaded as what it describes. -/
theorem IsBuilt.of_filed (hfiled : Filed IsClassPlace σ.places s w.disk)
    (layout : Layout w.disk w.cwd (Store.sites σ.places.storeAt σ.places.above σ.places.name))
    (describes : g.Describes c s) (wf : g.WellFormed corpus c) (holds : g.HoldsClasses c σ.out w.disk)
    (settled : g.Settled c) : σ.IsBuilt g c w := by
  obtain ⟨s', hload, hagrees⟩ := hfiled.exists_load_agrees layout (describes.isReadable wf)
  exact ⟨hfiled.isAt layout, ⟨s', hload, describes.of_agrees hagrees⟩, holds, settled⟩

/-! ## With a store -/

section Incremental

/-- What is found changed, if no two contents have one digest. -/
theorem IsBuilt.change (hbuilt : σ.IsBuilt g c₀ w) (collisions : Set.InjOn Sha256.hex corpus)
    (wf₀ : g.WellFormed corpus c₀) (wf : g.WellFormed corpus c)
    (are : c.AreRead w.disk w.cwd t.sources.toList)
    (compared : Compared t σ.places.storeAt w store table affected) :
    g.Change c₀ c store table affected := by
  obtain ⟨s, hload, describes⟩ := hbuilt.store
  obtain rfl : s = store := by simpa using hload.symm.trans compared.load
  refine ⟨describes, Store.load_sound hload, are.getElem?_digests compared.digest,
    fun source content content' hcontent hcontent' => ?_, compared.affected⟩
  exact fun hdigest => collisions (wf₀.sources source content hcontent).2
    (wf.sources source content' hcontent').2 hdigest

variable (change : g.Change c₀ c store table affected) (hbuilt : σ.IsBuilt g c₀ w)
  (wf : g.WellFormed corpus c) (layout : Layout w'.disk w'.cwd
    (Store.sites σ.places.storeAt σ.places.above σ.places.name))

include change hbuilt wf layout

/-- Forgetting the sources that are gone leaves what is built from the others. -/
theorem IsBuilt.of_pruned {tree : Path} (hempty : change.plan.recompile.isEmpty)
    (tells : g.TellsAll c tree)
    (hfiled : Filed IsClassPlace σ.places
      (strip store change.plan (Changes.between table store.sources).deleted) w'.disk)
    (hlost : Lost σ.out (· ∈ change.plan.stale.toList) w.disk w'.disk) : σ.IsBuilt g c w' := by
  have hnone (className : String) : ¬g.Declared (c.only change.plan.recompile) className :=
    change.not_declared_only hempty
  have hpublished : PublishedFrom σ.out σ.out (· ∈ change.plan.stale)
      (g.Declared (c.only change.plan.recompile)) w.disk w'.disk := by
    refine ⟨fun className hclass => absurd hclass (hnone className),
      fun className hstale _ => hlost.gone className (Std.ExtTreeSet.mem_toList.2 hstale),
      fun names hnames => hlost.others names fun className hstale => ?_⟩
    exact hnames className (.inl (Std.ExtTreeSet.mem_toList.1 hstale))
  refine .of_filed hfiled layout
    (change.describes_strip hempty hbuilt.settled wf.distinct tells) wf
    (change.holdsClasses_published wf.distinct hbuilt.classes
      (fun source content className hcontent hmem => ?_) hpublished)
    (change.settled_of_accepts hbuilt.settled fun source hmem =>
      absurd hmem (change.not_mem_recompile hempty source))
  exact absurd ⟨source, content, hcontent, hmem⟩ (hnone className)

/-- Publishing what was compiled leaves what is built from all sources. -/
theorem IsBuilt.of_compiled {tree : Path} {facts : List ClassFact} {b : Location}
    (tells : g.TellsAll c tree)
    (haccepts : ∀ source ∈ change.plan.recompile, g.Accepts c source)
    (hfacts : ∀ fact, fact ∈ facts ↔ g.IsFact (c.only change.plan.recompile) fact)
    (hfiled : Filed IsClassPlace σ.places
      (updated store change.plan (.between table store.sources) tree facts) w'.disk)
    (hbefore : g.HoldsClasses c₀ σ.out w₁.disk)
    (hcompiled : g.HoldsClasses (c.only change.plan.recompile) b w₁.disk)
    (hpublished : PublishedFrom b σ.out (· ∈ change.plan.stale.toList)
      (· ∈ facts.map ClassFact.className) w₁.disk w'.disk) : σ.IsBuilt g c w' := by
  have hproduced (className : String) : className ∈ facts.map ClassFact.className ↔
      g.Declared (c.only change.plan.recompile) className :=
    SourceLanguage.mem_map_className_iff (tells.only _) hfacts
  refine .of_filed hfiled layout
    (change.describes_updated hbuilt.settled wf.distinct tells hfacts haccepts) wf
    (change.holdsClasses_published wf.distinct hbefore (fun source content className hcontent hmem => ?_)
      (hpublished.congr (fun _ => Std.ExtTreeSet.mem_toList) hproduced))
    (change.settled_of_accepts hbuilt.settled haccepts)
  exact (hcompiled _ _).2 ⟨source, content, className, hcontent, hmem, rfl, rfl⟩

end Incremental

/-- What a build with a store comes to: it is rejected, or store and output directory are built from
the sources. -/
def Rebuilds (σ : Setting) (g : SourceLanguage) (c : Contents) (w : World) (outcome : Outcome)
    (w' : World) : Prop :=
  outcome = .compileFailed ∧ (¬∀ source, g.Accepts c source) ∧ w'.view = w.view ∨
    (outcome = .upToDate ∨ ∃ n, outcome = .compiled n) ∧ σ.IsBuilt g c w'

theorem prepared_rebuilds (speaks : tools.Speaks g) (collisions : Set.InjOn Sha256.hex corpus)
    (laidOut : LaidOut σ.places [] w) (outside : OpensOutside σ.places t.output σ.out w)
    (plain : w.disk.PlainClasses) (hbuilt : σ.IsBuilt g c₀ w) (wf₀ : g.WellFormed corpus c₀)
    (wf : g.WellFormed corpus c) (are : c.AreRead w.disk w.cwd t.sources.toList)
    (tells : g.TellsAll c t.sourceTree) :
    (prepare tools t σ.places.storeAt).wp w
      (fun ready w₁ => (commit t.output ready).wp w₁ (σ.Rebuilds g c w) fun _ _ => True)
      fun _ _ => True := by
  have hchange (store : Store) (table : Table) (affected : Names)
      (compared : Compared t σ.places.storeAt w store table affected) :
      g.Change c₀ c store table affected := hbuilt.change collisions wf₀ wf are compared
  have hproper := hbuilt.hasProperClasses wf₀
  refine ((prepare_told speaks laidOut.tree hchange wf₀.names are wf.distinct wf.names).and
    ((prepare_underway (fun _ => id) speaks.drifts laidOut plain).and
      ((prepare_prepared speaks.staysInside laidOut.tree rfl hproper).and prepare_reported))).mono
    (fun ready w₁ h₁ => ?_) fun _ _ _ => trivial
  obtain ⟨⟨store, table, affected, compared, told⟩, underway, prepared, store', table', affected',
    compared', readied⟩ := h₁
  obtain ⟨rfl, rfl, rfl⟩ := compared.unique compared'
  have change := hchange store table affected compared
  have proper := hproper store w compared.load
  have hcommitted := @commit_committed IsClassPlace σ.places w w₁ t.output (fun _ => id) ready laidOut
    plain underway fun s hs => (readied.directory_eq hs).trans compared.directory_eq
  have hlayout {outcome : Outcome} {w' : World}
      (h : Committed IsClassPlace σ.places w ready outcome w') :
      Layout w'.disk w'.cwd (Store.sites σ.places.storeAt σ.places.above σ.places.name) :=
    h.drifted.layout laidOut.store_layout
      (by simp [Store.sites, Places.saving, Places.store, Places.beside])
  cases ready with
  | nothing =>
    obtain ⟨hempty, hdeleted⟩ := readied
    obtain rfl : c = c₀ := change.eq_of_nothing hempty hdeleted
    refine (hcommitted.and commit_nothing).mono (fun outcome w' h => ?_) fun _ _ _ => trivial
    exact .inr ⟨.inl h.1.outcome, hbuilt.of_leaves (.of_view (h.2.trans underway))⟩
  | rejected =>
    refine (Action.wp_pure _).2 (.inl ⟨rfl, fun hall => told ?_, prepared⟩)
    exact change.accepts_only_iff.2 fun source _ => hall source
  | pruned s stale =>
    obtain ⟨hempty, rfl, rfl⟩ := readied
    refine (hcommitted.and (commit_pruned laidOut outside underway compared.directory_eq
      (proper_of_stale proper))).mono (fun outcome w' h => ?_) fun _ _ _ => trivial
    exact .inr ⟨.inl h.1.outcome, hbuilt.of_pruned change wf (hlayout h.1) hempty tells
      (h.1.filed _ rfl) h.2.2⟩
  | compiled ws s stale produced count =>
    obtain ⟨haccepted, rfl, ⟨facts, hfacts, rfl, rfl⟩, b, hresolve, hcompiled⟩ := told
    obtain ⟨a, b', placed, hstands⟩ := prepared
    obtain rfl : b' = b :=
      Except.ok.inj ((hstands.resolve_destination placed).symm.trans hresolve)
    have hbefore : g.HoldsClasses c₀ σ.out w₁.disk :=
      hbuilt.classes.congr (outside.fileAt_of_stands laidOut placed hstands)
    have hproduced : ∀ fact ∈ facts, ClassName.IsProper fact.className := fun fact hfact =>
      (wf.names.only _).declared fact.className
        ((SourceLanguage.mem_map_className_iff (tells.only _) hfacts).1 (List.mem_map_of_mem hfact))
    have hdirectory : (updated store compared.plan (.between table store.sources) t.sourceTree
        facts).directory = σ.places.storeAt := compared.directory_eq
    refine (hcommitted.and (commit_published laidOut outside placed hstands hdirectory
      (proper_of_stale proper) (proper_of_produced hproduced))).mono (fun outcome w' h => ?_)
      fun _ _ _ => trivial
    exact .inr ⟨.inr ⟨count, h.1.outcome⟩, hbuilt.of_compiled change wf (hlayout h.1) tells
      (change.accepts_only_iff.1 haccepted) hfacts (h.1.filed _ rfl) hbefore hcompiled
      (h.2.congr (fun _ => .rfl) fun _ => mem_produced)⟩

/-! ## Without a store -/

/-- Emptying an output directory apart from the source tree leaves the sources as they were. -/
theorem areRead_of_emptied {q : Path} {l out : Location} (tree : w.disk.IsTree)
    (hleads : Leads (w.disk.eraseAll [out]) w.cwd q l) (hapart : Location.Apart l out)
    (hmem : ∀ source, source ∈ t.sources ↔
      ∃ file : Path, Finds w.disk l q "java" [] file ∧ file.text = source)
    (are : c.AreRead w.disk w.cwd t.sources.toList) (h : Emptied out w w₁) :
    c.AreRead w₁.disk w₁.cwd t.sources.toList := by
  have unchanged : w.Drifted IsClassPlace [out] w := .refl tree
  have drifted : w.Drifted IsClassPlace [out] w₁ :=
    .of_altered (.of_touched h.toTouched (List.mem_singleton_self out))
  have same : SameSources l w.disk w₁.disk := drifted.sameSources fun k hk m hcovers hm _ => by
    rw [List.mem_singleton.1 hk, hapart.not_covers hm] at hcovers
    cases hcovers
  refine ⟨fun source hsource => ?_, are.other⟩
  obtain ⟨content, hread, hcontent⟩ := are.read source hsource
  obtain ⟨file, hfile, rfl⟩ := (hmem source).1 (Std.ExtTreeSet.mem_toList.1 hsource)
  exact ⟨content, same.readFile tree drifted.tree (unchanged.leads hleads) (drifted.leads hleads) hfile
    hread, hcontent⟩

/-- A build without a store builds what the compiler accepts, and otherwise leaves no store. -/
theorem full_builds (speaks : tools.Speaks g)
    (layout : Layout w.disk w.cwd
      (Store.sites σ.places.storeAt σ.places.above σ.places.name ++ [(t.output, σ.out)]))
    (hlink : ∀ target, w.disk.find? σ.out ≠ some (.link target))
    (unlinked : Store.Unlinked w.disk σ.places.store) (plain : w.disk.PlainClasses)
    (hnot : Store.isAt w.disk w.cwd σ.places.storeAt = false)
    (hare : ∀ w₁, Emptied σ.out w w₁ → c.AreRead w₁.disk w₁.cwd t.sources.toList)
    (wf : g.WellFormed corpus c) (tells : g.TellsAll c t.sourceTree) :
    (full tools t σ.places.storeAt).wp w
      (fun outcome w' =>
        outcome = .compileFailed ∧ (¬∀ source, g.Accepts c source) ∧
            Store.isAt w'.disk w'.cwd σ.places.storeAt = false ∨
          (∃ n, outcome = .compiled n) ∧ (∀ source, g.Accepts c source) ∧ σ.IsBuilt g c w')
      fun _ _ => True := by
  have drifts : tools.Drifts IsClassPlace fun _ => False := speaks.drifts
  refine ((full_told speaks layout wf.names hlink plain hare wf.distinct).and
    (full_completed drifts (reports_anything tools) layout hlink plain)).mono
    (fun outcome w' h => ?_) fun _ _ _ => trivial
  obtain ⟨⟨hfailed, hrejects, htouched⟩ |
    ⟨hcompiled, haccepts, holds, table, facts, hdigests, hfacts, hfiled⟩, completed⟩ := h
  · exact .inl ⟨hfailed, hrejects, (isAt_of_touched layout unlinked htouched).trans hnot⟩
  · have layout' := (completed.drifted.layout layout
      (by simp [Store.sites, Places.saving, Places.store, Places.beside])).sublist
        (List.sublist_append_left _ _)
    exact .inr ⟨hcompiled, haccepts, .of_filed hfiled layout'
      (SourceLanguage.describes_begun wf.distinct tells hfacts hdigests) wf holds
      (SourceLanguage.settled_of_accepts haccepts)⟩

end Setting

end Build

end Recompile
