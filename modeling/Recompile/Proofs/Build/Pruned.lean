import Recompile.Proofs.Build.Published

/-!
# Forgetting sources that are gone

Where some sources are gone and nothing has to be compiled, a build forgets their classes without
compiling anything. That is safe: nothing to compile means that no source is new or changed and that
whatever depends on a class of a source that is gone is itself such a class, so no class that stays
loses an edge.
-/

namespace Recompile.Build

open Directory Disk Staging World

attribute [local irreducible] Action.wp scratchName

variable {tools : Toolchain} {p : Places} {w w₁ w₂ : World} {o : Location} {t : Target}
  {output : Path} {store s : Store} {table : Table} {affected : Names}

/-- Pruning a store is safe: what the pruned store knows is what it knew of the sources that are left,
which are as they were. -/
structure Prunes (store : Store) (table : Table) (s : Store) : Prop where
  /-- No source is new or changed. -/
  unchanged : ∀ source digest : String, table[source]? = some digest → store.sources[source]? = some digest
  /-- What depends on a class of a source that is gone is a class of a source that is gone. -/
  closed : ∀ className source dependent : String, store.classes[className]? = some source →
    source ∈ (Changes.between table store.sources).deleted →
    Relation.ReflTransGen store.HasEdge className dependent →
    ∃ source', store.classes[dependent]? = some source' ∧
      source' ∈ (Changes.between table store.sources).deleted
  sources : s.sources = table
  classes : ∀ className source : String, s.classes[className]? = some source ↔
    store.classes[className]? = some source ∧
      source ∉ (Changes.between table store.sources).deleted
  edges : ∀ dependency dependent, s.HasEdge dependency dependent ↔
    store.HasEdge dependency dependent ∧ dependent ∈ s.classes

section Prune

variable (hempty : (plan store (.between table store.sources) affected).recompile.isEmpty)
include hempty

theorem not_mem_recompile (source : String) :
    ¬ ((source ∈ (Changes.between table store.sources).changed ∨ source ∈ affected) ∧
      source ∉ (Changes.between table store.sources).deleted) := by
  rw [← mem_recompile_plan store _ affected source]
  rw [Std.ExtTreeSet.isEmpty_iff.1 hempty]
  exact Std.ExtTreeSet.not_mem_empty

theorem eq_of_recompile_empty {source digest : String} (h : table[source]? = some digest) :
    store.sources[source]? = some digest := by
  have hmem : source ∈ table := (Table.mem_iff_exists_getElem? _ _).2 ⟨digest, h⟩
  by_contra hne
  refine not_mem_recompile hempty source ⟨.inl ?_, fun hdeleted => ?_⟩
  · rw [Table.mem_iff_exists_getElem?, Changes.getElem?_changed_between, h]
    exact ⟨digest, by simpa using hne⟩
  · exact ((Changes.mem_deleted_between _ _ _).1 hdeleted).2 hmem

variable (sound : store.dependencies.Sound)
  (haffected : store.affectedSources (Changes.between table store.sources).seeds = .ok affected)
include sound haffected

/-- Every class that is touched is a class of a source that is gone. -/
theorem deleted_of_touched {className : String}
    (h : store.Touched (Changes.between table store.sources).seeds className) :
    ∃ source, store.classes[className]? = some source ∧
      source ∈ (Changes.between table store.sources).deleted := by
  obtain ⟨affected', heq, hmem⟩ :=
    Store.affectedSources_eq_ok sound (Changes.between table store.sources).seeds
  obtain rfl : affected = affected' := Except.ok.inj (haffected.symm.trans heq)
  obtain ⟨source, hsource⟩ := (Table.mem_iff_exists_getElem? _ _).1 h.known
  refine ⟨source, hsource, ?_⟩
  by_contra hnot
  exact not_mem_recompile hempty source ⟨.inr ((hmem source).2 ⟨className, h, hsource⟩), hnot⟩

theorem prunes_of_recompile_empty (closed : store.Closed) :
    Prunes store table (strip store (plan store (.between table store.sources) affected)
      (Changes.between table store.sources).deleted) := by
  have hstale (className : String) :
      className ∈ (plan store (.between table store.sources) affected).stale ↔
        ∃ source, store.classes[className]? = some source ∧
          source ∈ (Changes.between table store.sources).deleted := by
    rw [mem_stale_plan, Std.ExtTreeSet.isEmpty_iff.1 hempty]
    simp
  have hdependents (className source dependent : String)
      (hclass : store.classes[className]? = some source)
      (hsource : source ∈ (Changes.between table store.sources).deleted)
      (hpath : Relation.ReflTransGen store.HasEdge className dependent) :
      dependent ∈ (plan store (.between table store.sources) affected).stale := by
    rw [hstale]
    refine deleted_of_touched hempty sound haffected ⟨className, source, hclass, ?_, ?_⟩
    · exact (Changes.mem_seeds _ _).2 (.inr hsource)
    · have hlive : store.HasEdge ≤ store.LiveStep := fun a b hedge => ⟨hedge, (closed a b hedge).2⟩
      exact Relation.ReflTransGen.mono hlive _ _ hpath
  refine ⟨fun _ _ h => eq_of_recompile_empty hempty h, fun className source dependent hclass hsource
    hpath => (hstale dependent).1 (hdependents className source dependent hclass hsource hpath),
    Std.ExtTreeMap.ext_getElem? fun source => ?_, fun className source => ?_,
    fun dependency dependent => ?_⟩
  · rw [strip, Store.getElem?_sources_deleteSources]
    split_ifs with hdeleted
    · have hnot := ((Changes.mem_deleted_between _ _ _).1 hdeleted).2
      rw [Std.ExtTreeMap.getElem?_eq_none hnot]
    · cases htable : table[source]? with
      | some digest => exact eq_of_recompile_empty hempty htable
      | none =>
        have hnot : source ∉ table := by
          rw [Table.mem_iff_exists_getElem?, htable]
          simp
        refine Std.ExtTreeMap.getElem?_eq_none fun hmem => hdeleted ?_
        exact (Changes.mem_deleted_between _ _ _).2 ⟨hmem, hnot⟩
  · have hstrip := store.getElem?_classes_deleteClasses
      (plan store (.between table store.sources) affected).stale className
    refine Iff.trans (iff_of_eq (congrArg (· = some source) hstrip)) ?_
    split_ifs with hmem
    · obtain ⟨source', hsource', hdeleted⟩ := (hstale className).1 hmem
      simp only [false_iff, not_and, not_not]
      intro hsource
      rw [hsource'] at hsource
      cases hsource
      exact hdeleted
    · refine ⟨fun hsource => ⟨hsource, fun hdeleted => ?_⟩, And.left⟩
      exact hmem ((hstale className).2 ⟨source, hsource, hdeleted⟩)
  · refine (Store.hasEdge_deleteClasses sound _ dependency dependent).trans ?_
    refine and_congr_right fun hedge => ?_
    refine Iff.trans ?_ (store.mem_classes_deleteClasses _ dependent).symm
    refine ⟨fun h => ⟨(closed _ _ hedge).2, h.2⟩, fun h => ⟨fun hmem => h.2 ?_, h.2⟩⟩
    -- a class that stays does not depend on a class of a source that is gone
    obtain ⟨source, hsource, hdeleted⟩ := (hstale dependency).1 hmem
    exact hdependents dependency source dependent hsource hdeleted (.single hedge)

end Prune

section Commit

/-- Saving a pruned store and deleting the files of classes loses these files and no others. -/
theorem commit_pruned {stale : Names} (laidOut : LaidOut p [] w)
    (houtside : OpensOutside p output o w) (hview : w₁.view = w.view)
    (hdirectory : s.directory = p.storeAt)
    (hproper : ∀ className ∈ stale.toList, ClassName.IsProper className) :
    (commit output (.pruned s stale)).wp w₁
      (fun outcome w' => outcome = .upToDate ∧ Lost o (· ∈ stale.toList) w.disk w'.disk)
      fun _ _ => True := by
  have hdisk : w₁.disk = w.disk := congrArg View.disk hview
  have hcwd : w₁.cwd = w.cwd := congrArg View.cwd hview
  have layout₁ : Layout w₁.disk w₁.cwd (Store.sites p.storeAt p.above p.name) := by
    rw [hdisk, hcwd]
    exact laidOut.store_layout
  have hsaving : ∀ l ∈ p.saving, Location.Apart l o := by
    simpa [Places.saving] using ⟨houtside.store.symm, houtside.beside.symm⟩
  rw [commit]
  simp only [Action.wp_bind, Action.wp_phase]
  refine (save_altered layout₁ hdirectory).mono (fun _ w₂ h₂ => ?_) fun _ _ _ => trivial
  have haltered := h₂.1.congr (quiet_traced w₂ "save").view
  generalize w₂.traced "save" = w₂ at haltered ⊢
  have hopens := houtside.saved hcwd (fun m e hm => hdisk ▸ hm)
    (fun m _ target hlink => hdisk ▸ hlink) haltered
  refine (deleteClassFiles_deleted hproper hopens).mono (fun _ w₃ h₃ => ?_) fun _ _ _ => trivial
  rw [Action.wp_print, Action.wp_pure]
  refine ⟨rfl, h₃.gone, fun names hnames => (h₃.others names hnames).trans ?_⟩
  rw [fileAt, fileAt, haltered.eq_of_apart hsaving (Location.covers_append o names), hdisk]

/-- Where nothing has to be compiled, a build makes ready the pruned store, if any sources are gone. -/
theorem prepare_pruned (c : Compared t p.storeAt w store table affected)
    (hempty : c.plan.recompile.isEmpty) :
    (prepare tools t p.storeAt).wp w
      (fun ready w' => w.Quiet w' ∧
        ((Changes.between table store.sources).deleted.isEmpty ∧ ready = .nothing ∨
          ¬ (Changes.between table store.sources).deleted.isEmpty ∧
            ready = .pruned (strip store c.plan (Changes.between table store.sources).deleted)
              c.plan.stale))
      fun _ _ => True := by
  refine prepare_wp (fun _ _ _ _ => trivial) (fun _ _ _ c' w' hquiet _ hdeleted => ?_)
    (fun _ _ _ c' w' hquiet _ hdeleted => ?_) fun _ _ _ c' w' _ hsome => ?_
  all_goals obtain ⟨rfl, rfl, rfl⟩ := c.unique c'
  · exact ⟨hquiet, .inl ⟨hdeleted, rfl⟩⟩
  · exact ⟨hquiet, .inr ⟨hdeleted, rfl⟩⟩
  · exact absurd hempty hsome

end Commit

/-- Pruning sources that are gone is safe. If nothing has to be compiled, no source is new or changed,
what depends on a class of a source that is gone is itself such a class, and the pruned store has
exactly the sources, the classes and the edges that are left. A build with that store that ends well
hands it on to be saved, and where the output path opens a directory apart from the places of the
build, exactly the files of the forgotten classes are gone from there. -/
theorem prunes_exactly :
    (∀ (store : Store) (table : Table), store.dependencies.Sound → store.Closed →
      let changes := Changes.between table store.sources
      ∃ affected, store.affectedSources changes.seeds = .ok affected ∧
        ((plan store changes affected).recompile.isEmpty →
          Prunes store table (strip store (plan store changes affected) changes.deleted))) ∧
    ∀ (tools : Toolchain) (p : Places) (o : Location) (t : Target) (w w' : World) (store : Store)
      (table : Table) (affected : Names) (outcome : Outcome), LaidOut p [] w →
      OpensOutside p t.output o w → Compared t p.storeAt w store table affected →
      HasProperClasses store → store.Closed →
      let changes := Changes.between table store.sources
      let q := plan store changes affected
      q.recompile.isEmpty → (incremental tools t p.storeAt).on w = (.ok outcome, w') →
      outcome = .upToDate ∧ Prunes store table (strip store q changes.deleted) ∧
        (∃ w₁, w.Quiet w₁ ∧ (prepare tools t p.storeAt).on w = (.ok (if changes.deleted.isEmpty
          then .nothing else .pruned (strip store q changes.deleted) q.stale), w₁)) ∧
        Lost o (fun className => ∃ source, store.classes[className]? = some source ∧
          source ∈ changes.deleted) w.disk w'.disk := by
  refine ⟨fun store table sound closed => ?_, ?_⟩
  · obtain ⟨affected, haffected, -⟩ :=
      Store.affectedSources_eq_ok sound (Changes.between table store.sources).seeds
    exact ⟨affected, haffected, fun hempty => prunes_of_recompile_empty hempty sound haffected closed⟩
  intro tools p o t w w' store table affected outcome laidOut houtside c hproper closed changes q
    hempty hrun
  have hprunes := prunes_of_recompile_empty hempty (Store.load_sound c.load) c.affected closed
  have hstale (className : String) : className ∈ q.stale.toList ↔
      ∃ source, store.classes[className]? = some source ∧ source ∈ changes.deleted := by
    rw [Std.ExtTreeSet.mem_toList, mem_stale_plan, Std.ExtTreeSet.isEmpty_iff.1 hempty]
    simp
  unfold incremental at hrun
  rw [Action.on_bind] at hrun
  rcases hon : (prepare tools t p.storeAt).on w with ⟨f | ready, w₁⟩
  · rw [hon] at hrun
    cases hrun
  rw [hon] at hrun
  dsimp only at hrun
  obtain ⟨hquiet, hready⟩ := (prepare_pruned c hempty).of_ok hon
  rcases hready with ⟨hdeleted, rfl⟩ | ⟨hdeleted, rfl⟩
  · have hcommit : (commit t.output .nothing).wp w₁
        (fun outcome w' => outcome = .upToDate ∧ w'.disk = w₁.disk) fun _ _ => True := by
      rw [commit, Action.wp_bind, Action.wp_print, Action.wp_pure]
      exact ⟨rfl, rfl⟩
    obtain ⟨houtcome, hdisk⟩ := hcommit.of_ok hrun
    rw [if_pos hdeleted]
    refine ⟨houtcome, hprunes, ⟨w₁, hquiet, rfl⟩, ?_⟩
    rw [hdisk, hquiet.disk, Std.ExtTreeSet.isEmpty_iff.1 hdeleted]
    exact ⟨by simp, fun _ _ => rfl⟩
  · have hdirectory : (strip store q changes.deleted).directory = p.storeAt := c.directory_eq
    have hproper' : ∀ className ∈ q.stale.toList, ClassName.IsProper className :=
      proper_of_stale hproper
    obtain ⟨houtcome, hlost⟩ :=
      (commit_pruned laidOut houtside hquiet.view hdirectory hproper').of_ok hrun
    rw [if_neg hdeleted]
    exact ⟨houtcome, hprunes, ⟨w₁, hquiet, rfl⟩, hlost.congr hstale⟩

/-! ## Sources that are gone -/

section Gone

/-- The source of `A` is as it was, and that of `B` is gone. -/
def goneSources : List (String × String) :=
  [("/src/A.java", "e3b0c44298fc1c149afbf4c8996fb92427ae41e4649b934ca495991b7852b855"),
    ("/src/B.java", "")]

def goneEntries (classes edges : List (String × String)) : List (Location × Entry) :=
  [(["src"], .directory), (["src", "A.java"], .file .empty false), (["tmp"], .directory),
    (["out"], .directory), (["store"], .directory),
    (["store", "classes.txt"], .file (Store.writeRows classes).toUTF8 false),
    (["store", "sources.txt"], .file (Store.writeRows goneSources).toUTF8 false),
    (["store", "deps.txt"], .file (Store.writeRows edges).toUTF8 false)]

section Load

attribute [local irreducible] Store.writeRows

theorem load_gone {classes edges : List (String × String)} {w : World}
    {more : List (Location × Entry)} {hnodup : ((goneEntries classes edges ++ more).map Prod.fst).Nodup}
    (hw : w = .start ⟨goneEntries classes edges ++ more, hnodup⟩ [] ∅)
    (hclasses : ∀ row ∈ classes, Store.ReadsBack .first row)
    (hedges : ∀ row ∈ edges, Store.ReadsBack .first row) :
    (Store.load ⟨"/store"⟩).on w =
      (.ok ⟨⟨"/store"⟩, Store.ofRows goneSources, Store.ofRows classes, Graph.ofEdges edges⟩, w) := by
  subst hw
  refine Store.on_load_of_written rfl rfl rfl ⟨hclasses, ?_, hedges⟩
  decide +kernel

end Load

def goneTarget (output : Path) : Target := ⟨output, ⟨"/src"⟩, .ofList ["/src/A.java"]⟩

/-- The class `B` refers to `A`. -/
def goneSource : World :=
  .start ⟨goneEntries [("A", "/src/A.java"), ("B", "/src/B.java")] [("A", "B")] ++
    [(["out", "A.class"], .file .empty false), (["out", "B.class"], .file .empty false)],
    by decide⟩ [] ∅

def goneStore : Store :=
  ⟨⟨"/store"⟩, Store.ofRows goneSources,
    Store.ofRows [("A", "/src/A.java"), ("B", "/src/B.java")], Graph.ofEdges [("A", "B")]⟩

def gonePlaces : Places :=
  ⟨Location.toPath ([] ++ ["store"]), Location.toPath ["tmp"], [], "store", ["tmp"]⟩

theorem gonePlaces_storeAt : gonePlaces.storeAt = ⟨"/store"⟩ := by decide

theorem load_goneSource : (Store.load ⟨"/store"⟩).on goneSource = (.ok goneStore, goneSource) :=
  load_gone rfl (by decide) (by decide)

theorem goneSource_ne_link (l : Location) (target : Path) :
    goneSource.disk.find? l ≠ some (.link target) := find?_ne_link (by decide) l target

theorem goneSource_tree : goneSource.disk.IsTree := isTree_of_isWellFormed (by decide)

theorem goneSource_laidOut : LaidOut gonePlaces [] goneSource :=
  laidOut_toPath [] goneSource_tree (fun _ _ top _ => goneSource_ne_link top) (by decide) (by simp)
    (by decide) (by decide) (by simp) (by decide)

theorem goneSource_opensOutside : OpensOutside gonePlaces ⟨"/out"⟩ ["out"] goneSource := by
  have hout : (⟨"/out"⟩ : Path) = Location.toPath ["out"] := by decide
  rw [hout]
  refine opensOutside_toPath goneSource_tree goneSource_ne_link (by decide) (by simp) ?_ ?_ ?_ <;>
    decide

instance (s : Store) : Decidable (HasProperClasses s) :=
  decidable_of_iff (∀ className ∈ s.classes.keys, ClassName.IsProper className) (by
    simp only [HasProperClasses, Std.ExtTreeMap.mem_keys])

instance (s : Store) : Decidable s.Closed :=
  decidable_of_iff (∀ e ∈ s.dependencies.edges, e.1 ∈ s.classes ∧ e.2 ∈ s.classes)
    ⟨fun h dependency dependent hedge => h (dependency, dependent) hedge, fun h e he => h e.1 e.2 he⟩

theorem hex_empty : Sha256.hex .empty =
    "e3b0c44298fc1c149afbf4c8996fb92427ae41e4649b934ca495991b7852b855" := by
  decide +kernel

/-- The digest of the source that is left. -/
def goneDigests : Table :=
  (∅ : Table).insert "/src/A.java"
    "e3b0c44298fc1c149afbf4c8996fb92427ae41e4649b934ca495991b7852b855"

/-- Comparing the sources comes to the same with the digest that is known. -/
theorem on_detect_gone {previous : Table}
    (hread : w.disk.readFile w.cwd ⟨"/src/A.java"⟩ = .ok .empty) :
    (Changes.detect (goneTarget output).sources previous).on w =
      ((fun _ => Changes.between goneDigests previous) <$>
        Changes.detect (goneTarget output).sources previous).on w := by
  have hsources : (goneTarget output).sources.toList = ["/src/A.java"] := rfl
  have hdigest : Changes.IsDigest w.disk w.cwd ["/src/A.java"] goneDigests := by
    refine ⟨fun source hsource => ?_, fun source hsource => ?_⟩
    · rw [List.mem_singleton.1 hsource]
      exact ⟨.empty, hread, by rw [goneDigests, Std.ExtTreeMap.getElem?_insert_self, hex_empty]⟩
    · have hne : ¬"/src/A.java" = source := by simpa [eq_comm] using hsource
      simp [goneDigests, hne]
  refine Action.on_eq_map ((Changes.detect_reads _ previous).mono (fun changes w₁ h => ?_)
    fun _ _ _ => trivial)
  obtain ⟨-, table, htable, rfl⟩ := h
  rw [hsources] at htable
  rw [htable.unique hdigest]

/-- A build in which the sources are compared by the digest that is known. -/
theorem on_incremental_gone (hload : (Store.load ⟨"/store"⟩).on w = (.ok store, w))
    (hread : w.disk.readFile w.cwd ⟨"/src/A.java"⟩ = .ok .empty) :
    (incremental tools (goneTarget output) ⟨"/store"⟩).on w = (do
      let changes ← Action.phase "detect" ((fun _ => Changes.between goneDigests store.sources) <$>
        Changes.detect (goneTarget output).sources store.sources)
      commit output (← prepareFor tools (goneTarget output) store changes)).on w := by
  unfold incremental
  rw [Action.on_bind_left (on_prepare_of_load hload), prepareFrom, bind_assoc]
  exact Action.on_bind_left (Action.on_phase_congr (on_detect_gone hread))

theorem goneSource_detected :
    (match (Changes.detect (goneTarget ⟨"/out"⟩).sources goneStore.sources).on goneSource with
    | (.ok changes, _) => changes.deleted.toList == ["/src/B.java"] &&
        match goneStore.affectedSources changes.seeds with
        | .ok affected => (plan goneStore changes affected).recompile.isEmpty
        | .error _ => false
    | (.error _, _) => false) = true := by
  rw [on_detect_gone rfl]
  decide +kernel

theorem goneSource_upToDate :
    (match (incremental rejecting (goneTarget ⟨"/out"⟩) ⟨"/store"⟩).on goneSource with
    | (.ok outcome, _) => outcome == .upToDate
    | (.error _, _) => false) = true := by
  rw [on_incremental_gone load_goneSource rfl]
  decide +kernel

theorem prunes_exactly_goneSource :
    ∃ w', (incremental rejecting (goneTarget ⟨"/out"⟩) ⟨"/store"⟩).on goneSource =
        (.ok .upToDate, w') ∧
      goneSource.disk.fileAt ["out", "B.class"] = some .empty ∧
      w'.disk.fileAt ["out", "B.class"] = none ∧ ∃ table s, Prunes goneStore table s := by
  have hdetected := goneSource_detected
  rcases hdetect : (Changes.detect (goneTarget ⟨"/out"⟩).sources goneStore.sources).on goneSource
    with ⟨f | changes, w₁⟩
  · rw [hdetect] at hdetected
    cases hdetected
  have hupToDate := goneSource_upToDate
  rcases hrun : (incremental rejecting (goneTarget ⟨"/out"⟩) ⟨"/store"⟩).on goneSource with
    ⟨f | outcome, w'⟩
  · rw [hrun] at hupToDate
    cases hupToDate
  obtain ⟨table, affected, rfl, c⟩ := compared_of_detect load_goneSource hdetect
  simp only [hdetect, c.affected, Bool.and_eq_true, beq_iff_eq] at hdetected
  obtain ⟨hdeleted, hempty⟩ := hdetected
  obtain ⟨rfl, hprunes, -, hlost⟩ := prunes_exactly.2 rejecting gonePlaces ["out"]
    (goneTarget ⟨"/out"⟩) goneSource w' goneStore table affected outcome goneSource_laidOut
    goneSource_opensOutside (gonePlaces_storeAt ▸ c) (by decide) (by decide) hempty
    (gonePlaces_storeAt ▸ hrun)
  refine ⟨w', rfl, ?_, ?_, table, _, hprunes⟩
  · simp [goneSource, goneEntries, World.start, fileAt, Disk.find?, List.lookup_cons]
  · have hfile : ["out"] ++ ClassName.artifactNames "B" = ["out", "B.class"] := by decide
    rw [← hfile]
    refine hlost.gone "B" ⟨"/src/B.java", by decide, ?_⟩
    rw [← Std.ExtTreeSet.mem_toList, hdeleted]
    exact List.mem_singleton_self _

/-- The package `p` is a link to the package `q` in the output directory, where there is a file. -/
def linkedPackage : World :=
  .start ⟨goneEntries [("p.B", "/src/B.java")] [] ++
    [(["out", "p"], .link ⟨"q"⟩), (["out", "q"], .directory),
      (["out", "q", "B.class"], .file .empty false)], by decide⟩ [] ∅

/-- The output directory is inside of the store. -/
def prunedInStore : World :=
  .start ⟨goneEntries [] [] ++
    [(["store", "out"], .directory), (["store", "out", "f.txt"], .file .empty false)],
    by decide⟩ [] ∅

/-- A build finds a source gone and nothing to compile, and then a file is gone from the output
directory that is the file of none of the classes that were known. -/
def LosesOther (w : World) (output : Path) (o : Location) (names : List String) : Prop :=
  ∃ store w₁ w', (Store.load ⟨"/store"⟩).on w = (.ok store, w₁) ∧
    (HasProperClasses store ∧ store.Closed ∧ "/src/B.java" ∈ store.sources ∧
      "/src/B.java" ∉ (goneTarget output).sources ∧
      (∀ className ∈ store.classes.keys, names ≠ ClassName.artifactNames className) ∧
      (w.disk.fileAt (o ++ names)).isSome) ∧
    (incremental rejecting (goneTarget output) ⟨"/store"⟩).on w = (.ok .upToDate, w') ∧
      (w'.disk.fileAt (o ++ names)).isNone

theorem losesOther_of_load {names : List String}
    (hload : (Store.load ⟨"/store"⟩).on w = (.ok store, w))
    (hread : w.disk.readFile w.cwd ⟨"/src/A.java"⟩ = .ok .empty)
    (hknown : HasProperClasses store ∧ store.Closed ∧ "/src/B.java" ∈ store.sources ∧
      "/src/B.java" ∉ (goneTarget output).sources ∧
      (∀ className ∈ store.classes.keys, names ≠ ClassName.artifactNames className) ∧
      (w.disk.fileAt (o ++ names)).isSome)
    (hrun : (match (do
        let changes ← Action.phase "detect" ((fun _ => Changes.between goneDigests store.sources) <$>
          Changes.detect (goneTarget output).sources store.sources)
        commit output (← prepareFor rejecting (goneTarget output) store changes)).on w with
      | (.ok outcome, w') => outcome == .upToDate && (w'.disk.fileAt (o ++ names)).isNone
      | (.error _, _) => false) = true) : LosesOther w output o names := by
  rw [← on_incremental_gone hload hread] at hrun
  rcases hon : (incremental rejecting (goneTarget output) ⟨"/store"⟩).on w with ⟨f | outcome, w'⟩
  · rw [hon] at hrun
    cases hrun
  simp only [hon, Bool.and_eq_true, beq_iff_eq] at hrun
  obtain ⟨rfl, hgone⟩ := hrun
  exact ⟨store, w, w', hload, hknown, hon, hgone⟩

/-- Through a link in the output directory the file of another package is lost, and in an output
directory inside of the store any file. -/
theorem not_prunes_exactly :
    LosesOther linkedPackage ⟨"/out"⟩ ["out"] ["q", "B.class"] ∧
      LosesOther prunedInStore ⟨"/store/out"⟩ ["store", "out"] ["f.txt"] :=
  ⟨losesOther_of_load (load_gone rfl (by decide +kernel) (by decide +kernel)) rfl
      (by decide +kernel) (by decide +kernel),
    losesOther_of_load (load_gone rfl (by decide +kernel) (by decide +kernel)) rfl
      (by decide +kernel) (by decide +kernel)⟩

end Gone

end Recompile.Build
