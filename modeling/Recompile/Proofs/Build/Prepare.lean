import Recompile.Proofs.Build.Calls
import Recompile.Proofs.Build.Survey
import Recompile.Proofs.Replay
import Recompile.Proofs.Staging
import Recompile.Proofs.Store.RoundTrip

/-!
# Builds before the point of no return

Up to the point where a build with a store saves, it changes the disk only in its workspace. If it
fails before, or if the compiler rejects the sources, the disk is again what it was.
-/

namespace Recompile

namespace Store

variable {w : World} {directory : Path}

attribute [local irreducible] Action.wp

theorem readTable_quiet (table : Path) (cut : Cut) :
    (readTable table cut).wp w (fun _ w' => w' = w) fun _ w' => w' = w := by
  unfold readTable Action.readText Action.readBytes
  simp only [Action.wp_bind, Action.wp_within, Action.wp_query]
  cases w.disk.readFile w.cwd table with
  | error fault => trivial
  | ok bytes =>
    dsimp only
    cases Text.decode bytes with
    | error cause => exact (Action.wp_failed _).2 rfl
    | ok text =>
      rw [Action.wp_pure]
      split
      · exact (Action.wp_pure _).2 rfl
      · exact (Action.wp_failed _).2 rfl

theorem load_quiet :
    (load directory).wp w (fun s w' => w' = w ∧ s.directory = directory) fun _ w' => w' = w := by
  unfold load
  simp only [Action.wp_bind]
  refine (readTable_quiet _ _).mono (fun classes w₁ h₁ => ?_) fun _ _ => id
  subst h₁
  refine (readTable_quiet _ _).mono (fun sources w₂ h₂ => ?_) fun _ _ => id
  subst h₂
  refine (readTable_quiet _ _).mono (fun edges w₃ h₃ => ?_) fun _ _ => id
  exact (Action.wp_pure _).2 ⟨h₃, rfl⟩

end Store

namespace Build

open Staging World

attribute [local irreducible] Action.wp

variable {tools : Toolchain} {w w₁ : World} {t : Target} {storeRoot output sourceTree storeAt : Path}
  {ws : Workspace} {a b : Location}

/-- What is ready, and what stands on the disk for it. -/
def Prepared (w : World) : Ready → World → Prop
  | .compiled ws _ _ _ _, w' => ∃ a b, Placed w ws a b ∧ Stands w a b w'
  | _, w' => w'.view = w.view

theorem compileIn_prepared (inside : tools.StaysInside) (placed : Placed w ws a b)
    (hstands : Stands w a b w₁) (store : Store) (changes : Changes) (p : Plan) :
    (compileIn tools ws store changes p sourceTree).wp w₁ (Prepared w)
      fun _ => Stands w a b := by
  unfold compileIn
  rw [Action.wp_bind]
  refine (compile_bounded inside p.recompile.toList ws.classpath (hstands.resolve_destination placed)
    hstands.destination).mono (fun accepted w₂ h₂ => ?_) fun _ w₂ h₂ => hstands.of_bounded placed h₂
  have hstands₂ := hstands.of_bounded placed h₂
  cases accepted with
  | false =>
    rw [if_neg Bool.false_ne_true, Action.wp_bind]
    exact (discard_restores placed hstands₂).mono (fun _ _ h => (Action.wp_pure _).2 h)
      fun _ _ => False.elim
  | true =>
    have hplace (x : Location) (hx : w₂.disk.resolve w₂.cwd true ws.destination = .ok x) : x = b :=
      Except.ok.inj (hx.symm.trans (hstands₂.resolve_destination placed))
    rw [if_pos rfl, Action.wp_bind]
    refine (recordClasses_bounded inside _ sourceTree changes.changed hstands₂.tree hplace).mono
      (fun recorded w₃ h₃ => ?_) fun _ w₃ h₃ => hstands₂.of_bounded placed h₃
    exact (Action.wp_pure _).2 ⟨a, b, placed, hstands₂.of_bounded placed h₃.1⟩

/-- Compiling in a workspace with the class files of some classes. -/
theorem compileStaged_prepared (inside : tools.StaysInside) (tree : w.disk.IsTree)
    (hview : w₁.view = w.view) (classes : List String)
    (hproper : ∀ className ∈ classes, ClassName.IsProper className) (store : Store)
    (changes : Changes) (p : Plan) :
    (do
      let ws ← Action.phase "stage" (Workspace.stage output classes)
      Action.undoing ws.discard (compileIn tools ws store changes p sourceTree)).wp w₁ (Prepared w)
      fun _ w' => w'.view = w.view := by
  have tree₁ : w₁.disk.IsTree := by
    rw [World.view, World.view, View.mk.injEq] at hview
    rw [hview.1]
    exact tree
  rw [Action.wp_bind, Action.wp_phase]
  refine (stage_stands tree₁ output classes hproper).mono (fun ws w₂ h₂ => ?_)
    fun _ _ h => h.trans hview
  obtain ⟨a, b, placed, hstands⟩ := h₂
  have placed₀ := placed.of_view hview
  have hstands₀ : Stands w a b (w₂.traced "stage") := (hstands.of_view hview).congr rfl
  rw [Action.wp_undoing]
  refine (compileIn_prepared inside placed₀ hstands₀ store changes p).mono (fun _ _ => id) fun _ w₃ h₃ => ?_
  exact (discard_restores placed₀ h₃).mono (fun _ _ => id) fun _ _ => False.elim

/-- Every class that a store knows has a proper name. -/
def HasProperClasses (store : Store) : Prop :=
  ∀ className ∈ store.classes, ClassName.IsProper className

theorem prepare_prepared (inside : tools.StaysInside) (tree : w.disk.IsTree)
    (hview : w₁.view = w.view)
    (hproper : ∀ store w', (Store.load storeAt).on w = (.ok store, w') → HasProperClasses store) :
    (prepare tools t storeAt).wp w₁ (Prepared w) fun _ w' => w'.view = w.view := by
  have hsame := (Store.load_blind storeAt).same w₁ w hview
  unfold prepare
  rw [Action.wp_bind]
  rcases hload : (Store.load storeAt).on w₁ with ⟨f | store, w₂⟩
  · rw [Action.wp_of_error hload, Store.load_quiet.of_error hload]
    exact hview
  obtain ⟨rfl, -⟩ := Store.load_quiet.of_ok hload
  have hclasses : HasProperClasses store := by
    rw [hload] at hsame
    rcases hon : (Store.load storeAt).on w with ⟨result, w'⟩
    rw [hon] at hsame
    exact hproper store w' (hon.trans (Prod.ext hsame.1.symm rfl))
  rw [Action.wp_of_ok hload, Action.wp_bind, Action.wp_phase]
  refine (Changes.detect_reads t.sources store.sources).mono (fun changes w₃ h₃ => ?_)
    fun _ w₃ h₃ => by rw [h₃.1]; exact hview
  have hview₃ : (w₃.traced "detect").view = w.view := h₃.1.view.trans hview
  generalize w₃.traced "detect" = w₃ at hview₃
  simp only [Action.wp_bind, Action.wp_phase, Action.wp_logAll, Action.wp_ofExcept]
  cases store.affectedSources changes.seeds with
  | error f => exact hview₃
  | ok affected =>
    dsimp only
    split_ifs with hempty hdeleted
    · exact (Action.wp_pure _).2 hview₃
    · rw [log, Action.wp_bind, Action.wp_log]
      exact (Action.wp_pure _).2 hview₃
    · rw [Action.wp_bind, Action.wp_print]
      refine compileStaged_prepared inside tree ?_ _ (fun className hmem => ?_) store changes _
      · exact hview₃
      · exact hclasses className (Std.ExtTreeMap.mem_keys.1 (List.mem_of_mem_filter hmem))

/-- With a store, nothing has changed when a build knows what to do but what is ready for it. -/
def Surveyed (w : World) : Job → World → Prop
  | .incremental _ ready, w' => Prepared w ready w'
  | _, w' => w'.view = w.view

theorem survey_surveyed (inside : tools.StaysInside) (tree : w.disk.IsTree)
    (hproper : ∀ store w', (Store.load (storeFor storeRoot sourceTree w.cwd)).on w = (.ok store, w') →
      HasProperClasses store) :
    (survey tools storeRoot output sourceTree).wp w (Surveyed w) fun _ w' => w'.view = w.view := by
  unfold survey
  rw [Action.wp_bind]
  refine (locate_quiet (w := w)).mono (fun t w₁ h₁ => ?_) fun _ w₁ h => by rw [h]
  obtain ⟨rfl, -, htree⟩ := h₁
  have hstore : Store.directoryOf storeRoot t.sourceTree =
      storeFor storeRoot sourceTree w₁.cwd := by rw [htree, storeFor]
  split_ifs with hempty
  · exact (Action.wp_pure _).2 rfl
  simp only [log, Action.wp_bind, Action.wp_log, Action.wp_get, hstore]
  split_ifs with hat
  · rw [Action.wp_bind]
    refine (prepare_prepared inside tree ?_ hproper).mono (fun ready w₂ h₂ => ?_) fun _ _ => id
    · rfl
    · exact (Action.wp_pure _).2 h₂
  · exact (Action.wp_pure _).2 rfl

/-- A commit that says that the compiler failed has nothing to commit. -/
theorem commit_compileFailed (ready : Ready) :
    (commit output ready).wp w (fun outcome w' => outcome = .compileFailed →
      ready = .rejected ∧ w' = w) fun _ _ => True := by
  cases ready with
  | nothing =>
    unfold commit
    rw [Action.wp_bind]
    exact Action.wp_of_forall (fun _ _ => (Action.wp_pure _).2 (by simp)) fun _ _ => trivial
  | pruned store stale =>
    unfold commit
    simp only [Action.wp_bind]
    refine Action.wp_of_forall (fun _ w₁ => ?_) fun _ _ => trivial
    refine Action.wp_of_forall (fun _ w₂ => ?_) fun _ _ => trivial
    exact Action.wp_of_forall (fun _ _ => (Action.wp_pure _).2 (by simp)) fun _ _ => trivial
  | rejected => exact (Action.wp_pure _).2 fun _ => ⟨rfl, rfl⟩
  | compiled ws store stale produced count =>
    have hdiscard (f : Failure) (w₁ : World) :
        ws.discard.wp w₁ (fun _ _ => True) fun _ _ => True :=
      Action.wp_of_forall (fun _ _ => trivial) fun _ _ => trivial
    unfold commit
    rw [Action.wp_finishing, Action.wp_bind]
    refine Action.wp_of_forall (fun _ w₁ => ?_) hdiscard
    rw [Action.wp_bind]
    refine Action.wp_of_forall (fun _ w₂ => ?_) hdiscard
    rw [log, Action.wp_bind, Action.wp_log, Action.wp_pure]
    exact Action.wp_of_forall (fun _ _ => by simp) fun _ _ => trivial

/-! ## What a build does with what it finds

Once the store is known, a build on a given world goes on without the digest in its name and without
reading its tables.
-/

theorem exists_on_log (level : Log.Level) (message : String) :
    ∃ w', (log level message).on w = (.ok (), w') ∧ w.Quiet w' :=
  ⟨_, rfl, ⟨rfl, rfl, rfl⟩, rfl⟩

/-- A build that finds sources looks for the store. -/
theorem on_run_of_locate (hlocate : (locate output sourceTree).on w = (.ok t, w))
    (hsources : t.sources.isEmpty = false)
    (hstore : storeFor storeRoot sourceTree w.cwd = storeAt) :
    (run tools storeRoot output sourceTree).on w = (do
      log .debug "all sources"
      if Store.isAt w.disk w.cwd storeAt then commit t.output (← prepare tools t storeAt)
      else carryOut tools (.full t storeAt)).on w := by
  obtain ⟨-, -, htree⟩ := locate_quiet.of_ok hlocate
  have hplace : Store.directoryOf storeRoot t.sourceTree = storeAt := by rw [htree, ← hstore, storeFor]
  obtain ⟨w₁, hlog, hquiet⟩ := @exists_on_log w .debug "all sources"
  have hget : (get : Action World).on w₁ = (.ok w₁, w₁) := rfl
  unfold run survey
  simp only [bind_assoc, Action.on_bind (locate output sourceTree), hlocate, hsources,
    Bool.false_eq_true, if_false, Action.on_bind (log .debug "all sources"), hlog, hplace]
  rw [Action.on_bind, hget]
  dsimp only
  rw [hquiet.disk, hquiet.cwd]
  split_ifs
  · rw [bind_assoc]
    rfl
  · rfl

/-- What a build makes ready from the store that it has loaded when it knows what has changed. -/
def prepareFor (tools : Toolchain) (t : Target) (store : Store) (changes : Changes) :
    Action Ready := do
  let affected ← Action.phase "closure" do
    Action.logAll (store.affectedLog changes.seeds)
    Action.ofExcept (store.affectedSources changes.seeds)
  let p := plan store changes affected
  if p.recompile.isEmpty then
    if changes.deleted.isEmpty then return .nothing
    else
      log .debug "pruning deleted sources"
      return .pruned (strip store p changes.deleted) p.stale
  else
    Action.print ("Sources to compile:\n" ++ "\n".intercalate p.recompile.toList ++ "\n")
    let w ← Action.phase "stage" (Workspace.stage t.output (unaffected store p))
    Action.undoing w.discard (compileIn tools w store changes p t.sourceTree)

/-- What a build makes ready from the store that it has loaded. -/
def prepareFrom (tools : Toolchain) (t : Target) (store : Store) : Action Ready := do
  prepareFor tools t store (← Action.phase "detect" (Changes.detect t.sources store.sources))

theorem on_prepare_of_load {store : Store} (hload : (Store.load storeAt).on w = (.ok store, w)) :
    (prepare tools t storeAt).on w = (prepareFrom tools t store).on w := by
  rw [prepare, Action.on_bind, hload]
  rfl

/-- A build that finds the store at a place, if there is one. -/
def runFrom (tools : Toolchain) (storeAt output sourceTree : Path) (found : Option Store) :
    Action Outcome := do
  let t ← locate output sourceTree
  if t.sources.isEmpty then carryOut tools .empty
  else
    log .debug "all sources"
    match found with
    | none => carryOut tools (.full t storeAt)
    | some store => commit t.output (← prepareFrom tools t store)

theorem on_run_eq_runFrom {found : Option Store}
    (hstore : storeFor storeRoot sourceTree w.cwd = storeAt)
    (hat : Store.isAt w.disk w.cwd storeAt = found.isSome)
    (hload : ∀ store ∈ found, (Store.load storeAt).on w = (.ok store, w)) :
    (run tools storeRoot output sourceTree).on w =
      (runFrom tools storeAt output sourceTree found).on w := by
  rw [runFrom, Action.on_bind]
  rcases hlocate : (locate output sourceTree).on w with ⟨f | t, w₁⟩
  · rw [run, Action.on_bind, survey, Action.on_bind, hlocate]
  obtain ⟨rfl, -⟩ := locate_quiet.of_ok hlocate
  dsimp only
  split_ifs with hsources
  · rw [run, Action.on_bind, survey, Action.on_bind, hlocate]
    dsimp only
    rw [if_pos hsources]
    rfl
  rw [on_run_of_locate hlocate (by simpa using hsources) hstore, hat]
  obtain ⟨w₂, hlog, hquiet⟩ := @exists_on_log w₁ .debug "all sources"
  simp only [Action.on_bind (log .debug "all sources"), hlog]
  cases found with
  | none => rfl
  | some store =>
    obtain ⟨_, hload₂⟩ := (Store.load_blind storeAt).answers hquiet.view.symm (hload store rfl)
    obtain ⟨rfl, -⟩ := Store.load_quiet.of_ok hload₂
    rw [Option.isSome_some, if_pos rfl, Action.on_bind, on_prepare_of_load hload₂, Action.on_bind]

/-- A build that finds no store. -/
theorem on_run_of_not_isAt (hstore : storeFor storeRoot sourceTree w.cwd = storeAt)
    (hat : Store.isAt w.disk w.cwd storeAt = false) :
    (run tools storeRoot output sourceTree).on w =
      (runFrom tools storeAt output sourceTree none).on w :=
  on_run_eq_runFrom hstore hat (by simp)

/-- A build with a store that is rejected by the compiler, or fails before it saves, leaves the disk
as it was. If it has called a tool, it has called the compiler first, and on the same disk the build
calls the compiler in the same way again. -/
theorem run_rejected_or_failed {result : Except Failure Outcome} {w' : World}
    (inside : tools.StaysInside) (record : tools.KeepsRecord) (tree : w.disk.IsTree)
    (hat : Store.isAt w.disk w.cwd (storeFor storeRoot sourceTree w.cwd) = true)
    (hproper : ∀ store w', (Store.load (storeFor storeRoot sourceTree w.cwd)).on w =
      (.ok store, w') → HasProperClasses store)
    (hrun : (run tools storeRoot output sourceTree).on w = (result, w'))
    (hfailed : result = .ok .compileFailed ∨
      ∃ f w₁, (survey tools storeRoot output sourceTree).on w = (.error f, w₁)) :
    w'.view = w.view ∧ (w'.calls = w.calls ∨
      ∃ sources classpath destination before,
        w.calls ++ [.compile sources classpath destination before] <+: w'.calls ∧
        ∀ w₂, w₂.view = w'.view → w₂.calls ++ [.compile sources classpath destination before] <+:
          ((run tools storeRoot output sourceTree).on w₂).2.calls) := by
  have hsurvey := @survey_surveyed tools w storeRoot output sourceTree inside tree hproper
  have hview : w'.view = w.view := by
    unfold run at hrun
    rw [Action.on_bind] at hrun
    rcases hon : (survey tools storeRoot output sourceTree).on w with ⟨f | job, w₁⟩
    · rw [hon] at hrun
      cases hrun
      exact hsurvey.of_error hon
    · rw [hon] at hrun hfailed
      have hresult : result = .ok .compileFailed := hfailed.resolve_right (by simp)
      subst hresult
      have hsurveyed := hsurvey.of_ok hon
      have hfits := survey_fits.of_ok hon
      cases job with
      | empty => cases hrun
      | full t storeAt =>
        obtain ⟨-, -, hstore, hnot⟩ := hfits
        rw [← hstore, hnot] at hat
        cases hat
      | incremental output ready =>
        obtain ⟨rfl, rfl⟩ := (commit_compileFailed ready).of_ok hrun rfl
        exact hsurveyed
  refine ⟨hview, ?_⟩
  have hreplays := run_replays record storeRoot output sourceTree
  have hcalls := hreplays.calls_eq_or w
  rw [hrun] at hcalls
  rcases hcalls with hnone | ⟨call, hfirst, hcall⟩
  · exact .inl hnone
  · cases call with
    | examine => exact hfirst.elim
    | compile sources classpath destination before =>
      refine .inr ⟨sources, classpath, destination, before, hcall, fun w₂ h₂ => ?_⟩
      exact hreplays.again (hview.symm.trans h₂.symm) (by rw [hrun]; exact hcall)

/-! ## A store in which nothing is recorded -/

/-- The key of the source tree `/src`. -/
def sourceKey : String :=
  ".incjc-meta-56c9e1c4b5360a5b089004396ed37fe3a20f7c4f5954072098039789ba3ab68a"

theorem key_eq_sourceKey : Store.key ⟨"/src"⟩ = sourceKey := by
  decide +kernel

theorem isName_sourceKey : Path.IsName sourceKey := key_eq_sourceKey ▸ Store.isName_key ⟨"/src"⟩

/-- The place of the store of `/src` below `/meta`. -/
def sourceStore : Path :=
  ⟨"/meta/.incjc-meta-56c9e1c4b5360a5b089004396ed37fe3a20f7c4f5954072098039789ba3ab68a"⟩

theorem push_sourceKey : Path.push ⟨"/meta"⟩ sourceKey = sourceStore := by
  decide

theorem storeFor_source (storeRoot : Path) :
    storeFor storeRoot ⟨"/src"⟩ [] = storeRoot.push sourceKey := by
  have habsolute : Path.absolute ⟨"/src"⟩ [] = ⟨"/src"⟩ := by decide
  rw [storeFor, habsolute, Store.directoryOf, key_eq_sourceKey]

theorem isProper_sourceStore : Location.IsProper (["meta"] ++ [sourceKey]) := by
  simpa [Location.IsProper] using ⟨by decide, isName_sourceKey⟩

theorem toPath_sourceStore : Location.toPath (["meta"] ++ [sourceKey]) = sourceStore := by
  have hmeta : Location.toPath ["meta"] = ⟨"/meta"⟩ := by decide
  rw [Location.toPath_push (by simp) isProper_sourceStore, hmeta, push_sourceKey]

theorem sourceStore_short : sourceStore.check = .ok () ∧
    sourceStore.text.utf8ByteSize + 16 ≤ Path.sizeLimit := by
  decide

theorem check_sourceStore : sourceStore.check = .ok () ∧
    ∀ table ∈ Store.tableNames, (sourceStore.push table).check = .ok () := by
  obtain ⟨hcheck, hsize⟩ := sourceStore_short
  have hopen : sourceStore.IsOpen := push_sourceKey ▸ Path.isOpen_push isName_sourceKey
  refine ⟨hcheck, fun table htable => ?_⟩
  exact Store.check_table hopen (Store.isName_tableNames htable)
    (Store.check_staged hcheck hsize table htable)

/-- The store of `/src` is there and nothing is recorded in it. -/
structure HasEmptyStore (w : World) : Prop where
  tree : w.disk.IsTree
  cwd : w.cwd = []
  empty : ∀ table ∈ Store.tableNames,
    ∃ runnable, w.disk.find? (["meta"] ++ [sourceKey] ++ [table]) = some (.file .empty runnable)

namespace HasEmptyStore

theorem reaches (h : HasEmptyStore w) :
    w.disk.Reaches w.cwd sourceStore (["meta"] ++ [sourceKey]) := by
  obtain ⟨runnable, hfind⟩ := h.empty "classes.txt" (by simp [Store.tableNames])
  rw [List.append_assoc] at hfind
  rw [← toPath_sourceStore]
  exact Disk.reaches_toPath isProper_sourceStore (h.tree.isPlain (by simp) hfind)

theorem isAt (h : HasEmptyStore w) : Store.isAt w.disk w.cwd sourceStore = true := by
  obtain ⟨hcheck, hchecks⟩ := check_sourceStore
  have hunlinked : Store.Unlinked w.disk (["meta"] ++ [sourceKey]) := by
    refine ⟨?_, fun table htable => ?_⟩
    · obtain ⟨runnable, hfind⟩ := h.empty "classes.txt" (by simp [Store.tableNames])
      rw [h.tree.parent _ _ _ hfind]
      simp
    · obtain ⟨runnable, hfind⟩ := h.empty table htable
      rw [hfind]
      simp
  refine (Store.isAt_iff h.tree h.reaches hunlinked).2 ⟨hcheck, fun table htable => ?_⟩
  exact ⟨hchecks table htable, .empty, h.empty table htable⟩

theorem load (h : HasEmptyStore w) :
    (Store.load sourceStore).on w = (.ok (.new sourceStore), w) :=
  Store.on_load_of_empty h.tree h.reaches check_sourceStore.2 h.empty

theorem storeFor_eq (h : HasEmptyStore w) :
    storeFor ⟨"/meta"⟩ ⟨"/src"⟩ w.cwd = sourceStore := by
  rw [h.cwd, storeFor_source, push_sourceKey]

theorem on_run (h : HasEmptyStore w) :
    (run tools ⟨"/meta"⟩ output ⟨"/src"⟩).on w =
      (runFrom tools sourceStore output ⟨"/src"⟩ (some (.new sourceStore))).on w := by
  refine on_run_eq_runFrom h.storeFor_eq h.isAt ?_
  rintro store ⟨⟩
  exact h.load

end HasEmptyStore

/-- Tools that reject every source. -/
def rejecting : Toolchain where
  compile _ _ _ := pure false
  examine _ := pure []

theorem rejecting_staysInside : rejecting.StaysInside where
  compile _ _ _ w _ _ _ := (Action.wp_pure _).2 ⟨.refl w, rfl, id⟩
  examine _ _ w _ _ _ _ := (Action.wp_pure _).2 ⟨.refl w, rfl, id⟩

theorem rejecting_keepsRecord : rejecting.KeepsRecord where
  compile _ _ _ _ := List.prefix_refl _
  examine _ _ := List.prefix_refl _

/-- A source tree with one source, which is not in its store yet. -/
def newSource : World :=
  let key := ".incjc-meta-56c9e1c4b5360a5b089004396ed37fe3a20f7c4f5954072098039789ba3ab68a"
  .start ⟨[(["src"], .directory), (["src", "A.java"], .file .empty false), (["tmp"], .directory),
    (["meta"], .directory), (["meta", key], .directory),
    (["meta", key, "classes.txt"], .file .empty false),
    (["meta", key, "sources.txt"], .file .empty false),
    (["meta", key, "deps.txt"], .file .empty false)], by decide⟩ [] ∅

theorem newSource_tree : newSource.disk.IsTree := Disk.isTree_of_isWellFormed (by decide)

theorem newSource_hasEmptyStore : HasEmptyStore newSource where
  tree := newSource_tree
  cwd := rfl
  empty := by
    simp [Store.tableNames, newSource, World.start, sourceKey, Disk.find?, List.lookup_cons]

theorem newSource_isAt :
    Store.isAt newSource.disk newSource.cwd (storeFor ⟨"/meta"⟩ ⟨"/src"⟩ newSource.cwd) = true :=
  newSource_hasEmptyStore.storeFor_eq ▸ newSource_hasEmptyStore.isAt

theorem newSource_load :
    ∃ store, (Store.load (storeFor ⟨"/meta"⟩ ⟨"/src"⟩ newSource.cwd)).on newSource =
      (.ok store, newSource) ∧ store.classes = ∅ :=
  ⟨_, newSource_hasEmptyStore.storeFor_eq ▸ newSource_hasEmptyStore.load, rfl⟩

theorem newSource_hasProperClasses {store : Store} {w' : World}
    (h : (Store.load (storeFor ⟨"/meta"⟩ ⟨"/src"⟩ newSource.cwd)).on newSource = (.ok store, w')) :
    HasProperClasses store := by
  obtain ⟨loaded, hload, hempty⟩ := newSource_load
  obtain ⟨rfl, -⟩ : loaded = store ∧ newSource = w' := by simpa using hload.symm.trans h
  intro className hmem
  rw [hempty] at hmem
  simp at hmem

theorem newSource_rejected : (match (run rejecting ⟨"/meta"⟩ ⟨"/out"⟩ ⟨"/src"⟩).on newSource with
    | (.ok outcome, w') => outcome == .compileFailed && !w'.calls.isEmpty
    | (.error _, _) => false) = true := by
  rw [newSource_hasEmptyStore.on_run]
  decide +kernel

theorem run_rejected_or_failed_newSource :
    ∃ w', (run rejecting ⟨"/meta"⟩ ⟨"/out"⟩ ⟨"/src"⟩).on newSource = (.ok .compileFailed, w') ∧
      w'.view = newSource.view ∧ ∃ sources classpath destination before,
        [.compile sources classpath destination before] <+: w'.calls ∧
        ∀ w₂, w₂.view = w'.view → w₂.calls ++ [.compile sources classpath destination before] <+:
          ((run rejecting ⟨"/meta"⟩ ⟨"/out"⟩ ⟨"/src"⟩).on w₂).2.calls := by
  have hrejected := newSource_rejected
  rcases hrun : (run rejecting ⟨"/meta"⟩ ⟨"/out"⟩ ⟨"/src"⟩).on newSource with ⟨f | outcome, w'⟩
  · rw [hrun] at hrejected
    cases hrejected
  simp only [hrun, Bool.and_eq_true, beq_iff_eq, Bool.not_eq_true', List.isEmpty_eq_false_iff] at hrejected
  obtain ⟨rfl, hcalls⟩ := hrejected
  have htree : newSource.disk.IsTree := Disk.isTree_of_isWellFormed (by decide)
  obtain ⟨hview, hagain⟩ := run_rejected_or_failed rejecting_staysInside rejecting_keepsRecord htree
    newSource_isAt (fun _ _ => newSource_hasProperClasses) hrun (.inl rfl)
  exact ⟨w', rfl, hview, hagain.resolve_left hcalls⟩

end Build

end Recompile
