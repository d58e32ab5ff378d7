import Recompile.Proofs.Build.Run
import Recompile.Proofs.Store.Affected
import Recompile.Proofs.Store.RoundTrip

/-!
# Builds with a store

A build with a store compiles the sources that have changed and the sources of the classes that the
changes touch, without the deleted ones. If there are any and the class files that stay could be
staged, it calls the compiler once, with these sources in ascending order.
-/

namespace Recompile

/-- The tools do not touch the record of their calls. -/
structure Toolchain.LeavesRecord (tools : Toolchain) : Prop where
  compile : ∀ (sources : List String) (classpath destination : Path) (w : World),
    ((tools.compile sources classpath destination).on w).2.calls = w.calls
  examine : ∀ (classFiles : List Path) (w : World),
    ((tools.examine classFiles).on w).2.calls = w.calls

theorem Store.load_sound {directory : Path} {w w' : World} {store : Store}
    (h : (Store.load directory).on w = (.ok store, w')) : store.dependencies.Sound := by
  have hload : (Store.load directory).wp w (fun s _ => s.dependencies.Sound) fun _ _ => True := by
    unfold load
    simp only [Action.wp_bind, Action.wp_pure]
    refine Action.wp_of_forall (fun _ _ => ?_) fun _ _ => trivial
    refine Action.wp_of_forall (fun _ _ => ?_) fun _ _ => trivial
    exact Action.wp_of_forall (fun edges _ => sound_ofEdges edges) fun _ _ => trivial
  exact hload.of_ok h

namespace Build

open Staging World

attribute [local irreducible] Action.wp

variable {tools : Toolchain} {w w₁ : World} {t : Target} {storeRoot output sourceTree storeAt : Path}

/-- A build with a store. -/
def incremental (tools : Toolchain) (t : Target) (storeAt : Path) : Action Outcome := do
  commit t.output (← prepare tools t storeAt)

/-- A build that finds sources and a store is a build with a store. -/
theorem run_eq_incremental (hlocate : (locate output sourceTree).on w = (.ok t, w))
    (hsources : t.sources.isEmpty = false)
    (hat : Store.isAt w.disk w.cwd (storeFor storeRoot sourceTree w.cwd) = true) :
    ∃ w₁, w.Quiet w₁ ∧ (run tools storeRoot output sourceTree).on w =
      (incremental tools t (storeFor storeRoot sourceTree w.cwd)).on w₁ := by
  obtain ⟨w₁, hlog, hquiet⟩ := @exists_on_log w .debug "all sources"
  refine ⟨w₁, hquiet, ?_⟩
  rw [on_run_of_locate hlocate hsources rfl, if_pos hat, Action.on_bind, hlog]
  rfl

theorem compared_of_detect {store : Store} {changes : Changes}
    (hload : (Store.load storeAt).on w = (.ok store, w))
    (hdetect : (Changes.detect t.sources store.sources).on w = (.ok changes, w₁)) :
    ∃ table affected, changes = .between table store.sources ∧
      Compared t storeAt w store table affected := by
  obtain ⟨-, table, hdigest, rfl⟩ := (Changes.detect_reads t.sources store.sources).of_ok hdetect
  obtain ⟨affected, haffected, -⟩ := Store.affectedSources_eq_ok (Store.load_sound hload)
    (Changes.between table store.sources).seeds
  exact ⟨table, affected, rfl, hload, hdigest, haffected⟩

theorem mem_recompile_plan (store : Store) (changes : Changes) (affected : Names)
    (source : String) :
    source ∈ (plan store changes affected).recompile ↔
      (source ∈ changes.changed ∨ source ∈ affected) ∧ source ∉ changes.deleted := by
  simp only [plan, Std.ExtTreeSet.mem_filter, Changes.seeds, Std.ExtTreeSet.mem_union_iff,
    Std.ExtTreeSet.mem_ofList, List.contains_iff_mem, List.mem_append, Std.ExtTreeMap.mem_keys,
    Std.ExtTreeSet.mem_toList, Std.ExtTreeSet.get_eq, exists_prop, Bool.not_eq_true',
    Names.contains_eq_false_iff]
  tauto

/-! ## Calls -/

section Calls

/-- Since then there was this call, and nothing but calls of the examiner after it. -/
def CalledOnce (call : Call) (w w' : World) : Prop :=
  ∃ more, w'.calls = w.calls ++ call :: more ∧ ∀ other ∈ more, ¬ other.IsCompile

theorem wp_blind_calls {α : Type} {a : Action α} (h : a.Blind) :
    a.wp w (fun _ w' => w'.calls = w.calls) fun _ w' => w'.calls = w.calls := by
  have hcalls := h.calls w
  rw [Action.wp_iff]
  constructor <;> intro _ w' hon <;> rw [hon] at hcalls <;> exact hcalls

theorem wp_commit_calls (output : Path) (ready : Ready) :
    (commit output ready).wp w (fun outcome w' => w'.calls = w.calls ∧
      ∀ n, outcome = .compiled n → ∃ ws store stale produced,
        ready = .compiled ws store stale produced n) fun _ w' => w'.calls = w.calls := by
  have hcount : (commit output ready).wp w (fun outcome _ => ∀ n, outcome = .compiled n →
      ∃ ws store stale produced, ready = .compiled ws store stale produced n)
      fun _ _ => True := by
    cases ready with
    | nothing =>
      unfold commit
      rw [Action.wp_bind, Action.wp_print, Action.wp_pure]
      simp
    | pruned store stale =>
      unfold commit
      simp only [Action.wp_bind]
      refine Action.wp_of_forall (fun _ w₁ => ?_) fun _ _ => trivial
      refine Action.wp_of_forall (fun _ w₂ => ?_) fun _ _ => trivial
      rw [Action.wp_print, Action.wp_pure]
      simp
    | rejected =>
      unfold commit
      rw [Action.wp_pure]
      simp
    | compiled ws store stale produced count =>
      have hdiscard (f : Failure) (w₁ : World) :
          ws.discard.wp w₁ (fun _ _ => True) fun _ _ => True :=
        Action.wp_of_forall (fun _ _ => trivial) fun _ _ => trivial
      unfold commit
      rw [Action.wp_finishing, Action.wp_bind]
      refine Action.wp_of_forall (fun _ w₁ => ?_) hdiscard
      rw [Action.wp_bind]
      refine Action.wp_of_forall (fun _ w₂ => ?_) hdiscard
      rw [log, Action.wp_bind, Action.wp_log, Action.wp_pure]
      refine Action.wp_of_forall (fun _ _ n hn => ?_) fun _ _ => trivial
      cases hn
      exact ⟨ws, store, stale, produced, rfl⟩
  exact ((wp_blind_calls (commit_blind output ready)).and hcount).mono (fun _ _ h => h)
    fun _ _ h => h.1

variable (record : tools.LeavesRecord)
include record

theorem wp_compile_calls (sources : List String) (classpath destination : Path) :
    (Action.phase "compile" (tools.runCompiler sources classpath destination)).wp w
      (fun _ w' => w'.calls = w.calls ++ [.compile sources classpath destination w.disk])
      fun _ w' => w'.calls = w.calls ++ [.compile sources classpath destination w.disk] := by
  have hcompile := record.compile sources classpath destination
    (w.called (.compile sources classpath destination w.disk))
  rw [Action.wp_phase, Toolchain.wp_runCompiler, Action.wp_iff]
  constructor <;> intro _ w' hon <;> rw [hon] at hcompile <;> exact hcompile

theorem wp_recordClasses_calls (store : Store) (sourceTree : Path) (digests : Table)
    (directory : Path) :
    (recordClasses tools store sourceTree digests directory).wp w
      (fun _ w' => ∃ more, w'.calls = w.calls ++ more ∧ ∀ call ∈ more, ¬ call.IsCompile)
      fun _ w' => ∃ more, w'.calls = w.calls ++ more ∧ ∀ call ∈ more, ¬ call.IsCompile := by
  have hexamine (files : List Path) (w₁ w₂ : World) (h₁ : w₁.calls = w.calls)
      (h₂ : w₂.calls = (w₁.called (.examine files w₁.disk)).calls) :
      ∃ more, w₂.calls = w.calls ++ more ∧ ∀ call ∈ more, ¬ call.IsCompile := by
    refine ⟨[.examine files w₁.disk], ?_, by simp [Call.IsCompile]⟩
    rw [h₂, World.called, h₁]
  unfold recordClasses Directory.findClassFiles
  simp only [Action.wp_bind, Action.wp_phase, Toolchain.wp_runExaminer, Action.wp_logAll,
    Action.wp_pure]
  refine (wp_blind_calls ((Directory.findFiles_blind _ _).within _)).mono (fun files w₁ h₁ => ?_)
    fun _ w₁ h₁ => ⟨[], by simpa using h₁, by simp⟩
  have hrecord := record.examine (Path.sorted files)
    (w₁.called (.examine (Path.sorted files) w₁.disk))
  rw [Action.wp_iff]
  constructor <;> intro _ w₂ hon <;> rw [hon] at hrecord
  · exact hexamine _ w₁ _ h₁ hrecord
  · exact hexamine _ w₁ _ h₁ hrecord

theorem wp_compileIn_calls (ws : Workspace) (store : Store) (changes : Changes) (p : Plan) :
    (compileIn tools ws store changes p sourceTree).wp w
      (fun ready w' =>
        CalledOnce (.compile p.recompile.toList ws.classpath ws.destination w.disk) w w' ∧
        ∀ ws' s stale produced n, ready = .compiled ws' s stale produced n →
          n = p.recompile.toList.length)
      fun _ => CalledOnce (.compile p.recompile.toList ws.classpath ws.destination w.disk) w := by
  unfold compileIn
  rw [Action.wp_bind]
  refine (wp_compile_calls record _ _ _).mono (fun accepted w₁ h₁ => ?_)
    fun _ w₁ h₁ => ⟨[], h₁, by simp⟩
  have hmore (w₂ : World) (h : ∃ more, w₂.calls = w₁.calls ++ more ∧ ∀ call ∈ more, ¬ call.IsCompile) :
      CalledOnce (.compile p.recompile.toList ws.classpath ws.destination w.disk) w w₂ := by
    obtain ⟨more, hcalls, hnone⟩ := h
    exact ⟨more, by rw [hcalls, h₁, List.append_assoc, List.singleton_append], hnone⟩
  cases accepted with
  | false =>
    rw [if_neg Bool.false_ne_true, Action.wp_bind]
    refine (wp_blind_calls (discard_blind ws)).mono (fun _ w₂ h₂ => ?_) fun _ w₂ h₂ => ?_
    · exact (Action.wp_pure _).2 ⟨hmore w₂ ⟨[], by simpa using h₂, by simp⟩, by simp⟩
    · exact hmore w₂ ⟨[], by simpa using h₂, by simp⟩
  | true =>
    rw [if_pos rfl, Action.wp_bind]
    refine (wp_recordClasses_calls record _ _ _ _).mono (fun _ w₂ h₂ => ?_) fun _ w₂ h₂ => hmore w₂ h₂
    rw [Action.wp_pure]
    refine ⟨hmore w₂ h₂, ?_⟩
    rintro ws' s stale produced n heq
    cases heq
    rfl

end Calls

/-- The calls of a build with a store, from what it has loaded and found changed. -/
structure Called (output : Path) (store : Store) (p : Plan) (w : World) (new : List Call) : Prop where
  none_of_empty : p.recompile.isEmpty → new = []
  staged : ¬ p.recompile.isEmpty → match (Workspace.stage output (unaffected store p)).on w with
    | (.error _, _) => new = []
    | (.ok ws, w₂) => ∃ more, (∀ other ∈ more, ¬ other.IsCompile) ∧
        new = .compile p.recompile.toList ws.classpath ws.destination w₂.disk :: more

theorem Called.of_empty {store : Store} {p : Plan} (hempty : p.recompile.isEmpty) :
    Called output store p w [] := ⟨fun _ => rfl, fun h => absurd hempty h⟩

theorem incremental_calls (record : tools.LeavesRecord) {store : Store} {table : Table}
    {affected : Names} (c : Compared t storeAt w store table affected) :
    (incremental tools t storeAt).wp w
      (fun outcome w' => (∃ new, w'.calls = w.calls ++ new ∧ Called t.output store c.plan w new) ∧
        ∀ n, outcome = .compiled n → n = c.plan.recompile.toList.length)
      fun _ w' => ∃ new, w'.calls = w.calls ++ new ∧ Called t.output store c.plan w new := by
  unfold incremental
  rw [Action.wp_bind]
  have hcommit {ready : Ready} {w₁ : World} {new : List Call} (hnew : w₁.calls = w.calls ++ new)
      (called : Called t.output store c.plan w new)
      (hcount : ∀ ws s stale produced n, ready = .compiled ws s stale produced n →
        n = c.plan.recompile.toList.length) :
      (commit t.output ready).wp w₁
        (fun outcome w' => (∃ new, w'.calls = w.calls ++ new ∧ Called t.output store c.plan w new) ∧
          ∀ n, outcome = .compiled n → n = c.plan.recompile.toList.length)
        fun _ w' => ∃ new, w'.calls = w.calls ++ new ∧ Called t.output store c.plan w new := by
    refine (wp_commit_calls t.output ready).mono (fun outcome w₂ h₂ => ?_) fun _ w₂ h₂ => ?_
    · refine ⟨⟨new, h₂.1.trans hnew, called⟩, fun n hn => ?_⟩
      obtain ⟨ws, s, stale, produced, rfl⟩ := h₂.2 n hn
      exact hcount ws s stale produced n rfl
    · exact ⟨new, h₂.trans hnew, called⟩
  refine prepare_wp (fun f w₁ h hnone => (hnone _ _ _ c).elim) (fun _ _ _ c' w₁ h hempty _ => ?_)
    (fun _ _ _ c' w₁ h hempty _ => ?_) fun _ _ _ c' w₁ h hsome => ?_
  all_goals obtain ⟨rfl, rfl, rfl⟩ := c.unique c'
  · exact hcommit (h.calls.trans (List.append_nil _).symm) (.of_empty hempty) (by simp)
  · exact hcommit (h.calls.trans (List.append_nil _).symm) (.of_empty hempty) (by simp)
  · rw [Action.wp_bind, Action.wp_phase]
    -- Staging ends in `w` as it ends in the world in which the build stages.
    have hstage := (stage_blind t.output (unaffected store c.plan)).same w₁ w h.view
    have hcalls := (stage_blind t.output (unaffected store c.plan)).calls w₁
    rcases hon₁ : (Workspace.stage t.output (unaffected store c.plan)).on w₁ with ⟨f | ws, w₂⟩ <;>
      rcases hon : (Workspace.stage t.output (unaffected store c.plan)).on w with ⟨f' | ws', w₂'⟩ <;>
      rw [hon₁, hon] at hstage <;> rw [hon₁] at hcalls <;> cases hstage.1
    · rw [Action.wp_of_error hon₁]
      exact ⟨[], (hcalls.trans h.calls).trans (List.append_nil _).symm, fun h => absurd h hsome, fun _ => by rw [hon]⟩
    · have hdisk : w₂.disk = w₂'.disk := congrArg View.disk hstage.2
      have hcalled {w₃ : World} (h₃ : CalledOnce
          (.compile c.plan.recompile.toList ws.classpath ws.destination w₂.disk) w₂ w₃) :
          ∃ new, w₃.calls = w.calls ++ new ∧ Called t.output store c.plan w new := by
        obtain ⟨more, hmore, hnone⟩ := h₃
        refine ⟨_, by rw [hmore, hcalls, h.calls], fun h => absurd h hsome, fun _ => ?_⟩
        rw [hon]
        exact ⟨more, hnone, by rw [hdisk]⟩
      rw [Action.wp_of_ok hon₁, Action.wp_undoing]
      refine (wp_compileIn_calls record ws store _ c.plan).mono (fun ready w₃ h₃ => ?_)
        fun f w₃ h₃ => ?_
      · obtain ⟨new, hnew, called⟩ := hcalled h₃.1
        exact hcommit hnew called h₃.2
      · obtain ⟨new, hnew, called⟩ := hcalled h₃
        refine (wp_blind_calls (discard_blind ws)).mono (fun _ w₄ h₄ => ?_) fun _ w₄ h₄ => ?_
        · exact ⟨new, h₄.trans hnew, called⟩
        · exact ⟨new, h₄.trans hnew, called⟩

/-- The sources to compile are found exactly. Whatever a store holds, the affected sources are those
of the classes that are reached through known classes. A build with a store compiles these and the
changed ones without the deleted ones: if there are none, no tool is called, and otherwise, unless
the classes that stay cannot be staged, the compiler is called once and for exactly these sources. -/
theorem recompiles_exactly :
    (∀ (directory : Path) (sources classes : Table) (history : List Graph.Change) (changed : Names),
      let s : Store := ⟨directory, sources, classes, .after history⟩
      ∃ affected, s.affectedSources changed = .ok affected ∧ ∀ source, source ∈ affected ↔
        ∃ className, s.Touched changed className ∧ s.classes[className]? = some source) ∧
    ∀ (tools : Toolchain) (t : Target) (storeAt : Path) (w w₁ w' : World) (store : Store)
      (changes : Changes) (result : Except Failure Outcome),
      tools.LeavesRecord → (Store.load storeAt).on w = (.ok store, w) →
      (Changes.detect t.sources store.sources).on w = (.ok changes, w₁) →
      (incremental tools t storeAt).on w = (result, w') →
      ∃ affected new, store.affectedSources changes.seeds = .ok affected ∧
        w'.calls = w.calls ++ new ∧
        let p := plan store changes affected
        (∀ source, source ∈ p.recompile.toList ↔
          (source ∈ changes.changed ∨ ∃ className, store.Touched changes.seeds className ∧
            store.classes[className]? = some source) ∧ source ∉ changes.deleted) ∧
        p.recompile.toList.Pairwise (· < ·) ∧ Called t.output store p w new ∧
        (∀ n, result = .ok (.compiled n) → n = p.recompile.toList.length) ∧
        ∀ sources classpath destination before,
          .compile sources classpath destination before ∈ new →
            ∀ source ∈ sources, source ∉ changes.deleted := by
  refine ⟨fun directory sources classes history changed => ?_, ?_⟩
  · exact Store.affectedSources_eq_ok (s := ⟨directory, sources, classes, .after history⟩)
      (Graph.refines_after history).sound changed
  intro tools t storeAt w w₁ w' store changes result record hload hdetect hrun
  obtain ⟨table, affected, rfl, c⟩ := compared_of_detect hload hdetect
  obtain ⟨affected', haffected, hmem⟩ := Store.affectedSources_eq_ok (Store.load_sound hload)
    (Changes.between table store.sources).seeds
  obtain rfl : affected = affected' := Except.ok.inj (c.affected.symm.trans haffected)
  have hcalls := incremental_calls record c
  obtain ⟨⟨new, hnew, called⟩, hcount⟩ :
      (∃ new, w'.calls = w.calls ++ new ∧ Called t.output store c.plan w new) ∧
        ∀ n, result = .ok (.compiled n) → n = c.plan.recompile.toList.length := by
    cases result with
    | error f => exact ⟨hcalls.of_error hrun, by simp⟩
    | ok outcome => simpa using hcalls.of_ok hrun
  refine ⟨affected, new, haffected, hnew, fun source => ?_, ?_, called, hcount, ?_⟩
  · rw [Std.ExtTreeSet.mem_toList, mem_recompile_plan, hmem]
  · exact (Std.ExtTreeSet.ordered_toList (t := (plan store _ affected).recompile)).imp
      compareOfLessAndEq_eq_lt.1
  · intro sources classpath destination before hcall source hsource
    have hnot (h : source ∈ c.plan.recompile.toList) :
        source ∉ (Changes.between table store.sources).deleted :=
      ((mem_recompile_plan _ _ _ _).1 (Std.ExtTreeSet.mem_toList.1 h)).2
    by_cases hempty : c.plan.recompile.isEmpty
    · rw [called.none_of_empty hempty] at hcall
      cases hcall
    · have hstaged := called.staged hempty
      split at hstaged
      · rw [hstaged] at hcall
        cases hcall
      · obtain ⟨more, hmore, rfl⟩ := hstaged
        rcases List.mem_cons.1 hcall with heq | hother
        · cases heq
          exact hnot hsource
        · exact (hmore _ hother trivial).elim

def changedBaseClasses : List (String × String) :=
  [("A", "/src/A.java"), ("B", "/src/B.java"), ("C", "/src/C.java"), ("D", "/src/D.java")]

def changedBaseSources : List (String × String) :=
  let digest := "e3b0c44298fc1c149afbf4c8996fb92427ae41e4649b934ca495991b7852b855"
  [("/src/A.java", ""), ("/src/B.java", digest), ("/src/C.java", digest), ("/src/D.java", "")]

def changedBaseStore : Store :=
  ⟨⟨"/store"⟩, Store.ofRows changedBaseSources, Store.ofRows changedBaseClasses,
    Graph.ofEdges [("A", "B")]⟩

/-- The class `B` refers to `A`, whose source has changed. The source of `C` is as it was, and that
of `D` is gone. -/
def changedBase : World :=
  .start ⟨[(["src"], .directory), (["src", "A.java"], .file "class A".toUTF8 false),
    (["src", "B.java"], .file .empty false), (["src", "C.java"], .file .empty false),
    (["tmp"], .directory), (["out"], .directory),
    (["out", "A.class"], .file "a".toUTF8 false), (["out", "B.class"], .file "b".toUTF8 false),
    (["out", "C.class"], .file "c".toUTF8 false), (["out", "D.class"], .file "d".toUTF8 false),
    (["store"], .directory),
    (["store", "classes.txt"], .file (Store.writeRows changedBaseClasses).toUTF8 false),
    (["store", "sources.txt"], .file (Store.writeRows changedBaseSources).toUTF8 false),
    (["store", "deps.txt"], .file (Store.writeRows [("A", "B")]).toUTF8 false)], by decide⟩ [] ∅

def changedBaseTarget : Target :=
  ⟨⟨"/out"⟩, ⟨"/src"⟩, .ofList ["/src/A.java", "/src/B.java", "/src/C.java"]⟩

section ChangedBase

attribute [local irreducible] Store.writeRows

theorem load_changedBase :
    (Store.load ⟨"/store"⟩).on changedBase = (.ok changedBaseStore, changedBase) := by
  have hclasses : changedBase.disk.readFile changedBase.cwd (Store.classesTable ⟨"/store"⟩) =
      .ok (Store.writeRows changedBaseClasses).toUTF8 := by rfl
  have hsources : changedBase.disk.readFile changedBase.cwd (Store.sourcesTable ⟨"/store"⟩) =
      .ok (Store.writeRows changedBaseSources).toUTF8 := by rfl
  have hedges : changedBase.disk.readFile changedBase.cwd (Store.dependenciesTable ⟨"/store"⟩) =
      .ok (Store.writeRows [("A", "B")]).toUTF8 := by rfl
  exact Store.on_load_of_written hclasses hsources hedges (by decide +kernel)

end ChangedBase

/-- A compiler for the classes `A` and `B`, whose examiner tells that `B` refers to `A`. -/
def twoClasses : Toolchain :=
  .writing ["A.class", "B.class"] [⟨"A", ⟨"A.java"⟩, ∅⟩, ⟨"B", ⟨"B.java"⟩, .ofList ["A"]⟩]

theorem writing_leavesRecord (files : List String) (facts : List ClassFact) :
    (Toolchain.writing files facts).LeavesRecord where
  compile sources classpath destination w := by
    have hcompile : ((Toolchain.writing files facts).compile sources classpath destination).wp w
        (fun _ w' => w'.calls = w.calls) fun _ w' => w'.calls = w.calls := by
      unfold Toolchain.writing
      simp only [Action.wp_bind, Action.wp_get]
      split <;> simp
    exact hcompile.always
  examine _ _ := rfl

theorem changedBase_detected :
    (match (Changes.detect changedBaseTarget.sources changedBaseStore.sources).on changedBase with
    | (.ok changes, _) => changes.changed.keys == ["/src/A.java"] &&
        changes.deleted.toList == ["/src/D.java"] &&
        match changedBaseStore.affectedSources changes.seeds with
        | .ok affected => (plan changedBaseStore changes affected).recompile.toList ==
            ["/src/A.java", "/src/B.java"]
        | .error _ => false
    | (.error _, _) => false) = true := by
  decide +kernel

theorem recompiles_exactly_changedBase :
    ∃ changes affected new, changes.changed.keys = ["/src/A.java"] ∧
      changes.deleted.toList = ["/src/D.java"] ∧
      (plan changedBaseStore changes affected).recompile.toList = ["/src/A.java", "/src/B.java"] ∧
      ((incremental twoClasses changedBaseTarget ⟨"/store"⟩).on changedBase).2.calls = new ∧
      Called ⟨"/out"⟩ changedBaseStore (plan changedBaseStore changes affected) changedBase new := by
  have hdetected := changedBase_detected
  rcases hdetect : (Changes.detect changedBaseTarget.sources changedBaseStore.sources).on changedBase
    with ⟨f | changes, w₁⟩
  · rw [hdetect] at hdetected
    cases hdetected
  rcases hrun : (incremental twoClasses changedBaseTarget ⟨"/store"⟩).on changedBase with ⟨result, w'⟩
  obtain ⟨affected, new, haffected, hcalls, -, -, called, -, -⟩ := recompiles_exactly.2 twoClasses
    changedBaseTarget ⟨"/store"⟩ changedBase w₁ w' changedBaseStore changes result
    (writing_leavesRecord _ _) load_changedBase hdetect hrun
  simp only [hdetect, haffected, Bool.and_eq_true, beq_iff_eq] at hdetected
  exact ⟨changes, affected, new, hdetected.1.1, hdetected.1.2, hdetected.2, hcalls, called⟩

end Build

end Recompile
