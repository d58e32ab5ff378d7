import Recompile.Proofs.Build.Again
import Recompile.Proofs.Build.Visible

/-!
# Sources and classes in step

The sources of a store come from walking the tree, the sources of its classes from what the examiner
reports. As long as the examiner reports sources that the build has found, every class of a store is
in one of its sources, from build to build, and only sources that were found are compiled. A class
that is reported at a place where no source was found breaks both: its row stays, and when the class
is affected, the path in it is compiled.
-/

namespace Recompile

/-! ## The rows of classes -/

namespace Store

variable {s : Store} {sourceTree : Path} {facts : List ClassFact} {className source : String}

/-- Every class is in one of the sources. -/
def InStep (s : Store) : Prop :=
  ∀ className source : String, s.classes[className]? = some source → source ∈ s.sources

/-- The rows of the classes are read back as they were written. -/
def KeepsClasses (s : Store) : Prop := ∀ row ∈ s.classes.toList, ReadsBack .first row

theorem class_of_record (h : (s.record sourceTree facts).classes[className]? = some source) :
    (∃ fact ∈ facts, fact.className = className ∧ (sourceTree.join fact.source).text = source) ∨
      s.classes[className]? = some source := by
  rw [getElem?_classes_record] at h
  cases hfind : facts.reverse.find? fun fact => fact.className = className with
  | none =>
    rw [hfind] at h
    exact .inr h
  | some fact =>
    rw [hfind] at h
    have hname : fact.className = className := by simpa using List.find?_some hfind
    exact .inl ⟨fact, List.mem_reverse.1 (List.mem_of_find?_eq_some hfind), hname, Option.some.inj h⟩

end Store

/-- The fact is about a source that was found, and what is recorded of it is read back. -/
structure ClassFact.IsFound (sourceTree : Path) (sources : Names) (fact : ClassFact) : Prop where
  unbroken : fact.Unbroken
  source : (sourceTree.join fact.source).text ∈ sources
  readsBack : Store.ReadsBack .first (fact.className, (sourceTree.join fact.source).text)

namespace Build

open Directory Disk Staging World

attribute [local irreducible] Action.wp scratchName

variable {tools : Toolchain} {p : Places} {w w₁ w' : World} {t : Target} {s store : Store}
  {storeRoot output sourceTree storeAt q : Path} {out : Location} {table : Table} {affected : Names}
  {className source : String}

section Rows

/-- A class that is left in the store is in a source that is not deleted. -/
theorem class_of_strip {changes : Changes} (h :
      (strip store (plan store changes affected) changes.deleted).classes[className]? = some source) :
    store.classes[className]? = some source ∧ source ∉ changes.deleted := by
  have hrow := store.getElem?_classes_deleteClasses (plan store changes affected).stale className
  rw [strip, Store.deleteSources, hrow] at h
  split_ifs at h with hstale
  exact ⟨h, fun hdeleted => hstale ((mem_stale_plan _ _ _ _).2 ⟨source, h, .inr hdeleted⟩)⟩

/-- A row of what is made ready is one of the facts that were told, or it was there before. -/
theorem class_of_readied {P : ClassFact → Prop} {changes : Changes} {ready : Ready}
    (h : Readied (∀ fact ∈ ·, P fact) q store changes (plan store changes affected) ready)
    (hs : ready.store? = some s) (hrow : s.classes[className]? = some source) :
    (∃ fact, P fact ∧ fact.className = className ∧ (q.join fact.source).text = source) ∨
      (store.classes[className]? = some source ∧ source ∉ changes.deleted) := by
  cases ready with
  | nothing => cases hs
  | rejected => cases hs
  | pruned s' stale =>
    obtain ⟨-, rfl, -⟩ := h
    cases hs
    exact .inr (class_of_strip hrow)
  | compiled ws s' stale produced count =>
    obtain ⟨-, facts, hfacts, rfl, -⟩ := h
    cases hs
    rcases Store.class_of_record hrow with ⟨fact, hfact, hname, hsource⟩ | hold
    · exact .inl ⟨fact, hfacts fact hfact, hname, hsource⟩
    · exact .inr (class_of_strip hold)

/-- A source that was recorded and is not deleted is there. -/
theorem mem_of_not_deleted (h : source ∈ store.sources)
    (hdeleted : source ∉ (Changes.between table store.sources).deleted) : source ∈ table := by
  by_contra hnot
  exact hdeleted ((Changes.mem_deleted_between _ _ _).2 ⟨h, hnot⟩)

variable (hstep : store.InStep)

include hstep

/-- From a store that is in step only sources that are there are compiled. -/
theorem mem_of_recompile
    (haffected : store.affectedSources (Changes.between table store.sources).seeds = .ok affected)
    (sound : store.dependencies.Sound)
    (h : source ∈ (plan store (.between table store.sources) affected).recompile) :
    source ∈ table := by
  obtain ⟨hseed, hdeleted⟩ := (mem_recompile_plan _ _ _ _).1 h
  rcases hseed with hchanged | htouched
  · obtain ⟨digest, hdigest⟩ := (Table.mem_iff_exists_getElem? _ _).1 hchanged
    rw [Changes.getElem?_changed_between, Option.filter_eq_some_iff] at hdigest
    exact (Table.mem_iff_exists_getElem? _ _).2 ⟨digest, hdigest.1⟩
  · obtain ⟨affected', haffected', hmem⟩ := Store.affectedSources_eq_ok sound
      (Changes.between table store.sources).seeds
    obtain rfl := Except.ok.inj (haffected.symm.trans haffected')
    obtain ⟨className, -, hclass⟩ := (hmem source).1 htouched
    exact mem_of_not_deleted (hstep className source hclass) hdeleted

/-- What is made ready is in step if it was told about sources that are there. -/
theorem inStep_of_readied {sources : Names} {ready : Ready}
    (h : Readied (∀ fact ∈ ·, fact.IsFound q sources) q store (.between table store.sources)
      (plan store (.between table store.sources) affected) ready)
    (hsources : ∀ source, source ∈ sources → source ∈ table) (hs : ready.store? = some s) :
    s.InStep := by
  intro className source hrow
  rw [sources_of_readied h hs]
  rcases class_of_readied h hs hrow with ⟨fact, hfact, -, rfl⟩ | ⟨hold, hdeleted⟩
  · exact hsources _ hfact.source
  · exact mem_of_not_deleted (hstep className source hold) hdeleted

end Rows

theorem keepsClasses_of_readied {sources : Names} {changes : Changes} {ready : Ready}
    (h : Readied (∀ fact ∈ ·, fact.IsFound q sources) q store changes (plan store changes affected)
      ready)
    (hkeeps : store.KeepsClasses) (hs : ready.store? = some s) : s.KeepsClasses := by
  rintro ⟨className, source⟩ hrow
  rcases class_of_readied h hs (Store.mem_toList_iff.1 hrow) with ⟨fact, hfact, rfl, rfl⟩ | ⟨hold, -⟩
  · exact hfact.readsBack
  · exact hkeeps _ (Store.mem_toList_iff.2 hold)

section Begun

variable {sources : Names} {facts : List ClassFact} (digests : Table)
  (hfacts : ∀ fact ∈ facts, fact.IsFound q sources)

include hfacts

/-- Every class of a store that was begun is in a source that was found. -/
theorem class_of_begun (h : (begun storeAt q digests facts).classes[className]? = some source) :
    ∃ fact : ClassFact, fact.IsFound q sources ∧ fact.className = className ∧
      (q.join fact.source).text = source := by
  rcases Store.class_of_record h with ⟨fact, hfact, hname, hsource⟩ | hold
  · exact ⟨fact, hfacts fact hfact, hname, hsource⟩
  · simp [Store.addSources, Store.new] at hold

theorem inStep_begun (hsources : ∀ source, source ∈ sources → source ∈ digests) :
    (begun storeAt q digests facts).InStep := by
  intro className source hrow
  obtain ⟨fact, hfact, -, rfl⟩ := class_of_begun digests hfacts hrow
  rw [sources_begun]
  exact hsources _ hfact.source

theorem keepsClasses_begun : (begun storeAt q digests facts).KeepsClasses := by
  rintro ⟨className, source⟩ hrow
  obtain ⟨fact, hfact, rfl, rfl⟩ := class_of_begun digests hfacts (Store.mem_toList_iff.1 hrow)
  exact hfact.readsBack

end Begun

/-! ## The store on the disk -/

/-- If there is a store, it is loaded, its classes are in its sources, and they are read back when
they are saved. -/
def HasStep (storeAt : Path) (w : World) : Prop :=
  Store.isAt w.disk w.cwd storeAt = true →
    ∃ s, (Store.load storeAt).on w = (.ok s, w) ∧ s.InStep ∧ s.KeepsClasses

/-- Nothing has happened to the store: it is there or not, as before, and it is loaded as before. -/
structure LeavesStore (storeAt : Path) (w w' : World) : Prop where
  cwd : w'.cwd = w.cwd
  isAt : Store.isAt w'.disk w'.cwd storeAt = Store.isAt w.disk w.cwd storeAt
  load : ((Store.load storeAt).on w').1 = ((Store.load storeAt).on w).1

theorem LeavesStore.of_view (hview : w'.view = w.view) : LeavesStore storeAt w w' := by
  have hdisk : w'.disk = w.disk := congrArg View.disk hview
  have hcwd : w'.cwd = w.cwd := congrArg View.cwd hview
  exact ⟨hcwd, by rw [hdisk, hcwd], ((Store.load_blind storeAt).same w' w hview).1⟩

theorem HasStep.of_leavesStore (h : HasStep storeAt w) (hleaves : LeavesStore storeAt w w') :
    HasStep storeAt w' := by
  intro hat
  rw [hleaves.isAt] at hat
  obtain ⟨s, hload, hstep, hkeeps⟩ := h hat
  refine ⟨s, ?_, hstep, hkeeps⟩
  have hsame := hleaves.load
  rw [hload] at hsame
  rcases hon : (Store.load storeAt).on w' with ⟨f | s', w''⟩
  · rw [hon] at hsame
    cases hsame
  · rw [hon] at hsame
    cases hsame
    rw [(Store.load_quiet.of_ok hon).1]

/-- A store that was saved in step is loaded in step. -/
theorem hasStep_of_filed {d : Disk} {cwd : Location} (hfiled : Filed IsClassPlace p s w'.disk)
    (layout : Layout w'.disk w'.cwd (Store.sites p.storeAt p.above p.name)) (hs : s.Unbroken)
    (hdigest : Changes.IsDigest d cwd t.sources.toList s.sources)
    (hsources : ∀ source ∈ t.sources, Text.Unbroken source) (hstep : s.InStep)
    (hkeeps : s.KeepsClasses) : HasStep p.storeAt w' := by
  intro _
  obtain ⟨s', hload, hsame, hclasses⟩ := hfiled.exists_load layout hs hdigest hsources
  have hclasses := hclasses hkeeps
  refine ⟨s', hload, fun className source hrow => ?_, ?_⟩
  · rw [hsame]
    exact hstep className source (hclasses ▸ hrow)
  · unfold Store.KeepsClasses
    rw [hclasses]
    exact hkeeps

/-! ## One build -/

/-- What a build of a source tree may rely on: the tools leave the store alone, the places of the
build do not overlap, and the examiner reports sources that the build has found. -/
structure Tended (tools : Toolchain) (p : Places) (storeRoot output sourceTree : Path)
    (out : Location) (w : World) : Prop where
  drifts : tools.Drifts IsClassPlace fun _ => False
  plain : w.disk.PlainClasses
  store_eq : storeFor storeRoot sourceTree w.cwd = p.storeAt
  laidOut : Store.isAt w.disk w.cwd p.storeAt = true → LaidOut p [] w
  opens : Store.isAt w.disk w.cwd p.storeAt = false →
    Layout w.disk w.cwd (Store.sites p.storeAt p.above p.name ++ [(output.absolute w.cwd, out)]) ∧
      ∀ target, w.disk.find? out ≠ some (.link target)
  unbroken : Text.Unbroken (sourceTree.absolute w.cwd).text
  found : ∀ t, (locate output sourceTree).on w = (.ok t, w) →
    (∀ source ∈ t.sources, Text.Unbroken source) ∧
      Reports tools (ClassFact.IsFound (sourceTree.absolute w.cwd) t.sources)

theorem mem_digests {d : Disk} {cwd : Location}
    (h : Changes.IsDigest d cwd t.sources.toList table) (hsource : source ∈ t.sources) :
    source ∈ table := by
  obtain ⟨bytes, -, htable⟩ := h.read source (Std.ExtTreeSet.mem_toList.2 hsource)
  exact (Table.mem_iff_exists_getElem? _ _).2 ⟨_, htable⟩

theorem mem_of_digests {d : Disk} {cwd : Location}
    (h : Changes.IsDigest d cwd t.sources.toList table) (hsource : source ∈ table) :
    source ∈ t.sources := by
  obtain ⟨digest, hdigest⟩ := (Table.mem_iff_exists_getElem? _ _).1 hsource
  by_contra hnot
  rw [h.other source fun hmem => hnot (Std.ExtTreeSet.mem_toList.1 hmem)] at hdigest
  cases hdigest

theorem prepared_hasStep (drifts : tools.Drifts IsClassPlace fun _ => False)
    (reports : Reports tools (ClassFact.IsFound t.sourceTree t.sources))
    (plain : w.disk.PlainClasses) (laidOut : LaidOut p [] w) (hq : Text.Unbroken t.sourceTree.text)
    (hsources : ∀ source ∈ t.sources, Text.Unbroken source)
    (hat : Store.isAt w.disk w.cwd p.storeAt = true) (h : HasStep p.storeAt w) :
    (prepare tools t p.storeAt).wp w
      (fun ready w₁ => (commit t.output ready).wp w₁
        (fun outcome w' => outcome ≠ .compileFailed → HasStep p.storeAt w') fun _ _ => True)
      fun _ _ => True := by
  refine ((prepare_underway (fun _ => id) drifts laidOut plain).and (prepare_readied reports)).mono
    (fun ready w₁ h₁ => ?_) fun _ _ _ => trivial
  obtain ⟨hunderway, store, table, affected, c, hreadied⟩ := h₁
  have hcommit := @commit_committed IsClassPlace p w w₁ t.output (fun _ => id) ready laidOut plain
    hunderway fun s hs => (hreadied.directory_eq hs).trans c.directory_eq
  obtain ⟨loaded, hload, hstep, hkeeps⟩ := h hat
  obtain rfl : loaded = store := by simpa using hload.symm.trans c.load
  have hunbroken (s : Store) (hs : ready.store? = some s) : s.Unbroken :=
    unbroken_of_readied (hreadied.mono fun facts hfacts fact hfact => (hfacts fact hfact).unbroken)
      (Store.unbroken_of_load c.load) (Store.load_sound c.load) hq hs
  have hsaved (s : Store) (hs : ready.store? = some s) (w' : World) (outcome : Outcome)
      (hend : Committed IsClassPlace p w ready outcome w') : HasStep p.storeAt w' := by
    have layout' := hend.drifted.layout laidOut.store_layout
      (by simp [Store.sites, Places.saving, Places.store, Places.beside])
    have hdigest : Changes.IsDigest w.disk w.cwd t.sources.toList s.sources := by
      rw [sources_of_readied hreadied hs]
      exact c.digest
    exact hasStep_of_filed (hend.filed s hs) layout' (hunbroken s hs) hdigest hsources
      (inStep_of_readied hstep hreadied (fun _ => mem_digests c.digest) hs)
      (keepsClasses_of_readied hreadied hkeeps hs)
  cases ready with
  | nothing =>
    refine commit_nothing.mono (fun _ w' h' _ => ?_) fun _ _ => False.elim
    exact h.of_leavesStore (.of_view (h'.trans hunderway))
  | rejected => exact (Action.wp_pure _).2 fun hne => absurd rfl hne
  | pruned s stale =>
    exact hcommit.mono (fun outcome w' hend _ => hsaved s rfl w' outcome hend) fun _ _ _ => trivial
  | compiled ws s stale produced count =>
    exact hcommit.mono (fun outcome w' hend _ => hsaved s rfl w' outcome hend) fun _ _ _ => trivial

theorem full_hasStep (drifts : tools.Drifts IsClassPlace fun _ => False)
    (reports : Reports tools (ClassFact.IsFound t.sourceTree t.sources))
    (layout : Layout w.disk w.cwd (Store.sites p.storeAt p.above p.name ++ [(t.output, out)]))
    (hlink : ∀ target, w.disk.find? out ≠ some (.link target)) (plain : w.disk.PlainClasses)
    (hq : Text.Unbroken t.sourceTree.text) (hsources : ∀ source ∈ t.sources, Text.Unbroken source) :
    (full tools t p.storeAt).wp w
      (fun outcome w' => outcome ≠ .compileFailed → HasStep p.storeAt w') fun _ _ => True := by
  refine (full_completed drifts reports layout hlink plain).mono (fun outcome w' h hne => ?_)
    fun _ _ _ => trivial
  obtain ⟨hdrifted, w₁, all, -, hall, -, hend⟩ := h
  obtain ⟨facts, hfacts, hfiled⟩ := hend.resolve_left hne
  rw [changed_between_empty] at hfiled
  have layout' := (hdrifted.layout layout
    (by simp [Store.sites, Places.saving, Places.store, Places.beside])).sublist
      (List.sublist_append_left _ _)
  have hdigest : Changes.IsDigest w₁.disk w₁.cwd t.sources.toList
      (begun p.storeAt t.sourceTree all facts).sources := by
    rw [sources_begun]
    exact hall
  exact hasStep_of_filed hfiled layout'
    (unbroken_begun _ _ hq fun fact hfact => (hfacts fact hfact).unbroken) hdigest hsources
    (inStep_begun all hfacts fun _ => mem_digests hall) (keepsClasses_begun all hfacts)

/-- A build that succeeds leaves a store in step if it found one or none. -/
theorem Tended.run_hasStep (tended : Tended tools p storeRoot output sourceTree out w)
    (h : HasStep p.storeAt w) :
    (run tools storeRoot output sourceTree).wp w
      (fun outcome w' => outcome ≠ .compileFailed → HasStep p.storeAt w') fun _ _ => True := by
  obtain ⟨drifts, plain, hstore, hlaidOut, hopens, hq, hfound⟩ := tended
  refine run_wp (fun _ => trivial) (fun _ _ _ w' hquiet _ => h.of_leavesStore (.of_view hquiet.view))
    (fun t hlocate _ hat w₁ hquiet => ?_) fun t hlocate hat w₁ hquiet => ?_
  all_goals
    rw [hstore] at hat ⊢
    obtain ⟨-, houtput, htree⟩ := locate_quiet.of_ok hlocate
    obtain ⟨hsources, reports⟩ := hfound t hlocate
    rw [← htree] at hq reports
  · obtain ⟨layout, hlink⟩ := hopens hat
    rw [← houtput, ← hquiet.disk, ← hquiet.cwd] at layout
    exact full_hasStep drifts reports layout (hquiet.disk ▸ hlink) (hquiet.disk ▸ plain) hq hsources
  · refine prepared_hasStep drifts reports (hquiet.disk ▸ plain) ((hlaidOut hat).of_quiet hquiet) hq
      hsources ?_ (h.of_leavesStore (.of_view hquiet.view))
    rw [hquiet.disk, hquiet.cwd, hat]

/-- The compiler is called for sources that the build has found. -/
def CompilesFound (output sourceTree : Path) (w : World) (sources : List String) (_ _ : Path)
    (_ : Disk) : Prop :=
  ∃ t, (locate output sourceTree).on w = (.ok t, w) ∧ ∀ source ∈ sources, source ∈ t.sources

/-- From a store in step, however a build ends, it compiles only sources that it has found. -/
theorem run_compilesFound (record : tools.LeavesRecord)
    (h : HasStep (storeFor storeRoot sourceTree w.cwd) w) :
    (run tools storeRoot output sourceTree).wp w
      (fun _ => Compiles (CompilesFound output sourceTree w) w)
      fun _ => Compiles (CompilesFound output sourceTree w) w := by
  refine run_wp (fun _ => (Examines.of_eq rfl).compiles)
    (fun _ _ _ w₁ hquiet => (Examines.of_eq hquiet.calls).compiles)
    (fun t hlocate _ _ w₁ hquiet => ?_) fun t hlocate hat w₁ hquiet => ?_
  · have hleft : (Directory.clean t.output).wp w₁ (fun _ _ => True) fun _ _ => True :=
      Action.wp_of_forall (fun _ _ => trivial) fun _ _ => trivial
    have hall (sources : List String) (classpath destination : Path) (before : Disk)
        (h : CompilesAll t (fun _ => True) sources classpath destination before) :
        CompilesFound output sourceTree w sources classpath destination before := by
      obtain ⟨rfl, -⟩ := h
      exact ⟨t, hlocate, fun source => Std.ExtTreeSet.mem_toList.1⟩
    exact (full_calls record (fun _ => True) hleft).mono
      (fun _ _ hcalls => hcalls.of_quiet hquiet hall) fun _ _ hcalls => hcalls.of_quiet hquiet hall
  · obtain ⟨store, hload, hstep, -⟩ := h hat
    have hplanned (sources : List String) (classpath destination : Path) (before : Disk)
        (hcalls : CallsPlanned w₁ t (storeFor storeRoot sourceTree w.cwd) sources classpath
          destination before) :
        CompilesFound output sourceTree w sources classpath destination before := by
      obtain ⟨store', table, affected, c, new, called, hcall⟩ := hcalls
      have c' := c.of_quiet hquiet
      obtain rfl : store = store' := by simpa using hload.symm.trans c'.load
      refine ⟨t, hlocate, fun source hsource => mem_of_digests c.digest ?_⟩
      rw [called.sources_eq hcall, Std.ExtTreeSet.mem_toList] at hsource
      exact mem_of_recompile hstep c.affected (Store.load_sound c.load) hsource
    have hspec : (incremental tools t (storeFor storeRoot sourceTree w.cwd)).wp w₁
        (fun _ => Compiles (CompilesFound output sourceTree w) w)
        fun _ => Compiles (CompilesFound output sourceTree w) w :=
      (incremental_planned record).mono (fun _ _ hcalls => hcalls.of_quiet hquiet hplanned)
        fun _ _ hcalls => hcalls.of_quiet hquiet hplanned
    unfold incremental at hspec
    rwa [Action.wp_bind] at hspec

/-! ## Any number of builds -/

/-- What may have happened to a source tree: it began with a store in step or with none; other
things were done and left the store alone; it was built, each time by any tools that may be relied
on. -/
inductive History (storeRoot output sourceTree : Path) (p : Places) (out : Location) : World → Prop
  | begin {w : World} (hstore : storeFor storeRoot sourceTree w.cwd = p.storeAt)
      (h : HasStep p.storeAt w) : History storeRoot output sourceTree p out w
  | aside {w w' : World} (h : History storeRoot output sourceTree p out w)
      (hleaves : LeavesStore p.storeAt w w') : History storeRoot output sourceTree p out w'
  | built {w w' : World} {tools : Toolchain} {outcome : Outcome}
      (h : History storeRoot output sourceTree p out w)
      (tended : Tended tools p storeRoot output sourceTree out w)
      (hrun : (run tools storeRoot output sourceTree).on w = (.ok outcome, w'))
      (houtcome : outcome ≠ .compileFailed) : History storeRoot output sourceTree p out w'

namespace History

variable (h : History storeRoot output sourceTree p out w)

include h

theorem hasStep : HasStep p.storeAt w := by
  induction h with
  | begin _ h => exact h
  | aside _ hleaves ih => exact ih.of_leavesStore hleaves
  | built _ tended hrun houtcome ih => exact (tended.run_hasStep ih).of_ok hrun houtcome

/-- The store is looked for at the same place all the time. -/
theorem storeFor_eq : storeFor storeRoot sourceTree w.cwd = p.storeAt := by
  induction h with
  | begin hstore _ => exact hstore
  | aside _ hleaves ih => rw [hleaves.cwd, ih]
  | built _ tended hrun _ ih =>
    have hdrifted := run_drifted (fun _ => id) tended.drifts tended.plain tended.store_eq
      tended.laidOut tended.opens
    rw [(hdrifted.of_ok hrun).cwd, ih]

end History

/-- Whatever has happened, as long as the examiner reports sources that were found: if there is a
store, each of its classes is in one of its sources, and the next build, however it ends, compiles
only sources that it has found. -/
theorem sources_in_step {result : Except Failure Outcome} (record : tools.LeavesRecord)
    (history : History storeRoot output sourceTree p out w)
    (hrun : (run tools storeRoot output sourceTree).on w = (result, w')) :
    (Store.isAt w.disk w.cwd p.storeAt = true →
      ∃ s, (Store.load p.storeAt).on w = (.ok s, w) ∧ s.InStep) ∧
      Compiles (CompilesFound output sourceTree w) w w' := by
  have hstep := history.hasStep
  refine ⟨fun hat => ?_, ?_⟩
  · obtain ⟨s, hload, hin, -⟩ := hstep hat
    exact ⟨s, hload, hin⟩
  · rw [← history.storeFor_eq] at hstep
    have hspec := @run_compilesFound tools w storeRoot output sourceTree record hstep
    cases result with
    | ok outcome => exact hspec.of_ok hrun
    | error f => exact hspec.of_error hrun

theorem newSource_hasStep : HasStep newSourcePlaces.storeAt newSource := by
  intro _
  obtain ⟨store, hload, hempty⟩ := newSource_load
  have hnone (className source : String) : store.classes[className]? ≠ some source := by
    simp [hempty]
  exact ⟨store, storeFor_newSource ▸ hload, fun className source hrow => absurd hrow (hnone _ _),
    fun row hrow => absurd (Store.mem_toList_iff.1 hrow) (hnone _ _)⟩

theorem newSource_tended :
    Tended oneClass newSourcePlaces ⟨"/meta"⟩ ⟨"/out"⟩ ⟨"/src"⟩ ["out"] newSource := by
  have hsource : Path.absolute ⟨"/src"⟩ newSource.cwd = ⟨"/src"⟩ := by decide
  have hat : Store.isAt newSource.disk newSource.cwd newSourcePlaces.storeAt = true :=
    storeFor_newSource ▸ newSource_isAt
  refine ⟨oneClass_drifts (by simp), fun l _ => newSource_ne_link l, storeFor_newSource,
    fun _ => newSource_laidOut.sublist (List.nil_sublist _), by simp [hat], by decide,
    fun t hlocate => ⟨fun source hmem => ?_, fun _ _ => (Action.wp_pure _).2 fun fact hfact => ?_⟩⟩
  · rw [(newSource_hasEmptySource.mem_sources hlocate source).1 hmem]
    decide
  · obtain rfl := List.mem_singleton.1 hfact
    rw [hsource]
    exact ⟨⟨by decide, by decide, by simp⟩, (newSource_hasEmptySource.mem_sources hlocate _).2 (by decide), by decide⟩

theorem sources_in_step_newSource :
    ∃ w', (run oneClass ⟨"/meta"⟩ ⟨"/out"⟩ ⟨"/src"⟩).on newSource = (.ok (.compiled 1), w') ∧
      ∀ result w'', (run oneClass ⟨"/meta"⟩ ⟨"/out"⟩ ⟨"/src"⟩).on w' = (result, w'') →
        (Store.isAt w'.disk w'.cwd newSourcePlaces.storeAt = true →
          ∃ s, (Store.load newSourcePlaces.storeAt).on w' = (.ok s, w') ∧ s.InStep) ∧
        Compiles (CompilesFound ⟨"/out"⟩ ⟨"/src"⟩ w') w' w'' := by
  have hcompiled := newSource_compiled
  rcases hrun : (run oneClass ⟨"/meta"⟩ ⟨"/out"⟩ ⟨"/src"⟩).on newSource with ⟨f | outcome, w'⟩
  · rw [hrun] at hcompiled
    cases hcompiled
  simp only [hrun, beq_iff_eq] at hcompiled
  subst hcompiled
  have history : History ⟨"/meta"⟩ ⟨"/out"⟩ ⟨"/src"⟩ newSourcePlaces ["out"] w' :=
    .built (.begin storeFor_newSource newSource_hasStep) newSource_tended hrun (by simp)
  exact ⟨w', rfl, fun result w'' hagain => sources_in_step (writing_leavesRecord _ _) history hagain⟩

end Build

end Recompile
