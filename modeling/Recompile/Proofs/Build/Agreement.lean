import Recompile.Proofs.Build.Built

/-!
# Builds that agree with a clean build

Whatever has happened to a source tree, as long as the store and the output directory are left alone
between the builds, the next build agrees with a clean build of the same sources, but for one thing:
it may accept what the clean build rejects. It does so exactly if a source without a class uses a name
that is not declared, because such a source leaves no class file for the examiner to tell of, and so
it is not compiled again when what it uses is gone.
-/

namespace Recompile.Build

open Directory Disk Staging World

attribute [local irreducible] Action.wp scratchName

namespace Setting

variable {σ : Setting} {g : SourceLanguage} {tools : Toolchain} {c c₀ : Contents}
  {corpus : Set ByteArray} {w w₁ w' : World} {t : Target} {outcome : Outcome}

/-- What a build may rely on: its places, the output directory and the source tree do not overlap,
and these are the contents of the sources that it finds. -/
structure Sees (σ : Setting) (g : SourceLanguage) (corpus : Set ByteArray) (c : Contents)
    (w : World) : Prop where
  store_eq : storeFor σ.storeRoot σ.sourceTree w.cwd = σ.places.storeAt
  laidOut : LaidOut σ.places [(σ.output.absolute w.cwd, σ.out)] w
  leads : Leads (w.disk.eraseAll [σ.out]) w.cwd (σ.sourceTree.absolute w.cwd) σ.tree
  apart : Location.Apart σ.tree σ.out
  plain : w.disk.PlainClasses
  plain_output : ∀ m : Location, σ.out.covers m = true → ∀ target, w.disk.find? m ≠ some (.link target)
  plain_store : Store.Unlinked w.disk σ.places.store
  contents : ∀ t, (locate σ.output σ.sourceTree).on w = (.ok t, w) →
    c.AreRead w.disk w.cwd t.sources.toList
  wellFormed : g.WellFormed corpus c
  tells : g.TellsAll c (σ.sourceTree.absolute w.cwd)

/-- What a build of the sources comes to. -/
structure Comes (σ : Setting) (g : SourceLanguage) (corpus : Set ByteArray) (c : Contents)
    (w : World) (outcome : Outcome) (w' : World) : Prop where
  keeps : σ.Keeps g corpus w'
  empty : outcome = .noSources → ∀ source, c source = none
  accepted : (∀ source, g.Accepts c source) → outcome.success = true
  built : outcome.success = true → outcome ≠ .noSources → σ.IsBuilt g c w'
  clean : Store.isAt w.disk w.cwd σ.places.storeAt = false → outcome.success = true →
    ∀ source, g.Accepts c source

/-! ## One build -/

theorem empty_iff (are : c.AreRead w.disk w.cwd t.sources.toList) :
    t.sources.isEmpty = true ↔ ∀ source, c source = none := by
  have hsome (source : String) : c source = none ↔ source ∉ t.sources := by
    rw [← Option.not_isSome_iff_eq_none, are.isSome_iff, Std.ExtTreeSet.mem_toList]
  simp only [hsome, Std.ExtTreeSet.isEmpty_iff]
  constructor
  · rintro hempty source
    rw [hempty]
    exact Std.ExtTreeSet.not_mem_empty
  · intro hnone
    ext source
    exact iff_of_false (hnone source) Std.ExtTreeSet.not_mem_empty

/-- Nothing is accepted or rejected where there are no sources. -/
theorem accepts_of_empty (hnone : ∀ source, c source = none) (source : String) :
    g.Accepts c source := by
  refine ⟨?_, ?_⟩
  · rintro ⟨content, hcontent, -⟩
    rw [hnone] at hcontent
    cases hcontent
  · rintro name ⟨content, hcontent, -⟩
    rw [hnone] at hcontent
    cases hcontent

/-- Without sources a build says so. -/
theorem Sees.noSources (sees : σ.Sees g corpus c w) (hnone : ∀ source, c source = none)
    (hrun : (run tools σ.storeRoot σ.output σ.sourceTree).on w = (.ok outcome, w')) :
    outcome = .noSources := by
  rcases hlocate : (locate σ.output σ.sourceTree).on w with ⟨f | t, w₁⟩
  · rw [run, Action.on_bind, survey, Action.on_bind, hlocate] at hrun
    cases hrun
  obtain ⟨rfl, -⟩ := locate_quiet.of_ok hlocate
  obtain ⟨w₂, hrun'⟩ := @run_noSources tools w₁ t σ.storeRoot σ.output σ.sourceTree hlocate
    ((empty_iff (sees.contents t hlocate)).2 hnone)
  exact Except.ok.inj (congrArg Prod.fst (hrun.symm.trans hrun'))

/-- If the sources are those of the last success, there is nothing to do. -/
theorem Sees.upToDate (sees : σ.Sees g corpus c w) (hbuilt : σ.IsBuilt g c w)
    (hlocate : (locate σ.output σ.sourceTree).on w = (.ok t, w))
    (hsome : ∃ source, (c source).isSome) :
    ∃ w', (run tools σ.storeRoot σ.output σ.sourceTree).on w = (.ok .upToDate, w') := by
  have are := sees.contents t hlocate
  have hsources : t.sources.isEmpty = false := by
    rw [Bool.eq_false_iff, Ne, empty_iff are]
    intro hnone
    obtain ⟨source, hsource⟩ := hsome
    simp [hnone] at hsource
  obtain ⟨s, hcurrent⟩ := hbuilt.isCurrent are
  rw [← sees.store_eq] at hcurrent
  obtain ⟨w', hrun, -⟩ := hcurrent.run_upToDate hlocate hsources
  exact ⟨w', hrun⟩

theorem Comes.of_rejected (hfailed : outcome = .compileFailed)
    (hrejects : ¬∀ source, g.Accepts c source) (keeps : σ.Keeps g corpus w') :
    σ.Comes g corpus c w outcome w' := by
  subst hfailed
  exact ⟨keeps, by simp, fun hall => absurd hall hrejects, by simp [Outcome.success],
    by simp [Outcome.success]⟩

/-- A build without a store. -/
theorem Sees.full_comes (sees : σ.Sees g corpus c w) (speaks : tools.Speaks g)
    (hlocate : (locate σ.output σ.sourceTree).on w = (.ok t, w))
    (hat : Store.isAt w.disk w.cwd σ.places.storeAt = false) (hquiet : w.Quiet w₁) :
    (full tools t σ.places.storeAt).wp w₁ (σ.Comes g corpus c w) fun _ _ => True := by
  obtain ⟨-, houtput, htree⟩ := locate_quiet.of_ok hlocate
  have wf := sees.wellFormed
  have are := sees.contents t hlocate
  have tells := sees.tells
  have hleads := sees.leads
  have unchanged : w.Drifted IsClassPlace [σ.out] w := .refl sees.laidOut.tree
  have hmem := (located_of_locate sees.laidOut.tree (unchanged.leads hleads) hlocate).mem
  have laidOut := sees.laidOut.of_quiet hquiet
  have hlink := sees.plain_output σ.out (Location.covers_self σ.out)
  have unlinked := sees.plain_store
  rw [← htree] at tells hleads hmem
  rw [← houtput] at laidOut
  rw [← hquiet.disk, ← hquiet.cwd] at hleads are hat
  rw [← hquiet.disk] at hmem hlink unlinked
  have hare (w₂ : World) (h : Emptied σ.out w₁ w₂) : c.AreRead w₂.disk w₂.cwd t.sources.toList :=
    areRead_of_emptied laidOut.tree hleads sees.apart hmem are h
  refine (full_builds speaks (laidOut.layout [] .nil) hlink unlinked (hquiet.disk ▸ sees.plain) hat
    hare wf tells).mono (fun outcome w' h => ?_) fun _ _ _ => trivial
  rcases h with ⟨hfailed, hrejects, hnot⟩ | ⟨⟨n, rfl⟩, haccepts, hbuilt⟩
  · exact .of_rejected hfailed hrejects fun hat' => absurd hat' (by simp [hnot])
  · exact ⟨hbuilt.keeps wf, by simp, fun _ => rfl, fun _ _ => hbuilt, fun _ _ => haccepts⟩

/-- A build with a store. -/
theorem Sees.incremental_comes (sees : σ.Sees g corpus c w) (speaks : tools.Speaks g)
    (collisions : Set.InjOn Sha256.hex corpus)
    (hlocate : (locate σ.output σ.sourceTree).on w = (.ok t, w))
    (hat : Store.isAt w.disk w.cwd σ.places.storeAt = true) (wf₀ : g.WellFormed corpus c₀)
    (hbuilt : σ.IsBuilt g c₀ w) (hquiet : w.Quiet w₁) :
    (prepare tools t σ.places.storeAt).wp w₁
      (fun ready w₂ => (commit t.output ready).wp w₂ (σ.Comes g corpus c w) fun _ _ => True)
      fun _ _ => True := by
  obtain ⟨-, houtput, htree⟩ := locate_quiet.of_ok hlocate
  have wf := sees.wellFormed
  have are := sees.contents t hlocate
  have tells := sees.tells
  have laidOut := sees.laidOut.sublist (List.nil_sublist _)
  have outside := OpensOutside.of_laidOut sees.laidOut sees.plain_output
  have hbuilt₁ := hbuilt.of_leaves (.of_view hquiet.view)
  rw [← htree] at tells
  rw [← houtput] at outside
  rw [← hquiet.disk, ← hquiet.cwd] at are
  refine (prepared_rebuilds speaks collisions (laidOut.of_quiet hquiet) (outside.of_quiet hquiet)
    (hquiet.disk ▸ sees.plain) hbuilt₁ wf₀ wf are tells).mono (fun ready w₂ h₂ => ?_)
    fun _ _ _ => trivial
  refine h₂.mono (fun outcome w' h => ?_) fun _ _ _ => trivial
  rcases h with ⟨hfailed, hrejects, hview⟩ | ⟨houtcome, hbuilt'⟩
  · exact .of_rejected hfailed hrejects (hbuilt₁.keeps wf₀ |>.of_leaves (.of_view hview))
  · refine ⟨hbuilt'.keeps wf, ?_, fun _ => ?_, fun _ _ => hbuilt', by simp [hat]⟩ <;>
      rcases houtcome with rfl | ⟨n, rfl⟩ <;> simp [Outcome.success]

theorem run_comes (speaks : tools.Speaks g) (collisions : Set.InjOn Sha256.hex corpus)
    (sees : σ.Sees g corpus c w) (keeps : σ.Keeps g corpus w) :
    (run tools σ.storeRoot σ.output σ.sourceTree).wp w (σ.Comes g corpus c w) fun _ _ => True := by
  refine run_wp (fun _ => trivial) (fun t hlocate hsources w₁ hquiet => ?_)
    (fun t hlocate _ hat w₁ hquiet => ?_) fun t hlocate hat w₁ hquiet => ?_
  · have hnone := (empty_iff (sees.contents t hlocate)).1 hsources
    exact ⟨keeps.of_leaves (.of_view hquiet.view), fun _ => hnone, fun _ => rfl, by simp,
      fun _ _ => accepts_of_empty hnone⟩
  · rw [sees.store_eq] at hat ⊢
    exact sees.full_comes speaks hlocate hat hquiet
  · rw [sees.store_eq] at hat ⊢
    obtain ⟨c₀, wf₀, hbuilt⟩ := keeps hat
    exact sees.incremental_comes speaks collisions hlocate hat wf₀ hbuilt hquiet

/-- A build that fails before the point of no return has changed nothing. -/
theorem view_of_survey_error {f : Failure} (speaks : tools.Speaks g) (sees : σ.Sees g corpus c w)
    (keeps : σ.Keeps g corpus w)
    (hsurvey : (survey tools σ.storeRoot σ.output σ.sourceTree).on w = (.error f, w')) :
    w'.view = w.view := by
  cases hat : Store.isAt w.disk w.cwd σ.places.storeAt with
  | true =>
    obtain ⟨c₀, wf₀, hbuilt⟩ := keeps hat
    have hproper := hbuilt.hasProperClasses wf₀
    rw [← sees.store_eq] at hproper
    exact (survey_surveyed speaks.staysInside sees.laidOut.tree hproper).of_error hsurvey
  | false =>
    -- without a store only locating the sources can fail
    rcases hlocate : (locate σ.output σ.sourceTree).on w with ⟨f' | t, w₁⟩
    · rw [survey, Action.on_bind, hlocate] at hsurvey
      cases hsurvey
      rw [locate_quiet.of_error hlocate]
    · cases hsources : t.sources.isEmpty with
      | true =>
        rw [survey, Action.on_bind, hlocate] at hsurvey
        dsimp only at hsurvey
        rw [if_pos hsources] at hsurvey
        cases hsurvey
      | false =>
        rw [← sees.store_eq] at hat
        obtain ⟨w₂, hfull⟩ := @survey_of_locate tools w σ.storeRoot σ.output σ.sourceTree t w₁ hlocate
          hsources hat
        rw [hfull] at hsurvey
        cases hsurvey

/-- A store in which nothing is recorded is built from no sources, if no files are in the output
directory. -/
theorem keeps_of_new (hload : (Store.load σ.places.storeAt).on w = (.ok (.new σ.places.storeAt), w))
    (hempty : ∀ names, w.disk.fileAt (σ.out ++ names) = none) : σ.Keeps g corpus w := by
  have hnone (className : String) : ¬g.Declared (fun _ => none) className := by
    rintro ⟨source, content, hcontent, -⟩
    cases hcontent
  refine fun hat => ⟨fun _ => none, ⟨?_, ⟨?_, ?_⟩, ?_, by simp⟩, hat, ⟨_, hload, ?_⟩,
    SourceLanguage.holdsClasses_of_none hnone hempty,
    SourceLanguage.settled_of_accepts (accepts_of_empty fun _ => rfl)⟩
  · exact fun className source _ hdeclares _ => absurd ⟨source, hdeclares⟩ (hnone className)
  · exact fun className hdeclared => absurd hdeclared (hnone className)
  · rintro source name ⟨content, hcontent, -⟩
    cases hcontent
  · exact fun className hdeclared => absurd hdeclared (hnone className)
  · exact .of_none hnone (fun source => by simp [Store.new]) rfl rfl

/-! ## Any number of builds -/

/-- What may have happened to a source tree: it began without a store, or with one that was built; it
was edited, and the store and the output directory were left alone; it was built, each time by any
tools that speak the language, and the build ended or failed before it changed anything. -/
inductive History (σ : Setting) (g : SourceLanguage) (corpus : Set ByteArray) : World → Prop
  | begin {w : World} (h : σ.Keeps g corpus w) : History σ g corpus w
  | edited {w w' : World} (h : History σ g corpus w) (hleaves : σ.Leaves w w') :
    History σ g corpus w'
  | built {w w' : World} {tools : Toolchain} {c : Contents} {outcome : Outcome}
    (h : History σ g corpus w) (speaks : tools.Speaks g) (sees : σ.Sees g corpus c w)
    (hrun : (run tools σ.storeRoot σ.output σ.sourceTree).on w = (.ok outcome, w')) :
    History σ g corpus w'
  | failed {w w' : World} {tools : Toolchain} {c : Contents} {f : Failure}
    (h : History σ g corpus w) (speaks : tools.Speaks g) (sees : σ.Sees g corpus c w)
    (hsurvey : (survey tools σ.storeRoot σ.output σ.sourceTree).on w = (.error f, w')) :
    History σ g corpus w'

theorem History.keeps (h : σ.History g corpus w) (collisions : Set.InjOn Sha256.hex corpus) :
    σ.Keeps g corpus w := by
  induction h with
  | begin h => exact h
  | edited _ hleaves ih => exact ih.of_leaves hleaves
  | built _ speaks sees hrun ih => exact ((run_comes speaks collisions sees ih).of_ok hrun).keeps
  | failed _ speaks sees hsurvey ih =>
    exact ih.of_leaves (.of_view (view_of_survey_error speaks sees ih hsurvey))

end Setting

open Setting

variable {σ σ' : Setting} {g : SourceLanguage} {tools tools' : Toolchain} {c : Contents}
  {corpus : Set ByteArray} {w w' v v' : World} {outcome clean : Outcome}

/-- Whatever has happened, the next build agrees with a clean build of the same sources, which may be
done anywhere. If the clean build succeeds, so does the other one, and the stores and the files in
the output directories are the same. If the other one succeeds, the clean build does so exactly if the
sources without a class use only names that are declared. -/
theorem agrees_with_clean (collisions : Set.InjOn Sha256.hex corpus) (speaks : tools.Speaks g)
    (speaks' : tools'.Speaks g) (history : σ.History g corpus w) (sees : σ.Sees g corpus c w)
    (hrun : (run tools σ.storeRoot σ.output σ.sourceTree).on w = (.ok outcome, w'))
    (sees' : σ'.Sees g corpus c v) (hnot : Store.isAt v.disk v.cwd σ'.places.storeAt = false)
    (hclean : (run tools' σ'.storeRoot σ'.output σ'.sourceTree).on v = (.ok clean, v')) :
    (outcome = .noSources ↔ clean = .noSources) ∧
      (clean.success = true → outcome.success = true) ∧
      (outcome.success = true → (clean.success = true ↔
        ∀ source, (¬∃ className, g.Declares c source className) → g.Resolves c source)) ∧
      (clean.success = true → clean ≠ .noSources →
        (∃ s s', (Store.load σ.places.storeAt).on w' = (.ok s, w') ∧
          (Store.load σ'.places.storeAt).on v' = (.ok s', v') ∧ s.Agrees s') ∧
        ∀ names, w'.disk.fileAt (σ.out ++ names) = v'.disk.fileAt (σ'.out ++ names)) := by
  have comes := (run_comes speaks collisions sees (history.keeps collisions)).of_ok hrun
  have comes' := (run_comes speaks' collisions sees' fun hat => absurd hat (by simp [hnot])).of_ok hclean
  have hempty : outcome = .noSources ↔ ∀ source, c source = none :=
    ⟨comes.empty, fun hnone => sees.noSources hnone hrun⟩
  have hempty' : clean = .noSources ↔ ∀ source, c source = none :=
    ⟨comes'.empty, fun hnone => sees'.noSources hnone hclean⟩
  have haccepts : clean.success = true ↔ ∀ source, g.Accepts c source :=
    ⟨comes'.clean hnot, comes'.accepted⟩
  have hsame : outcome = .noSources ↔ clean = .noSources := hempty.trans hempty'.symm
  refine ⟨hsame, fun h => comes.accepted (haccepts.1 h), fun h => ?_, fun h hne => ?_⟩
  · rw [haccepts]
    refine SourceLanguage.Settled.accepts_iff ?_
    by_cases hnone : outcome = .noSources
    · exact SourceLanguage.settled_of_accepts (accepts_of_empty (hempty.1 hnone))
    · exact (comes.built h hnone).settled
  · have built := comes.built (comes.accepted (haccepts.1 h)) fun hnone => hne (hsame.1 hnone)
    have built' := comes'.built h hne
    obtain ⟨s, hload, describes⟩ := built.store
    obtain ⟨s', hload', describes'⟩ := built'.store
    refine ⟨⟨s, s', hload, hload', describes.agrees describes'⟩, fun names => Option.ext fun bytes => ?_⟩
    rw [built.classes names bytes, built'.classes names bytes]

/-! ## One source -/

/-- The builds of `/src` into `/out`. -/
def sourceSetting : Setting := ⟨⟨"/meta"⟩, ⟨"/out"⟩, ⟨"/src"⟩, newSourcePlaces, ["out"], ["src"]⟩

/-- In this language every source declares these classes and uses these names. -/
def uniform (declares uses : Names) : SourceLanguage where
  read _ _ := ⟨false, declares, uses⟩
  classFile _ _ _ := .empty
  tell _ := ⟨"A", ⟨"A.java"⟩, uses⟩

variable {declares uses : Names}

/-- The contents of an empty source in `/src`. -/
def emptyContents : Contents := fun source => if source = "/src/A.java" then some .empty else none

theorem emptyContents_eq_some_iff {source : String} {content : ByteArray} :
    emptyContents source = some content ↔ source = "/src/A.java" ∧ content = .empty := by
  unfold emptyContents
  split_ifs with h <;> simp [h, eq_comm]

theorem uniform_wellFormed (hdeclares : ∀ name ∈ declares, name = "A") (huses : ∀ name ∈ uses, name = "X") :
    (uniform declares uses).WellFormed {.empty} emptyContents := by
  have hdeclared {className : String} (h : (uniform declares uses).Declared emptyContents className) :
      className = "A" := by
    obtain ⟨source, content, -, hmem⟩ := h
    exact hdeclares className hmem
  refine ⟨?_, ⟨fun className h => ?_, fun source name h => ?_⟩, fun className h => ?_,
    fun source content h => ?_⟩
  · rintro className source source' ⟨content, hcontent, -⟩ ⟨content', hcontent', -⟩
    rw [(emptyContents_eq_some_iff.1 hcontent).1, (emptyContents_eq_some_iff.1 hcontent').1]
  · rw [hdeclared h]
    decide
  · obtain ⟨content, -, hmem⟩ := h
    rw [huses name hmem]
    decide
  · rw [hdeclared h]
    exact ⟨⟨by decide, by decide⟩, by decide⟩
  · obtain ⟨rfl, rfl⟩ := emptyContents_eq_some_iff.1 h
    exact ⟨⟨by decide, by decide⟩, rfl⟩

namespace HasEmptySource

theorem areRead (h : HasEmptySource w) {t : Target}
    (hlocate : (locate ⟨"/out"⟩ ⟨"/src"⟩).on w = (.ok t, w)) :
    emptyContents.AreRead w.disk w.cwd t.sources.toList := by
  refine ⟨fun source hsource => ?_, fun source hsource => ?_⟩ <;>
    rw [Std.ExtTreeSet.mem_toList, h.mem_sources hlocate] at hsource
  · subst hsource
    exact ⟨.empty, h.readFile, rfl⟩
  · exact if_neg hsource

theorem laidOut (h : HasEmptySource w) :
    LaidOut newSourcePlaces [(Location.toPath ["out"], ["out"])] w := by
  have hne := Store.besideName_ne sourceKey
  refine laidOut_toPath [([], "out")] h.tree (fun _ _ top _ => h.ne_link top) h.temporary (by simp)
    isProper_sourceStore (by decide) (by decide) ?_
  simp [Location.Apart, Location.covers, List.isPrefixOf, hne, hne.symm]

theorem sees (h : HasEmptySource w) (hdeclares : ∀ name ∈ declares, name = "A")
    (huses : ∀ name ∈ uses, name = "X") :
    sourceSetting.Sees (uniform declares uses) {.empty} emptyContents w := by
  have hsource := h.absolute_eq
  have hout : Path.absolute ⟨"/out"⟩ w.cwd = Location.toPath ["out"] := by
    rw [h.cwd]
    decide
  have hleads := h.leads [["out"]] (by decide)
  refine ⟨?_, hout ▸ h.laidOut, hsource ▸ hleads, by decide, fun l _ => h.ne_link l,
    fun l _ => h.ne_link l, ⟨h.ne_link _, fun _ _ => h.ne_link _⟩, fun t => h.areRead,
    uniform_wellFormed hdeclares huses, ?_⟩
  · rw [h.cwd]
    exact (storeFor_source _).trans (push_sourceKey.trans toPath_sourceStore.symm)
  · intro source content className hcontent hmem
    have hjoin : (Path.join ⟨"/src"⟩ ⟨"A.java"⟩).text = "/src/A.java" := by decide
    rw [← hsource] at hjoin
    rw [(emptyContents_eq_some_iff.1 hcontent).1, hdeclares className hmem]
    exact ⟨rfl, hjoin, rfl⟩

end HasEmptySource

theorem emptySource_hasEmptySource : HasEmptySource emptySource :=
  .of_entries emptySource_tree (by decide) rfl (by decide) rfl

theorem fileAt_out_eq_none (h : w.disk.entries.all (fun e => !Location.covers ["out"] e.1) = true)
    (names : List String) : w.disk.fileAt (["out"] ++ names) = none := by
  rw [Option.eq_none_iff_forall_ne_some]
  intro bytes hbytes
  obtain ⟨runnable, hfind⟩ := fileAt_eq_some_iff.1 hbytes
  have hentry := List.all_eq_true.1 h _ ((find?_eq_some_iff _ (by simp)).1 hfind)
  rw [Location.covers_append] at hentry
  cases hentry

/-- The new source has a store in which nothing is recorded, and no class files. -/
theorem newSource_keeps (g : SourceLanguage) (corpus : Set ByteArray) :
    sourceSetting.Keeps g corpus newSource := by
  have hplace : sourceSetting.places.storeAt = sourceStore := toPath_sourceStore
  exact keeps_of_new (hplace ▸ newSource_hasEmptyStore.load) (fileAt_out_eq_none (by decide))

theorem emptySource_no_store :
    Store.isAt emptySource.disk emptySource.cwd sourceStore = false :=
  push_sourceKey ▸ emptySource_not_isAt isName_sourceKey

/-- The source with its class is compiled, with a store and without. -/
theorem uniform_compiled :
    (match (run (uniform (.ofList ["A"]) ∅).toolchain ⟨"/meta"⟩ ⟨"/out"⟩ ⟨"/src"⟩).on newSource with
      | (.ok outcome, _) => outcome == .compiled 1
      | (.error _, _) => false) = true ∧
    (match (run (uniform (.ofList ["A"]) ∅).toolchain ⟨"/meta"⟩ ⟨"/out"⟩ ⟨"/src"⟩).on emptySource with
      | (.ok outcome, _) => outcome == .compiled 1
      | (.error _, _) => false) = true := by
  have speaks := SourceLanguage.speaks_toolchain (uniform (.ofList ["A"]) ∅)
  constructor
  · rw [newSource_hasEmptyStore.on_run_by (by decide) rfl speaks.staysInside]
    decide +kernel
  · have hout : Path.IsName "out" ∧ Path.push ⟨"/"⟩ "out" = ⟨"/out"⟩ := by decide
    rw [emptySource_on_run_by speaks.staysInside hout (by decide) (by decide)]
    decide +kernel

/-- The class of the new source comes out as in a clean build. -/
theorem agrees_with_clean_newSource :
    ∃ w' v', (run (uniform (.ofList ["A"]) ∅).toolchain ⟨"/meta"⟩ ⟨"/out"⟩ ⟨"/src"⟩).on newSource =
        (.ok (.compiled 1), w') ∧
      (run (uniform (.ofList ["A"]) ∅).toolchain ⟨"/meta"⟩ ⟨"/out"⟩ ⟨"/src"⟩).on emptySource =
        (.ok (.compiled 1), v') ∧
      (∃ s s', (Store.load sourceStore).on w' = (.ok s, w') ∧
        (Store.load sourceStore).on v' = (.ok s', v') ∧ s.Agrees s') ∧
      ∀ names, w'.disk.fileAt (["out"] ++ names) = v'.disk.fileAt (["out"] ++ names) := by
  obtain ⟨hcompiled, hcompiled'⟩ := uniform_compiled
  rcases hrun : (run (uniform (.ofList ["A"]) ∅).toolchain ⟨"/meta"⟩ ⟨"/out"⟩ ⟨"/src"⟩).on newSource
    with ⟨f | outcome, w'⟩
  · rw [hrun] at hcompiled
    cases hcompiled
  rcases hrun' : (run (uniform (.ofList ["A"]) ∅).toolchain ⟨"/meta"⟩ ⟨"/out"⟩ ⟨"/src"⟩).on emptySource
    with ⟨f | clean, v'⟩
  · rw [hrun'] at hcompiled'
    cases hcompiled'
  simp only [hrun, beq_iff_eq] at hcompiled
  simp only [hrun', beq_iff_eq] at hcompiled'
  subst hcompiled hcompiled'
  have hplace : sourceSetting.places.storeAt = sourceStore := toPath_sourceStore
  have hnot : Store.isAt emptySource.disk emptySource.cwd sourceSetting.places.storeAt = false := by
    rw [hplace]
    exact emptySource_no_store
  have speaks := SourceLanguage.speaks_toolchain (uniform (.ofList ["A"]) ∅)
  have history : sourceSetting.History (uniform (.ofList ["A"]) ∅) {.empty} newSource :=
    .begin (newSource_keeps _ _)
  have sees {w : World} (h : HasEmptySource w) :
      sourceSetting.Sees (uniform (.ofList ["A"]) ∅) {.empty} emptyContents w :=
    h.sees (by simp) (by simp)
  have hagrees := agrees_with_clean (Set.injOn_singleton _ _) speaks speaks history
    (sees newSource_hasEmptySource) hrun (sees emptySource_hasEmptySource) hnot hrun'
  rw [hplace] at hagrees
  obtain ⟨-, -, -, hsame⟩ := hagrees
  exact ⟨w', v', hrun, hrun', hsame rfl (by simp)⟩

/-- Only the digest of the source is recorded. -/
def recordedStore : Store :=
  { Store.new (Location.toPath (["meta"] ++ [sourceKey])) with
    sources := (∅ : Table).insert "/src/A.java" (Sha256.hex .empty) }

/-- The source was there at the last success, and it has no class. -/
def recordedSource : World :=
  let table (name : String) : Entry := .file ((recordedStore.contents name).getD .empty) false
  .start ⟨[(["src"], .directory), (["src", "A.java"], .file .empty false), (["tmp"], .directory),
    (["meta"], .directory), (["meta", sourceKey], .directory),
    (["meta", sourceKey, "classes.txt"], table "classes.txt"),
    (["meta", sourceKey, "sources.txt"], table "sources.txt"),
    (["meta", sourceKey, "deps.txt"], table "deps.txt")], by decide⟩ [] ∅

theorem recordedSource_hasEmptySource : HasEmptySource recordedSource :=
  .of_entries (isTree_of_isWellFormed (by decide)) (by decide) rfl (by decide) rfl

theorem recordedSource_filed :
    Filed IsClassPlace newSourcePlaces recordedStore recordedSource.disk := by
  have hne := Store.besideName_ne sourceKey
  have hplace : newSourcePlaces.storeAt = sourceStore := toPath_sourceStore
  have hempty := recordedSource_hasEmptySource
  refine ⟨⟨recordedSource.disk, hempty.tree, ⟨rfl, ?_, ?_⟩, ?_,
    fun _ _ => .inl rfl⟩, hplace ▸ check_sourceStore.2⟩
  · intro name bytes hname
    have hstored : recordedSource.disk.find? (newSourcePlaces.store ++ [name]) =
        some (.file ((recordedStore.contents name).getD .empty) false) := by
      unfold Store.contents Store.files at hname
      split_ifs at hname with hclasses hsources hedges
      · subst hclasses
        rfl
      · subst hsources
        rfl
      · subst hedges
        rfl
    exact ⟨false, by rw [hstored, hname, Option.getD_some]⟩
  · intro name hname
    have hnot : name ∉ Store.tableNames := fun hmem => by
      simp only [Store.tableNames, List.mem_cons, List.not_mem_nil, or_false] at hmem
      rcases hmem with rfl | rfl | rfl <;> cases hname
    simp only [Store.tableNames, List.mem_cons, List.not_mem_nil, or_false, not_or] at hnot
    rw [Option.eq_none_iff_forall_ne_some]
    intro e he
    have hentry := (find?_eq_some_iff _ (by simp)).1 he
    simp [recordedSource, World.start, newSourcePlaces, Places.store, hnot] at hentry
  · intro m hm
    rw [Option.eq_none_iff_forall_ne_some]
    intro e he
    obtain ⟨names, rfl⟩ := Location.covers_iff.1 hm
    have hentry := (find?_eq_some_iff _ (by simp [Places.beside])).1 he
    simp [recordedSource, World.start, newSourcePlaces, Places.beside, hne] at hentry

theorem uniform_not_declared (uses : Names) (className : String) :
    ¬(uniform ∅ uses).Declared emptyContents className := by
  rintro ⟨source, content, -, hmem⟩
  exact absurd hmem Std.ExtTreeSet.not_mem_empty

theorem recordedSource_isBuilt (uses : Names) (huses : ∀ name ∈ uses, name = "X") :
    sourceSetting.IsBuilt (uniform ∅ uses) emptyContents recordedSource := by
  have hnone := uniform_not_declared uses
  have hempty := recordedSource_hasEmptySource
  have layout := (hempty.laidOut.sublist (List.nil_sublist _)).store_layout
  have describes : (uniform ∅ uses).Describes emptyContents recordedStore := by
    refine .of_none hnone (fun source => ?_) rfl rfl
    simp only [recordedStore, Std.ExtTreeMap.getElem?_insert, Std.compare_eq_iff_eq, emptyContents]
    split_ifs with hkey hsource hsource
    · rfl
    · exact absurd hkey.symm hsource
    · exact absurd hsource.symm hkey
    · simp
  refine .of_filed recordedSource_filed layout describes (uniform_wellFormed (by simp) huses)
    (SourceLanguage.holdsClasses_of_none hnone (fileAt_out_eq_none (by decide)))
    fun source => ⟨?_, ?_⟩
  · rintro ⟨content, -, herroneous⟩
    cases herroneous
  · rintro ⟨className, hdeclares⟩
    exact absurd ⟨source, hdeclares⟩ (hnone className)

theorem uniform_rejected :
    (match (run (uniform ∅ (.ofList ["X"])).toolchain ⟨"/meta"⟩ ⟨"/out"⟩ ⟨"/src"⟩).on emptySource with
      | (.ok outcome, _) => outcome == .compileFailed
      | (.error _, _) => false) = true := by
  have hstore : storeFor ⟨"/meta"⟩ ⟨"/src"⟩ emptySource.cwd = Path.push ⟨"/meta"⟩ sourceKey :=
    storeFor_source _
  rw [on_run_of_not_isAt (hstore.trans push_sourceKey) emptySource_no_store]
  decide +kernel

/-- A source without a class that uses a class that is gone is not compiled again, while a clean build
rejects it. -/
theorem recordedSource_accepted :
    let g := uniform ∅ (.ofList ["X"])
    sourceSetting.History g {.empty} recordedSource ∧
      sourceSetting.Sees g {.empty} emptyContents recordedSource ∧
      sourceSetting.Sees g {.empty} emptyContents emptySource ∧
      (∃ w', (run g.toolchain ⟨"/meta"⟩ ⟨"/out"⟩ ⟨"/src"⟩).on recordedSource = (.ok .upToDate, w')) ∧
      ∃ v', (run g.toolchain ⟨"/meta"⟩ ⟨"/out"⟩ ⟨"/src"⟩).on emptySource = (.ok .compileFailed, v') := by
  intro g
  have huses : ∀ name ∈ (Std.ExtTreeSet.ofList ["X"] : Names), name = "X" := by simp
  have hempty := recordedSource_hasEmptySource
  have hbuilt := recordedSource_isBuilt _ huses
  have sees {w : World} (h : HasEmptySource w) : sourceSetting.Sees g {.empty} emptyContents w :=
    h.sees (by simp) huses
  obtain ⟨t, hlocate⟩ := hempty.exists_locate ⟨"/out"⟩
  have hrejected := uniform_rejected
  rcases hrun : (run g.toolchain ⟨"/meta"⟩ ⟨"/out"⟩ ⟨"/src"⟩).on emptySource with ⟨f | clean, v'⟩
  · rw [hrun] at hrejected
    cases hrejected
  rw [hrun] at hrejected
  obtain rfl := beq_iff_eq.1 hrejected
  exact ⟨.begin (hbuilt.keeps (uniform_wellFormed (by simp) huses)),
    sees hempty, sees emptySource_hasEmptySource,
    (sees hempty).upToDate hbuilt hlocate ⟨"/src/A.java", rfl⟩, v', rfl⟩

end Recompile.Build
