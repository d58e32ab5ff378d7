import Recompile.Proofs.Build.Calls
import Recompile.Proofs.Build.Survey
import Recompile.Proofs.Directory.Clean
import Recompile.Proofs.Store.Save

/-!
# Full builds that do not complete

A full build puts an empty store in place before it lists and examines the class files. What fails
before leaves no store, what fails after leaves the empty store, which the next build goes on from
as if it described the output directory.
-/

namespace Recompile.Build

open Disk World

attribute [local irreducible] Action.wp

variable {tools : Toolchain} {w : World} {t : Target} {storeAt : Path} {o k : Location}
  {name : String}

/-- Compiling into the directory that a path reaches. -/
theorem compile_reached (inside : tools.StaysInside) (sources : List String) (classpath : Path)
    {destination : Path} (tree : w.disk.IsTree) (hreach : w.disk.Reaches w.cwd destination o)
    (hdir : w.disk.find? o = some .directory) (hcheck : destination.check = .ok ()) :
    (Action.phase "compile" (tools.runCompiler sources classpath destination)).wp w
      (fun _ w' => w.Touched o w' ∧ w'.disk.find? o = some .directory)
      fun _ w' => w.Touched o w' ∧ w'.disk.find? o = some .directory := by
  have hresolve : w.disk.resolve w.cwd true destination = .ok o :=
    hreach.resolve_of_find? tree hcheck hdir (by simp)
  have hdone (w' : World) (h : w.Bounded o w') :
      w.Touched o w' ∧ w'.disk.find? o = some .directory :=
    ⟨h.touched tree, (h.find? fun _ => rfl).trans hdir⟩
  exact (compile_bounded inside sources classpath hresolve hdir).mono (fun _ => hdone) fun _ => hdone

theorem compileAll_reached (inside : tools.StaysInside) (tree : w.disk.IsTree)
    (hreach : (w.disk.erase o).Reaches w.cwd t.output o)
    (hlink : ∀ target, w.disk.find? o ≠ some (.link target)) :
    (compileAll tools t).wp w
      (fun _ w' => w.Touched o w' ∧ w'.disk.find? o = some .directory)
      fun _ w' => w.Touched o w' := by
  unfold compileAll
  simp only [Action.wp_bind]
  have hclean := Directory.clean_reached tree hreach hlink
  refine hclean.mono (fun _ w₁ h₁ => ?_) fun _ _ h => h.1
  obtain ⟨htouched, ⟨hdir, -⟩, hcheck⟩ := h₁
  rw [Action.wp_phase]
  have hdetect := Changes.detect_reads (w := w₁) t.sources ∅
  refine hdetect.mono (fun changes w₂ h₂ => ?_) fun _ w₂ h => ?_
  · have hquiet : w₁.Quiet (w₂.traced "detect") := h₂.1.trans (quiet_traced w₂ _)
    have hcwd : (w₂.traced "detect").cwd = w.cwd := hquiet.cwd.trans htouched.cwd
    have hreach₂ : (w₂.traced "detect").disk.Reaches (w₂.traced "detect").cwd t.output o := by
      rw [hquiet.disk, hcwd]
      exact hreach.of_sameOutside htouched.outside
    have hcompile := compile_reached inside t.sources.toList t.output
      (w := w₂.traced "detect") (hquiet.disk ▸ htouched.tree) hreach₂
      (hquiet.disk ▸ hdir) hcheck
    have hwhole (w₃ : World) (h : (w₂.traced "detect").Touched o w₃) : w.Touched o w₃ :=
      htouched.trans (h.congr hquiet.view.symm rfl)
    refine hcompile.mono (fun accepted w₃ h₃ => ?_) fun _ w₃ h₃ => hwhole w₃ h₃.1
    cases accepted <;>
      exact (Action.wp_pure _).2 ⟨hwhole w₃ h₃.1, h₃.2⟩
  · rw [h.1]
    exact htouched.congr rfl rfl

/-- Recording the class files of the directory that a path reaches. -/
theorem recordClasses_reached (inside : tools.StaysInside) (store : Store) (sourceTree : Path)
    (digests : Table) {directory : Path} (tree : w.disk.IsTree)
    (hreach : w.disk.Reaches w.cwd directory o)
    (hlink : ∀ target, w.disk.find? o ≠ some (.link target)) :
    (recordClasses tools store sourceTree digests directory).wp w
      (fun recorded w' => w.Touched o w' ∧ recorded.1.directory = store.directory)
      fun _ w' => w.Touched o w' := by
  have hplace (x : Location) (hx : w.disk.resolve w.cwd true directory = .ok x) : x = o :=
    (hreach.resolve_eq_ok (fun _ => hlink) hx).1
  refine (recordClasses_bounded inside store sourceTree digests tree hplace).mono
    (fun recorded w' h => ⟨h.1.touched tree, ?_⟩) fun _ w' h => h.touched tree
  rw [h.2]
  rfl

/-- In this world a full build gets as far as an empty store: every source can be hashed, the
compiler accepts the sources, and the store is put in place. -/
def Begins (tools : Toolchain) (t : Target) (storeAt : Path) (w : World) : Prop :=
  ∃ digests w₁ w₂, (compileAll tools t).on w = (.ok (some digests), w₁) ∧
    (Store.reset storeAt).on w₁ = (.ok (), w₂)

theorem not_begins_of_on {result : Except Failure (Option Table)} {w₁ : World}
    (hon : (compileAll tools t).on w = (result, w₁)) (h : ∀ digests, result ≠ .ok (some digests)) :
    ¬Begins tools t storeAt w := by
  rintro ⟨digests, w₂, w₃, hon', -⟩
  rw [hon] at hon'
  exact h digests (congrArg Prod.fst hon')

theorem begins_iff_of_on {digests : Table} {w₁ : World}
    (hon : (compileAll tools t).on w = (.ok (some digests), w₁)) :
    Begins tools t storeAt w ↔ ∃ w₂, (Store.reset storeAt).on w₁ = (.ok (), w₂) := by
  constructor
  · rintro ⟨digests', w₂, w₃, hon', hreset⟩
    rw [hon] at hon'
    cases hon'
    exact ⟨w₃, hreset⟩
  · rintro ⟨w₂, hreset⟩
    exact ⟨digests, w₁, w₂, hon, hreset⟩

section Incomplete

variable (inside : tools.StaysInside)
  (layout : Layout w.disk w.cwd (Store.sites storeAt k name ++ [(t.output, o)]))
  (hlink : ∀ target, w.disk.find? o ≠ some (.link target))

include layout

theorem layout_of_touched {w' : World} (h : w.Touched o w') :
    Layout w'.disk w'.cwd (Store.sites storeAt k name ++ [(t.output, o)]) := by
  rw [h.cwd]
  exact layout.of_sameOutside Store.last_mem_sites h.tree h.outside

/-- A store stays what it is while the output directory is touched. -/
theorem isAt_of_touched {w' : World} (unlinked : Store.Unlinked w.disk (k ++ [name]))
    (h : w.Touched o w') :
    Store.isAt w'.disk w'.cwd storeAt = Store.isAt w.disk w.cwd storeAt :=
  Store.isAt_congr layout.tree h.tree (layout.reaches_self Store.mem_sites)
    ((layout_of_touched layout h).reaches_self Store.mem_sites) unlinked fun _ hm =>
      h.outside.eq_of_apart (Store.apart_of_layout layout (List.mem_singleton_self (t.output, o))) hm

include inside hlink

/-- What fails after the empty store is in place leaves it there. -/
theorem recordAll_incomplete {w₀ : World} (digests : Table)
    (hmade : Store.Making storeAt (k ++ [name]) (Store.files .empty .empty .empty) w₀ w)
    (hat : Store.isAt w.disk w.cwd storeAt = true) :
    (do
      let (store, _) ← recordClasses tools (.new storeAt) t.sourceTree digests t.output
      Action.phase "save" store.save).wp w (fun _ _ => True)
      fun _ w' => w'.cwd = w.cwd ∧ Store.isAt w'.disk w'.cwd storeAt = true := by
  have unlinked := Store.unlinked_of_holds hmade.holds
  have hrecord := recordClasses_reached inside (.new storeAt) t.sourceTree digests layout.tree
    (layout.reaches_self Store.last_mem_sites) hlink
  rw [Action.wp_bind]
  refine hrecord.mono (fun recorded w₁ h₁ => ?_) fun _ w₁ h => ?_
  · obtain ⟨htouched, hdirectory⟩ := h₁
    have layout₁ := layout_of_touched layout htouched
    have hreach₁ := layout₁.reaches_self Store.mem_sites
    have hsame : ∀ m : Location, Location.covers (k ++ [name]) m = true →
        w₁.disk.find? m = w.disk.find? m := fun m hm =>
      htouched.outside.eq_of_apart
        (Store.apart_of_layout layout (List.mem_singleton_self (t.output, o))) hm
    have hat₁ := (isAt_of_touched layout unlinked htouched).trans hat
    have hthere := (hsame _ (Location.covers_self _)).trans hmade.holds.directory
    have hsites : Layout w₁.disk w₁.cwd (Store.sites recorded.1.directory k name) := by
      rw [hdirectory]
      exact layout₁.sublist (List.sublist_append_left _ _)
    have hsave := Store.save_reached recorded.1 hsites hthere
    rw [Action.wp_phase]
    refine hsave.mono (fun _ _ _ => trivial) fun _ w₂ h₂ => ?_
    have layout₂ := Store.layout_of_aside layout₁ Store.staging_mem_sites h₂
    have hapart : Location.Apart (k ++ [name]) (k ++ [Store.besideName name]) :=
      ⟨Location.covers_sibling (Store.besideName_ne name).symm,
        Location.covers_sibling (Store.besideName_ne name)⟩
    refine ⟨h₂.1.cwd.trans htouched.cwd, ?_⟩
    rw [← hat₁]
    exact Store.isAt_congr layout₁.tree h₂.2.1 hreach₁ (layout₂.reaches_self Store.mem_sites)
      (unlinked.congr hsame) fun m hm => h₂.2.2 m (hapart.not_covers hm)
  · exact ⟨h.cwd, (isAt_of_touched layout unlinked h).trans hat⟩

/-- A full build that does not complete leaves a store exactly if it began one. -/
theorem full_incomplete (unlinked : Store.Unlinked w.disk (k ++ [name]))
    (hnot : Store.isAt w.disk w.cwd storeAt = false) :
    (full tools t storeAt).wp w
      (fun outcome w' => (∀ count, outcome ≠ .compiled count) → w'.cwd = w.cwd ∧
        (Store.isAt w'.disk w'.cwd storeAt = true ↔ Begins tools t storeAt w))
      fun _ w' => w'.cwd = w.cwd ∧
        (Store.isAt w'.disk w'.cwd storeAt = true ↔ Begins tools t storeAt w) := by
  have hcompile := compileAll_reached inside layout.tree
    (layout.reaches_erase Store.last_mem_sites) hlink
  unfold full
  rw [Action.wp_bind]
  rcases hon : (compileAll tools t).on w with ⟨f | digests, w₁⟩
  · have htouched := hcompile.of_error hon
    rw [Action.wp_of_error hon]
    exact ⟨htouched.cwd, iff_of_false
      (by rw [isAt_of_touched layout unlinked htouched, hnot]; exact Bool.false_ne_true)
      (not_begins_of_on hon (by simp))⟩
  obtain ⟨htouched, hdir⟩ := hcompile.of_ok hon
  have hnot₁ := (isAt_of_touched layout unlinked htouched).trans hnot
  rw [Action.wp_of_ok hon]
  rcases digests with _ | digests
  · refine (Action.wp_pure _).2 fun _ => ⟨htouched.cwd, iff_of_false ?_ ?_⟩
    · rw [hnot₁]
      exact Bool.false_ne_true
    · exact not_begins_of_on hon (by simp)
  have layout₁ := layout_of_touched layout htouched
  have hreset := Store.reset_reached layout₁.tree (layout₁.reaches_erase Store.mem_sites)
  rw [begins_iff_of_on hon]
  simp only [recordAll, Action.wp_bind]
  rcases hon₁ : (Store.reset storeAt).on w₁ with ⟨f | _, w₂⟩
  · rw [Action.wp_of_error hon₁]
    obtain ⟨htouched₂, hstill⟩ := hreset.of_error hon₁
    have hnot₂ : Store.isAt w₂.disk w₂.cwd storeAt = false := by
      rcases hstill with rfl | hnone
      · exact hnot₁
      · exact hnone
    exact ⟨htouched₂.cwd.trans htouched.cwd, iff_of_false (by simp [hnot₂]) (by simp)⟩
  rw [Action.wp_of_ok hon₁]
  obtain ⟨hmade, hat₂⟩ := hreset.of_ok hon₁
  have hcwd : w₂.cwd = w.cwd := hmade.cwd.trans htouched.cwd
  have layout₂ : Layout w₂.disk w₂.cwd (Store.sites storeAt k name ++ [(t.output, o)]) := by
    rw [hmade.cwd]
    exact layout₁.of_sameOutside Store.mem_sites hmade.tree hmade.outside
  have hlink₂ : ∀ target, w₂.disk.find? o ≠ some (.link target) := by
    have hapart := (Store.apart_of_layout layout (List.mem_singleton_self (t.output, o))).symm
    rw [hmade.outside.eq_of_apart hapart (Location.covers_self o), hdir]
    simp
  have hrest := recordAll_incomplete inside layout₂ hlink₂ digests hmade hat₂
  rw [Action.wp_bind] at hrest
  refine hrest.mono (fun recorded w₃ h₃ => h₃.mono (fun _ w₄ _ => ?_) fun _ w₄ h₄ => ?_)
    fun _ w₃ h₃ => ?_
  · simp only [log, Action.wp_log, Action.wp_pure]
    exact fun hincomplete => absurd rfl (hincomplete _)
  · exact ⟨h₄.1.trans hcwd, iff_of_true h₄.2 ⟨w₂, rfl⟩⟩
  · exact ⟨h₃.1.trans hcwd, iff_of_true h₃.2 ⟨w₂, rfl⟩⟩

end Incomplete

/-- The world after a full build has told that there is no store. -/
def announced (storeAt : Path) (w : World) : World := ((announceFull storeAt).on w).2

theorem on_run_of_full {storeRoot output sourceTree : Path} {w₁ : World}
    (hsurvey : (survey tools storeRoot output sourceTree).on w = (.ok (.full t storeAt), w₁)) :
    (run tools storeRoot output sourceTree).on w =
      (full tools t storeAt).on (announced storeAt w₁) := by
  rw [run, Action.on_bind, hsurvey]
  dsimp only
  rw [carryOut, Action.on_bind]
  rfl

/-- A build that takes the full path and does not complete leaves a store exactly if it began one.
The next build with sources goes on from that store; it is a full build only if there is none. -/
theorem store_after_incomplete_full {storeRoot output sourceTree : Path} {w₁ w' : World}
    {result : Except Failure Outcome} (inside : tools.StaysInside)
    (layout : Layout w.disk w.cwd (Store.sites storeAt k name ++ [(t.output, o)]))
    (hlink : ∀ target, w.disk.find? o ≠ some (.link target))
    (unlinked : Store.Unlinked w.disk (k ++ [name]))
    (hsurvey : (survey tools storeRoot output sourceTree).on w = (.ok (.full t storeAt), w₁))
    (hrun : (run tools storeRoot output sourceTree).on w = (result, w'))
    (hincomplete : ∀ count, result ≠ .ok (.compiled count)) :
    (Store.isAt w'.disk w'.cwd storeAt = true ↔ Begins tools t storeAt (announced storeAt w₁)) ∧
      ∀ job w₂, (survey tools storeRoot output sourceTree).on w' = (.ok job, w₂) → job ≠ .empty →
        ((∃ next, job = .full next storeAt) ↔ ¬Begins tools t storeAt (announced storeAt w₁)) := by
  obtain ⟨hquiet, -, hstoreAt, hnot⟩ := survey_fits.of_ok hsurvey
  have hview : (announced storeAt w₁).view = w.view := hquiet.view
  simp only [World.view, View.mk.injEq] at hview
  obtain ⟨hdisk, hcwd, -⟩ := hview
  have hfull : (full tools t storeAt).on (announced storeAt w₁) = (result, w') := by
    rw [← hrun, on_run_of_full hsurvey]
  rw [← hdisk, ← hcwd] at layout
  have hspec := full_incomplete inside layout (hdisk ▸ hlink) (hdisk ▸ unlinked)
    (by rw [hdisk, hcwd, hnot])
  have hafter : w'.cwd = w.cwd ∧ (Store.isAt w'.disk w'.cwd storeAt = true ↔
      Begins tools t storeAt (announced storeAt w₁)) := by
    rw [← hcwd]
    cases result with
    | error f => exact hspec.of_error hfull
    | ok outcome => exact hspec.of_ok hfull fun count heq => hincomplete count (by rw [heq])
  refine ⟨hafter.2, fun job w₂ hnext hne => ?_⟩
  have hplace : storeFor storeRoot sourceTree w'.cwd = storeAt := by rw [hafter.1, hstoreAt]
  have hfits := survey_fits.of_ok hnext
  rw [← hafter.2, Bool.not_eq_true]
  cases job with
  | empty => exact absurd rfl hne
  | full next storeAt' =>
    obtain ⟨-, -, hstoreAt', hnot'⟩ := hfits
    rw [hplace] at hstoreAt'
    rw [hstoreAt'] at hnot'
    exact iff_of_true ⟨next, by rw [hstoreAt']⟩ hnot'
  | incremental _ _ =>
    have hat : Store.isAt w'.disk w'.cwd storeAt = true := hplace ▸ hfits
    refine iff_of_false ?_ (by simp [hat])
    rintro ⟨next, heq⟩
    cases heq

/-- A compiler that accepts everything and writes nothing, and an examiner that always fails. -/
def unexamined : Toolchain where
  compile _ _ _ := pure true
  examine _ := Action.failed (.tool "examiner failed")

theorem unexamined_staysInside : unexamined.StaysInside where
  compile _ _ _ w _ _ _ := (Action.wp_pure _).2 ⟨.refl w, rfl, id⟩
  examine _ _ w _ _ _ _ := (Action.wp_failed _).2 ⟨.refl w, rfl, id⟩

/-- A source tree with one empty source. -/
def emptySource : World :=
  .start ⟨[(["src"], .directory), (["src", "A.java"], .file .empty false)], by decide⟩ [] ∅

theorem emptySource_tree : emptySource.disk.IsTree :=
  isTree_of_isWellFormed (by decide)

theorem emptySource_ne_link (l : Location) (target : Path) :
    emptySource.disk.find? l ≠ some (.link target) := find?_ne_link (by decide) l target

/-- Without links a store beside the output directory is laid out. -/
theorem layout_push {root key out : String} (tree : w.disk.IsTree)
    (hlinks : ∀ l target, w.disk.find? l ≠ some (.link target)) (hroot : Path.IsName root)
    (hkey : Path.IsName key) (hout : Path.IsName out) (hne : root ≠ out) :
    Layout w.disk w.cwd
      (Store.sites ((Path.push ⟨"/"⟩ root).push key) [root] key ++ [(Path.push ⟨"/"⟩ out, [out])]) := by
  have hbeside := Store.isName_besideName hkey
  have hstore : (Path.push ⟨"/"⟩ root).push key = Location.toPath [root, key] := by
    rw [Location.toPath_eq_foldl_push (by simp) (by simpa [Location.IsProper] using ⟨hroot, hkey⟩)]
    simp
  have houtput : Path.push ⟨"/"⟩ out = Location.toPath [out] := by
    rw [Location.toPath_eq_foldl_push (by simp) (by simpa [Location.IsProper] using hout)]
    simp
  have hsites : Store.sites (Location.toPath [root, key]) [root] key ++
      [(Location.toPath [out], [out])] =
      [([root], key), ([root], Store.besideName key), ([], out)].map fun x =>
        (Location.toPath (x.1 ++ [x.2]), x.1 ++ [x.2]) := by
    have hstaging := Store.stagingDirectory_toPath [root] key
    simp only [List.cons_append, List.nil_append] at hstaging
    simp [Store.sites, hstaging]
  rw [hstore, houtput, hsites]
  refine layout_toPath tree ?_ (fun _ _ top _ => hlinks top) ?_
  · simpa [Location.IsProper] using ⟨⟨hroot, hkey⟩, ⟨hroot, hbeside⟩, hout⟩
  · have hname := Store.besideName_ne key
    simp [Location.Apart, Location.covers, List.isPrefixOf, hname, hname.symm, hne.symm]

theorem emptySource_layout {key : String} (hkey : Path.IsName key) :
    Layout emptySource.disk emptySource.cwd
      (Store.sites (Path.push ⟨"/meta"⟩ key) ["meta"] key ++ [(⟨"/out"⟩, ["out"])]) := by
  have hroot : Path.push ⟨"/"⟩ "meta" = ⟨"/meta"⟩ := by decide
  have hout : Path.push ⟨"/"⟩ "out" = ⟨"/out"⟩ := by decide
  rw [← hroot, ← hout]
  exact layout_push emptySource_tree emptySource_ne_link (by decide) hkey (by decide) (by decide)

theorem emptySource_not_isAt {key : String} (hkey : Path.IsName key) :
    Store.isAt emptySource.disk emptySource.cwd (Path.push ⟨"/meta"⟩ key) = false := by
  have hnone (l : Location) : emptySource.disk.find? ("meta" :: l) = none := by
    simp [Disk.find?, emptySource, World.start, List.lookup_cons]
  have hclasses : "classes.txt" ∈ Store.tableNames := by simp [Store.tableNames]
  exact Store.not_isAt_of_none emptySource_tree
    ((emptySource_layout hkey).reaches_self Store.mem_sites) (emptySource_ne_link _) hclasses
    (hnone _)

theorem storeFor_emptySource : storeFor ⟨"/meta"⟩ ⟨"/src"⟩ emptySource.cwd =
    Path.push ⟨"/meta"⟩ (Store.key ⟨"/src"⟩) := by
  have habsolute : Path.absolute ⟨"/src"⟩ emptySource.cwd = ⟨"/src"⟩ := by decide
  rw [storeFor, habsolute, Store.directoryOf]

theorem full_unexamined (t : Target) (storeAt : Path) (w : World) :
    (full unexamined t storeAt).wp w (fun outcome _ => ∀ count, outcome ≠ .compiled count)
      fun _ _ => True := by
  have hrecord (store : Store) (digests : Table) (w : World) :
      (recordClasses unexamined store t.sourceTree digests t.output).wp w (fun _ _ => False)
        fun _ _ => True := by
    unfold recordClasses
    rw [Action.wp_bind]
    refine Action.wp_of_forall (fun files w₁ => ?_) fun _ _ => trivial
    rw [Action.wp_bind, Action.wp_phase, Toolchain.wp_runExaminer]
    exact (Action.wp_failed _).2 trivial
  unfold full recordAll
  rw [Action.wp_bind]
  refine Action.wp_of_forall (fun digests w₁ => ?_) fun _ _ => trivial
  cases digests with
  | none => exact (Action.wp_pure _).2 (by simp)
  | some digests =>
    simp only [Action.wp_bind]
    refine Action.wp_of_forall (fun _ w₂ => ?_) fun _ _ => trivial
    exact (hrecord _ digests w₂).mono (fun _ _ => False.elim) fun _ _ => id

theorem store_after_incomplete_full_emptySource :
    ∃ t storeAt w₁ result w',
      (survey unexamined ⟨"/meta"⟩ ⟨"/out"⟩ ⟨"/src"⟩).on emptySource = (.ok (.full t storeAt), w₁) ∧
        (run unexamined ⟨"/meta"⟩ ⟨"/out"⟩ ⟨"/src"⟩).on emptySource = (result, w') ∧
        (∀ count, result ≠ .ok (.compiled count)) ∧
        (Store.isAt w'.disk w'.cwd storeAt = true ↔
          Begins unexamined t storeAt (announced storeAt w₁)) := by
  have hsources : (match ((locate ⟨"/out"⟩ ⟨"/src"⟩).on emptySource).1 with
      | .ok t => !t.sources.isEmpty && t.output == ⟨"/out"⟩
      | .error _ => false) = true := by decide
  rcases hlocate : (locate ⟨"/out"⟩ ⟨"/src"⟩).on emptySource with ⟨f | t, w₀⟩
  · rw [hlocate] at hsources
    cases hsources
  simp only [hlocate, Bool.and_eq_true, Bool.not_eq_true', beq_iff_eq] at hsources
  have hkey := Store.isName_key ⟨"/src"⟩
  have hsurvey : ∃ w₁, (survey unexamined ⟨"/meta"⟩ ⟨"/out"⟩ ⟨"/src"⟩).on emptySource =
      (.ok (.full t (storeFor ⟨"/meta"⟩ ⟨"/src"⟩ emptySource.cwd)), w₁) :=
    survey_of_locate hlocate hsources.1 (by
      rw [storeFor_emptySource]
      exact emptySource_not_isAt hkey)
  obtain ⟨w₁, hsurvey⟩ := hsurvey
  rw [storeFor_emptySource] at hsurvey
  rcases hrun : (run unexamined ⟨"/meta"⟩ ⟨"/out"⟩ ⟨"/src"⟩).on emptySource with ⟨result, w'⟩
  have hincomplete : ∀ count, result ≠ .ok (.compiled count) := by
    rintro count rfl
    rw [on_run_of_full hsurvey] at hrun
    exact (full_unexamined _ _ _).of_ok hrun count rfl
  have hlayout := emptySource_layout hkey
  rw [← hsources.2] at hlayout
  exact ⟨t, _, w₁, result, w', hsurvey, rfl, hincomplete,
    (store_after_incomplete_full unexamined_staysInside hlayout (emptySource_ne_link _)
      ⟨emptySource_ne_link _, fun _ _ => emptySource_ne_link _⟩ hsurvey hrun hincomplete).1⟩

end Recompile.Build
