import Recompile.Proofs.Build.Drift
import Recompile.Proofs.Build.Full
import Recompile.Proofs.Build.Readied

/-!
# Builds that drift

A build changes anything at its places: at the store, where the store is staged and, if it is a full
one, in the output directory. Elsewhere it only drifts: directories are new, and files that are free
to have come and gone. The classes may have any names.
-/

namespace Recompile

namespace World

open Disk

/-- What a tool does with a directory: anything in it, but at places that are spared, and elsewhere,
it drifts. -/
structure Worked (free spare : Location → Prop) (l : Location) (w w' : World) : Prop
    extends Drifted free [l] w w' where
  spared : ∀ m, spare m → Drifts free m w.disk w'.disk
  directory : w'.disk.find? l = some .directory
  plain : w'.disk.PlainClasses

namespace Worked

variable {free spare : Location → Prop} {l : Location} {w w₁ w₂ : World}

theorem refl (tree : w.disk.IsTree) (hdir : w.disk.find? l = some .directory)
    (plain : w.disk.PlainClasses) : Worked free spare l w w :=
  ⟨.refl tree, fun _ _ => .inl rfl, hdir, plain⟩

theorem congr (h : Worked free spare l w w₁) (hview : w₂.view = w₁.view) :
    Worked free spare l w w₂ := by
  have hdisk : w₂.disk = w₁.disk := congrArg View.disk hview
  refine ⟨h.toDrifted.congr hview, ?_, ?_, ?_⟩ <;> rw [hdisk]
  · exact h.spared
  · exact h.directory
  · exact h.plain

theorem of_view (h : Worked free spare l w₁ w₂) (tree : w.disk.IsTree) (hview : w₁.view = w.view) :
    Worked free spare l w w₂ := by
  have hdisk : w₁.disk = w.disk := congrArg View.disk hview
  exact ⟨(Drifted.of_view tree hview).trans h.toDrifted, hdisk ▸ h.spared, h.directory, h.plain⟩

end Worked

end World

/-- Whatever the tools are called with, outside of the destination of a compilation, or of the
directory of the class files that are examined, they only let directories and free files come and
go, and so they do at places that are spared. -/
structure Toolchain.Drifts (free spare : Location → Prop) (tools : Toolchain) : Prop where
  compile : ∀ (sources : List String) (classpath destination : Path) (w : World) (l : Location),
    w.disk.IsTree → w.disk.PlainClasses → w.disk.resolve w.cwd true destination = .ok l →
      w.disk.find? l = some .directory →
      (tools.compile sources classpath destination).wp w (fun _ => w.Worked free spare l)
        fun _ => w.Worked free spare l
  examine : ∀ (classFiles : List Path) (directory : Path) (w : World) (l : Location),
    w.disk.IsTree → w.disk.PlainClasses → w.disk.resolve w.cwd true directory = .ok l →
      w.disk.find? l = some .directory → (∀ file ∈ classFiles, directory.IsBelow file) →
      (tools.examine classFiles).wp w (fun _ => w.Worked free spare l)
        fun _ => w.Worked free spare l

theorem Toolchain.writing_drifts {free spare : Location → Prop} {files : List String}
    (facts : List ClassFact)
    (hfiles : ∀ file ∈ files, Path.IsName file ∧ file.utf8ByteSize ≤ Path.nameLimit)
    (hspare : ∀ l, ∀ file ∈ files, ¬spare (l ++ [file])) :
    (writing files facts).Drifts free spare where
  compile _ _ destination w l tree plain hresolve hdir := by
    simp only [writing, Action.wp_bind, Action.wp_get, hresolve]
    have hchange := find?_foldl_place files w.disk l
    refine (Action.wp_modify _).2 ⟨⟨⟨rfl, rfl⟩, isTree_foldl_place tree hdir hfiles, fun m hm => ?_⟩,
      fun m hm => ?_, ?_, fun m hm target hlink => ?_⟩
    · rcases hchange m with hsame | ⟨⟨file, -, rfl⟩, -⟩
      · exact .inl hsame
      · simp [Location.covers_append] at hm
    · rcases hchange m with hsame | ⟨⟨file, hfile, rfl⟩, -⟩
      · exact .inl hsame
      · exact absurd hm (hspare l file hfile)
    · rcases hchange l with hsame | ⟨⟨file, -, heq⟩, -⟩
      · exact hsame.trans hdir
      · simp at heq
    · rcases hchange m with hsame | ⟨-, hfile⟩
      · exact plain m hm target (hsame ▸ hlink)
      · rw [hfile] at hlink
        cases hlink
  examine _ _ w l tree plain _ hdir _ := (Action.wp_pure _).2 (.refl tree hdir plain)

namespace Build

open Directory Disk Staging World

attribute [local irreducible] Action.wp scratchName

variable {free spare : Location → Prop} {p : Places} {w w₁ w₂ : World} {tools : Toolchain} {t : Target}
  {l : Location} {i j : ℕ}

/-! ## The tools -/

section Tools

variable (drifts : tools.Drifts free spare) (tree : w.disk.IsTree) (plain : w.disk.PlainClasses)

include drifts tree plain

theorem compile_worked (sources : List String) (classpath : Path) {destination : Path}
    (hresolve : w.disk.resolve w.cwd true destination = .ok l)
    (hdir : w.disk.find? l = some .directory) :
    (Action.phase "compile" (tools.runCompiler sources classpath destination)).wp w
      (fun _ => w.Worked free spare l) fun _ => w.Worked free spare l := by
  have hdone (w' : World)
      (h : (w.called (.compile sources classpath destination w.disk)).Worked free spare l w') :
      w.Worked free spare l (w'.traced "compile") := (h.of_view tree rfl).congr rfl
  rw [Action.wp_phase, Toolchain.wp_runCompiler]
  exact (drifts.compile sources classpath destination
    (w.called (.compile sources classpath destination w.disk)) l tree plain hresolve hdir).mono
    (fun _ => hdone) fun _ => hdone

theorem recordClasses_worked (store : Store) (sourceTree : Path) (digests : Table) {directory : Path}
    (hresolve : w.disk.resolve w.cwd true directory = .ok l)
    (hdir : w.disk.find? l = some .directory) :
    (recordClasses tools store sourceTree digests directory).wp w
      (fun recorded w' => w.Worked free spare l w' ∧
        recorded.1 = (store.addSources digests).record sourceTree recorded.2)
      fun _ => w.Worked free spare l := by
  unfold recordClasses findClassFiles
  simp only [Action.wp_bind, Action.wp_within, Action.wp_phase, Toolchain.wp_runExaminer,
    Action.wp_logAll, Action.wp_pure]
  refine (@findFiles_quiet "class" directory w).mono (fun files w₁ h₁ => ?_) fun _ w' h => ?_
  · obtain ⟨rfl, hbelow, x, hx, -⟩ := h₁
    obtain rfl : x = l := Except.ok.inj (hx.symm.trans hresolve)
    have hexamine := drifts.examine (Path.sorted files) directory
      (w₁.called (.examine (Path.sorted files) w₁.disk)) x tree plain hresolve hdir
      fun file hfile => hbelow tree file (List.mem_mergeSort.1 hfile)
    refine hexamine.mono (fun facts w' h => ⟨?_, trivial⟩) fun _ w' h => ?_
    · exact (h.of_view tree rfl).congr rfl
    · exact (h.of_view tree rfl).congr rfl
  · rw [h]
    exact .refl tree hdir plain

end Tools

/-! ## Workspaces -/

theorem LaidOut.drifted {more : List (Path × Location)} {places : List Location}
    (h : LaidOut p more w) (hdrifted : w.Drifted free places w₁)
    (hplaces : places ⊆ (p.sites more []).map Prod.snd) : LaidOut p more w₁ := by
  refine ⟨fun names hnames => hdrifted.layout (h.layout names hnames) fun l hl => ?_, ?_⟩
  · have hsub : (p.sites more []).Sublist (p.sites more names) := by
      simp [Places.sites]
    exact (hsub.map Prod.snd).subset (hplaces hl)
  · rw [hdrifted.cwd, hdrifted.environment, h.temporary]

/-- The workspace with the `i`-th and the `j`-th scratch directory. -/
def Places.workspace (p : Places) (i j : ℕ) : Workspace :=
  ⟨p.temporary.push (scratchName i), p.temporary.push (scratchName j)⟩

/-- Nothing is in the places of two scratch directories yet. -/
structure Vacant (p : Places) (w : World) (i j : ℕ) : Prop where
  ne : scratchName i ≠ scratchName j
  classpath : w.disk.find? (p.scratch i) = none
  destination : w.disk.find? (p.scratch j) = none
  classpath_check : (p.temporary.push (scratchName i)).check = .ok ()
  destination_check : (p.temporary.push (scratchName j)).check = .ok ()

/-- The two directories of a workspace stand, and something may have changed in the destination and
at some more places. -/
structure Busy (free : Location → Prop) (p : Places) (places : List Location) (i j : ℕ)
    (w w' : World) : Prop where
  drifted : w.Drifted free (p.scratch j :: places) w'
  classpath : w'.disk.find? (p.scratch i) = some .directory
  destination : w'.disk.find? (p.scratch j) = some .directory

theorem Vacant.apart (h : Vacant p w i j) : Location.Apart (p.scratch i) (p.scratch j) :=
  ⟨Location.covers_sibling h.ne, Location.covers_sibling h.ne.symm⟩

theorem Vacant.layout (h : Vacant p w i j) (laidOut : LaidOut p [] w) :
    Layout w.disk w.cwd (p.sites [] [scratchName i, scratchName j]) :=
  laidOut.layout _ ⟨by simpa using h.ne, by simp⟩

/-- There is nothing at or below the two places. -/
theorem Vacant.absent (h : Vacant p w i j) (tree : w.disk.IsTree) {m : Location}
    (hm : (p.scratch i).covers m = true ∨ (p.scratch j).covers m = true) :
    w.disk.find? m = none := by
  have below (l : Location) (hl : w.disk.find? l = none) (hm : l.covers m = true) :
      w.disk.find? m = none := by
    obtain ⟨rest, rfl⟩ := Location.covers_iff.1 hm
    by_cases hrest : rest = []
    · rw [hrest, List.append_nil, hl]
    · exact tree.find?_append (by simp [hl]) hrest
  rcases hm with hm | hm
  · exact below _ h.classpath hm
  · exact below _ h.destination hm

theorem LaidOut.apart_saving {more : List (Path × Location)} (h : LaidOut p more w) (n : ℕ) :
    ∀ l ∈ p.saving, Location.Apart l (p.scratch n) := by
  intro l hl
  simp only [Places.saving, List.mem_cons, List.not_mem_nil, or_false] at hl
  rcases hl with rfl | rfl
  · exact (h.apart_scratch n mem_sites_store).symm
  · exact (h.apart_scratch n mem_sites_beside).symm

namespace Busy

variable {places : List Location}

/-- A workspace stays while something happens elsewhere. -/
theorem trans (h : Busy free p places i j w w₁) {more : List Location}
    (hdrifted : w₁.Drifted free more w₂)
    (hmore : ∀ l ∈ more, Location.Apart l (p.scratch i) ∧ Location.Apart l (p.scratch j)) :
    Busy free p (places ++ more) i j w w₂ := by
  refine ⟨(h.drifted.mono (by simp)).trans (hdrifted.mono fun l hl => by simp [hl]), ?_, ?_⟩
  · exact (hdrifted.outside _ fun l hl => (hmore l hl).1.1).eq_of_not_isFile h.classpath rfl
  · exact (hdrifted.outside _ fun l hl => (hmore l hl).2.1).eq_of_not_isFile h.destination rfl

theorem drift (h : Busy free p places i j w w₁) (hdrifted : w₁.Drifted free [] w₂) :
    Busy free p places i j w w₂ := by
  simpa using h.trans hdrifted (by simp)

/-- A tool has worked in the destination. -/
theorem work (h : Busy free p places i j w w₁) (vacant : Vacant p w i j)
    (hworked : w₁.Worked free spare (p.scratch j) w₂) : Busy free p places i j w w₂ := by
  refine ⟨h.drifted.trans (hworked.toDrifted.mono (by simp)), ?_, hworked.directory⟩
  exact (hworked.outside _ (by simpa using vacant.apart.2)).eq_of_not_isFile h.classpath rfl

theorem layout (h : Busy free p places i j w w₁) (vacant : Vacant p w i j)
    (laidOut : LaidOut p [] w) (hplaces : places ⊆ p.saving) :
    Layout w₁.disk w₁.cwd (p.sites [] [scratchName i, scratchName j]) := by
  refine h.drifted.layout (vacant.layout laidOut) (List.cons_subset.2 ⟨?_, fun l hl => ?_⟩)
  · exact List.mem_map_of_mem (mem_sites_scratch (by simp))
  · have hsaving := hplaces hl
    simp only [Places.saving, List.mem_cons, List.not_mem_nil, or_false] at hsaving
    rcases hsaving with rfl | rfl
    · exact List.mem_map_of_mem mem_sites_store
    · exact List.mem_map_of_mem mem_sites_beside

/-- Once both directories are gone, the places of the workspace play no part. -/
theorem discard (h : Busy free p places i j w w₁) (vacant : Vacant p w i j)
    (laidOut : LaidOut p [] w) (hplaces : places ⊆ p.saving) :
    (p.workspace i j).discard.wp w₁
      (fun _ w₂ => w.Drifted free places w₂ ∧ w₂.Settled w₁ ∧
        ∀ m : Location, (p.scratch i).covers m = false → (p.scratch j).covers m = false →
          w₂.disk.find? m = w₁.disk.find? m)
      fun _ _ => False := by
  have layout := h.layout vacant laidOut hplaces
  have hsub : [((p.workspace i j).classpath, p.scratch i),
      ((p.workspace i j).destination, p.scratch j)].Sublist
        (p.sites [] [scratchName i, scratchName j]) := List.sublist_append_right _ _
  refine (discard_laidOut (layout.sublist hsub) h.classpath h.destination vacant.classpath_check
    vacant.destination_check).mono (fun _ w₂ h₂ => ?_) fun _ _ => id
  subst h₂
  refine ⟨⟨⟨h.drifted.cwd, h.drifted.environment⟩, (layout.tree.erase _).erase _, fun m hm => ?_⟩, ⟨rfl, rfl⟩,
    fun m hi hj => find?_erase_erase _ hi hj⟩
  by_cases hcovers : (p.scratch i).covers m = true ∨ (p.scratch j).covers m = true
  · have hne : m ≠ [] := by
      rintro rfl
      simp [Places.scratch] at hcovers
    left
    rw [find?_erase_erase_of_covers _ hne hcovers, vacant.absent laidOut.tree hcovers]
  · simp only [not_or, Bool.not_eq_true] at hcovers
    have hdrifts := h.drifted.outside m (List.forall_mem_cons.2 ⟨hcovers.2, hm⟩)
    unfold Drifts at hdrifts ⊢
    rwa [find?_erase_erase _ hcovers.1 hcovers.2]

end Busy

/-! ## Up to the point of no return -/

section Prepare

variable {ready : Ready} {sourceTree output : Path}

theorem make_busy (laidOut : LaidOut p [] w) (plain : w.disk.PlainClasses) :
    Workspace.make.wp w
      (fun ws w₁ => ∃ i j, ws = p.workspace i j ∧ Vacant p w i j ∧ Busy free p [] i j w w₁ ∧
        w₁.disk.PlainClasses)
      fun _ w₁ => w₁.view = w.view := by
  refine (make_made laidOut.tree).mono (fun ws w₁ h => ?_) fun _ _ => id
  obtain ⟨a, b, h⟩ := h
  have hname (l k : Location) (n : String) (hdir : w₁.disk.find? l = some .directory)
      (heq : l = k ++ [n]) : n.utf8ByteSize ≤ Path.nameLimit :=
    (h.tree.isName k n _ (heq ▸ hdir)).2
  obtain ⟨i, hclasspath, rfl⟩ := laidOut.eq_scratch h.classpath h.classpath_check fun k n =>
    hname _ k n (by simp [h.find?_eq])
  obtain ⟨j, hdestination, rfl⟩ := laidOut.eq_scratch h.destination h.destination_check fun k n =>
    hname _ k n (by simp [h.find?_eq])
  have hne : scratchName i ≠ scratchName j := by
    intro heq
    have hapart := h.apart.1
    rw [Places.scratch, Places.scratch, heq, Location.covers_self] at hapart
    cases hapart
  have vacant : Vacant p w i j := ⟨hne, h.classpath_absent, h.destination_absent,
    hclasspath ▸ h.classpath_check, hdestination ▸ h.destination_check⟩
  have hdrifted : w.Drifted free [p.scratch j] w₁ := by
    refine ⟨(h.plain laidOut.tree).toSettled, h.tree, fun m hm => ?_⟩
    have hm' : m ≠ p.scratch j := by
      rintro rfl
      simp at hm
    by_cases hmi : m = p.scratch i
    · subst hmi
      exact .inr (.inl ⟨h.classpath_absent, by simp [h.find?_eq]⟩)
    · exact .inl (by simp [h.find?_eq, hm', hmi])
  refine ⟨i, j, ?_, vacant, ⟨hdrifted, by simp [h.find?_eq], by simp [h.find?_eq]⟩, ?_⟩
  · obtain ⟨classpath, destination⟩ := ws
    rw [Places.workspace, ← hclasspath, ← hdestination]
  · intro m hm target hlink
    rw [h.find?_eq] at hlink
    split_ifs at hlink with hnew
    · cases hlink
    · exact plain m hm target hlink

/-- A workspace that is given up leaves no more than a drift. -/
theorem Busy.give_up (h : Busy free p [] i j w w₁) (vacant : Vacant p w i j)
    (laidOut : LaidOut p [] w) :
    (p.workspace i j).discard.wp w₁ (fun _ => w.Drifted free []) fun _ _ => False :=
  (h.discard vacant laidOut (List.nil_subset _)).mono (fun _ _ h' => h'.1) fun _ _ => id

theorem stage_busy (hfree : ∀ m, IsClassPlace m → free m) (laidOut : LaidOut p [] w)
    (plain : w.disk.PlainClasses) (classes : List String) :
    (Workspace.stage output classes).wp w
      (fun ws w₁ => ∃ i j, ws = p.workspace i j ∧ Vacant p w i j ∧ Busy free p [] i j w w₁ ∧
        w₁.disk.PlainClasses)
      fun _ => w.Drifted free [] := by
  unfold Workspace.stage
  rw [Action.wp_bind]
  refine (@make_busy free p w laidOut plain).mono (fun ws w₁ h => ?_) fun _ _ =>
    .of_view laidOut.tree
  obtain ⟨i, j, rfl, vacant, busy, plain₁⟩ := h
  rw [Action.wp_bind, Action.wp_undoing]
  refine (copyClassFiles_drifted hfree classes busy.drifted.tree plain₁).mono (fun _ w₂ h₂ => ?_)
    fun _ w₂ h₂ => ?_
  · exact (Action.wp_pure _).2
      ⟨i, j, rfl, vacant, busy.drift h₂, h₂.plainClasses_of_nil plain₁⟩
  · exact ((busy.drift h₂).give_up vacant laidOut).mono (fun _ _ => id) fun _ _ => False.elim

/-- What is ready, and what has drifted meanwhile. -/
def Underway (free : Location → Prop) (p : Places) (w : World) : Ready → World → Prop
  | .compiled ws _ _ _ _, w' => ∃ i j, ws = p.workspace i j ∧ Vacant p w i j ∧
      Busy free p [] i j w w' ∧ w'.disk.PlainClasses
  | .rejected, w' => w.Drifted free [] w'
  | _, w' => w'.view = w.view

theorem compileIn_underway (drifts : tools.Drifts free spare) (laidOut : LaidOut p [] w)
    (vacant : Vacant p w i j) (busy : Busy free p [] i j w w₁) (plain : w₁.disk.PlainClasses)
    (store : Store) (changes : Changes) (q : Plan) :
    (compileIn tools (p.workspace i j) store changes q sourceTree).wp w₁ (Underway free p w)
      fun _ => Busy free p [] i j w := by
  have hresolve {w₂ : World} (h₂ : Busy free p [] i j w w₂) :
      w₂.disk.resolve w₂.cwd true (p.workspace i j).destination = .ok (p.scratch j) :=
    ((h₂.layout vacant laidOut (List.nil_subset _)).reaches_self
      (mem_sites_scratch (by simp))).resolve_of_find? h₂.drifted.tree vacant.destination_check
        h₂.destination (by simp)
  unfold compileIn
  rw [Action.wp_bind]
  refine (compile_worked drifts busy.drifted.tree plain q.recompile.toList
    (p.workspace i j).classpath (hresolve busy) busy.destination).mono (fun accepted w₂ h₂ => ?_)
    fun _ w₂ h₂ => busy.work vacant h₂
  have busy₂ := busy.work vacant h₂
  cases accepted with
  | false =>
    rw [if_neg Bool.false_ne_true, Action.wp_bind]
    exact (busy₂.give_up vacant laidOut).mono (fun _ _ h => (Action.wp_pure _).2 h)
      fun _ _ => False.elim
  | true =>
    rw [if_pos rfl, Action.wp_bind]
    refine (recordClasses_worked drifts h₂.tree h₂.plain _ sourceTree changes.changed
      (hresolve busy₂) busy₂.destination).mono (fun recorded w₃ h₃ => ?_)
      fun _ w₃ h₃ => busy₂.work vacant h₃
    exact (Action.wp_pure _).2 ⟨i, j, rfl, vacant, busy₂.work vacant h₃.1, h₃.1.plain⟩

end Prepare

end Build

end Recompile
