import Recompile.Proofs.ClassName
import Recompile.Proofs.Directory.Clean
import Recompile.Proofs.Directory.Copy
import Recompile.Proofs.Directory.Scratch
import Recompile.Proofs.Toolchain
import Recompile.Staging

/-!
# A workspace does not touch anything else

While a workspace stands, the disk without its two directories is the disk as it was before. Copying
class files into it, compiling and examining keep that, so discarding it brings the disk back.
-/

namespace Recompile

namespace Path

variable {p : Path} {name : String} {names : List String}

/-- What is above a name that is pushed onto some names. -/
theorem parent_foldl_push (hname : IsName name) (hnames : ∀ other ∈ names, IsName other)
    {last : String} (hlast : IsName last) :
    ((names.foldl push (p.push name)).push last).parent = some (names.foldl push (p.push name)) := by
  rcases List.eq_nil_or_concat names with rfl | ⟨init, other, rfl⟩
  · exact parent_push_push hname hlast
  · rw [List.concat_eq_append, List.foldl_append, List.foldl_cons, List.foldl_nil]
    exact parent_push_push (hnames other (by simp)) hlast

end Path

namespace Directory

open Disk

variable {w : World} {p : Path} {l : Location}

/-- Discarding a directory that a path reaches. -/
theorem discard_reached (tree : w.disk.IsTree) (hreach : (w.disk.erase l).Reaches w.cwd p l)
    (hdir : w.disk.find? l = some .directory) (hcheck : p.check = .ok ()) :
    (discard p).wp w (fun _ w' => w' = { w with disk := w.disk.erase l }) fun _ _ => False := by
  unfold discard
  rw [Action.wp_tryCatch]
  exact (removeTree_reached tree hreach hdir).mono (fun _ _ h => h.1) fun _ _ h =>
    absurd hcheck h.2

end Directory

namespace Staging

open Directory Disk World

attribute [local irreducible] Action.wp

variable {w w₁ w₂ : World} {ws : Workspace} {a b : Location}

/-! ## Class files in a directory without links -/

/-- Files and directories were put into the directory at `l` or taken out of it. No link is there. -/
structure Filled (l : Location) (w w' : World) : Prop extends World.Touched l w w' where
  not_link : ∀ m : Location, l.covers m = true → ∀ target, w'.disk.find? m ≠ some (.link target)
  directory : w.disk.find? l = some .directory →
    w'.disk.find? l = some .directory ∧ w'.disk.erase l = w.disk.erase l

namespace Filled

variable {l : Location}

theorem refl (tree : w.disk.IsTree)
    (hlink : ∀ m : Location, l.covers m = true → ∀ target, w.disk.find? m ≠ some (.link target)) :
    Filled l w w := ⟨.refl tree, hlink, fun hdir => ⟨hdir, rfl⟩⟩

theorem trans (h : Filled l w w₁) (h' : Filled l w₁ w₂) : Filled l w w₂ := by
  refine ⟨h.toTouched.trans h'.toTouched, h'.not_link, fun hdir => ?_⟩
  obtain ⟨hdir₁, herase⟩ := h.directory hdir
  obtain ⟨hdir₂, herase₂⟩ := h'.directory hdir₁
  exact ⟨hdir₂, herase₂.trans herase⟩

theorem congr (h : Filled l w w₁) (hview : w₂.view = w₁.view) : Filled l w w₂ := by
  have htouched := h.toTouched.congr rfl hview
  simp only [World.view, View.mk.injEq] at hview
  refine ⟨htouched, ?_, ?_⟩ <;> rw [hview.1]
  · exact h.not_link
  · exact h.directory

end Filled

section Fill

variable {l : Location} {names : List String}

/-- Copying a file to a place in the directory. -/
theorem copyFile_filled {source target : Path} (h : Filled l w w₁)
    (hreach : w₁.disk.Reaches w₁.cwd target (l ++ names)) (hne : names ≠ []) :
    (copyFile source target).wp w₁
      (fun _ w₂ => Filled l w w₂ ∧ CopiedFrom source (l ++ names) w₁ w₂) fun _ => Filled l w := by
  have hcovers := Location.covers_append l names
  refine (copyFile_reached h.tree hreach (h.not_link _ hcovers)).mono
    (fun _ w₂ h₂ => ⟨h.trans ?_, h₂⟩) fun _ w₂ h₂ => h₂ ▸ h
  have hput := h₂.put
  have hl : l ≠ l ++ names := by simpa using Ne.symm hne
  have houtside (m : Location) (hm : l.covers m = false) : m ≠ l ++ names := by
    rintro rfl
    rw [hcovers] at hm
    cases hm
  exact ⟨⟨h₂.settled, hput.tree, .of_eq fun m hm => hput.other m (houtside m hm)⟩,
    fun m hm => hput.not_link (h.not_link m hm),
    fun hdir => ⟨(hput.other l hl).trans hdir, hput.erase l hcovers⟩⟩

/-- Making a directory in the directory. -/
theorem create_filled {directory : Path} (h : Filled l w w₁)
    (hreach : w₁.disk.Reaches w₁.cwd directory (l ++ names)) :
    (create directory).wp w₁ (fun _ => Filled l w) fun _ => Filled l w := by
  have hcovers := Location.covers_append l names
  have hfilled (w₂ : World) (hsteady : w₁.Steady w₂) (hbuilt : Built (l ++ names) w₁.disk w₂.disk) :
      Filled l w w₂ := by
    have keeps := hbuilt.directoriesAdded.keeps
    refine h.trans ⟨⟨hsteady.settled, hbuilt.tree, fun m hm => ?_⟩,
      fun m hm => hbuilt.not_link (h.not_link m hm),
      fun hdir => ⟨keeps.directory hdir, hbuilt.erase l hcovers hdir⟩⟩
    refine (hbuilt.added m).imp id fun hnew => ⟨?_, hnew.2⟩
    rcases Location.covers_total hnew.1 hcovers with hm' | hm'
    · exact hm'
    · rw [hm] at hm'
      cases hm'
  exact (makes_create h.tree hreach (h.not_link _ hcovers)).mono
    (fun _ w₂ h₂ => hfilled w₂ h₂.1 h₂.2.1) fun _ w₂ h₂ => hfilled w₂ h₂.1 h₂.2

/-- Deleting what is no directory at a place in the directory. -/
theorem removeFile_filled {file : Path} (h : Filled l w w₁)
    (hreach : w₁.disk.Reaches w₁.cwd file (l ++ names)) (hne : names ≠ []) :
    (Action.change fun d cwd => d.removeFile cwd file).wp w₁ (fun _ => Filled l w)
      fun _ => Filled l w := by
  rw [Action.wp_change]
  cases hremove : w₁.disk.removeFile w₁.cwd file with
  | error fault => exact h
  | ok d =>
    obtain ⟨-, -, rfl⟩ := (hreach.removeFile_eq_ok_iff h.tree).1 hremove
    have hcovers := Location.covers_append l names
    have hself : Location.covers (l ++ names) l = false := by
      rw [Bool.eq_false_iff]
      intro hback
      exact hne (by simpa using Location.covers_antisymm hback hcovers)
    have hfind (m : Location) (hm : Location.covers (l ++ names) m = false) :
        (w₁.disk.erase (l ++ names)).find? m = w₁.disk.find? m := by
      rw [find?_erase, if_neg (by simp [hm])]
    refine h.trans ⟨⟨⟨rfl, rfl⟩, h.tree.erase _, .of_eq fun m hm => hfind m ?_⟩,
      fun m hm target hlink => ?_, fun hdir => ⟨(hfind l hself).trans hdir, ?_⟩⟩
    · rw [Bool.eq_false_iff]
      intro hbelow
      rw [Location.covers_trans hcovers hbelow] at hm
      cases hm
    · dsimp only at hlink
      rw [find?_erase] at hlink
      split_ifs at hlink
      exact h.not_link m hm target hlink
    · exact w₁.disk.erase_erase_of_covers hcovers

variable {directory : Path}

/-- The file of a class in the directory. -/
theorem reaches_artifact (h : Filled l w w₁) (hreach : (w.disk.erase l).Reaches w.cwd directory l)
    (hnames : ∀ name ∈ names, Path.IsName name) :
    w₁.disk.Reaches w₁.cwd (names.foldl Path.push directory) (l ++ names) := by
  have hdirectory := hreach.of_sameOutside h.outside
  rw [← h.cwd] at hdirectory
  exact hdirectory.foldl_push hnames h.not_link

/-- The directories of the package were made, and then the file of the class was copied to `l`. -/
def ClassCopied (source : Path) (l : Location) (w w' : World) : Prop :=
  ∃ w₁, w.Spread w₁ ∧ CopiedFrom source l w₁ w'

/-- Copying the file of a class with a proper name into the directory that a path reaches. -/
theorem copyClassFile_filled (source : Path) {className : String}
    (hproper : ClassName.IsProper className)
    (hreach : (w.disk.erase l).Reaches w.cwd directory l) (h : Filled l w w₁) :
    (copyClassFiles source directory [className]).wp w₁
      (fun _ w₂ => Filled l w w₂ ∧ ClassCopied (source.join (ClassName.artifact className))
        (l ++ ClassName.artifactNames className) w₁ w₂)
      fun _ => Filled l w := by
  have hnames : ∀ name ∈ ClassName.artifactNames className, Path.IsName name := fun _ =>
    hproper.isName_artifactNames
  unfold copyClassFiles
  simp only [List.forM]
  rw [Action.wp_bind, Action.wp_bind, Action.wp_log, hproper.join_artifact directory]
  obtain ⟨init, last, hsplit⟩ : ∃ init last, ClassName.artifactNames className = init ++ [last] :=
    ⟨_, _, rfl⟩
  rw [hsplit] at hnames ⊢
  have hinit : ∀ name ∈ init, Path.IsName name := fun name hname => hnames name (by simp [hname])
  have hparent : ((init.foldl Path.push directory).push last).parent =
      some (init.foldl Path.push directory) := by
    obtain ⟨base, s, above, name, -, -, hname, rfl, -, -⟩ := hreach
    exact Path.parent_foldl_push hname hinit (hnames last (by simp))
  rw [List.foldl_append, List.foldl_cons, List.foldl_nil]
  simp only [hparent, Action.wp_bind, Action.wp_within, Action.wp_pure]
  generalize (⟨.debug, "incjc::stage", "copying class"⟩ : Log.Event) = event
  have hlogged : Filled l w { w₁ with log := w₁.log ++ [event] } := h.congr rfl
  have hcreate := (create_filled hlogged (reaches_artifact hlogged hreach hinit)).and
    (create_spread _)
  refine hcreate.mono (fun _ w₂ h₂ => ?_) fun _ _ h₂ => h₂.1
  have htarget := reaches_artifact h₂.1 hreach hnames
  rw [List.foldl_append, List.foldl_cons, List.foldl_nil] at htarget
  refine (copyFile_filled h₂.1 htarget (by simp)).mono (fun _ w₃ h₃ => ?_) fun _ _ => id
  exact ⟨h₃.1, w₂, ⟨⟨h₂.2.cwd, h₂.2.environment, h₂.2.calls⟩, h₂.2.added, h₂.2.tree⟩, h₃.2⟩

/-- Copying the files of classes with proper names into the directory that a path reaches. -/
theorem copyClassFiles_filled (source : Path) (classes : List String)
    (hproper : ∀ className ∈ classes, ClassName.IsProper className)
    (hreach : (w.disk.erase l).Reaches w.cwd directory l) (h : Filled l w w₁) :
    (copyClassFiles source directory classes).wp w₁ (fun _ => Filled l w) fun _ => Filled l w := by
  have hstep := @copyClassFile_filled w
  unfold copyClassFiles at hstep ⊢
  refine Action.wp_forM_prefix (I := fun _ => Filled l w) (fun done className rest heq w₂ h₂ => ?_) h
  have hclass := hproper className (by simp [heq])
  exact (hstep source hclass hreach h₂).mono (fun _ _ h₃ => h₃.1) fun _ _ => id

/-- Deleting the files of classes with proper names. -/
theorem deleteClassFiles_filled (classes : List String)
    (hproper : ∀ className ∈ classes, ClassName.IsProper className)
    (hreach : (w.disk.erase l).Reaches w.cwd directory l) (h : Filled l w w₁) :
    (deleteClassFiles directory classes).wp w₁ (fun _ => Filled l w) fun _ => Filled l w := by
  refine Action.wp_forM _ classes (fun className hclass w₂ h₂ => ?_) h
  have hnames : ∀ name ∈ ClassName.artifactNames className, Path.IsName name := fun _ =>
    (hproper className hclass).isName_artifactNames
  rw [Action.wp_bind, Action.wp_log, (hproper className hclass).join_artifact directory,
    Action.wp_within]
  generalize (⟨.debug, "incjc::stage", "deleting class file"⟩ : Log.Event) = event
  have hlogged : Filled l w { w₂ with log := w₂.log ++ [event] } := h₂.congr rfl
  exact removeFile_filled hlogged (reaches_artifact hlogged hreach hnames) (by simp [ClassName.artifactNames])

end Fill

/-! ## The two directories of a workspace -/

/-- Where the two directories of a workspace are on a disk without them. -/
structure Placed (w : World) (ws : Workspace) (a b : Location) : Prop where
  classpath : Temporary w.disk w.cwd w.environment ws.classpath a
  destination : Temporary w.disk w.cwd w.environment ws.destination b
  classpath_check : ws.classpath.check = .ok ()
  destination_check : ws.destination.check = .ok ()
  apart : Location.Apart a b

theorem Placed.of_view (h : Placed w₁ ws a b) (hview : w₁.view = w.view) : Placed w ws a b := by
  simp only [World.view, View.mk.injEq] at hview
  obtain ⟨hdisk, hcwd, henvironment⟩ := hview
  obtain ⟨hclasspath, hdestination, hcheck, hcheck', hapart⟩ := h
  rw [hdisk, hcwd, henvironment] at hclasspath hdestination
  exact ⟨hclasspath, hdestination, hcheck, hcheck', hapart⟩

/-- The two directories stand, and without them the disk is as it was. -/
structure Stands (w : World) (a b : Location) (w₁ : World) : Prop extends w.Settled w₁ where
  tree : w₁.disk.IsTree
  rest : (w₁.disk.erase a).erase b = w.disk
  classpath : w₁.disk.find? a = some .directory
  destination : w₁.disk.find? b = some .directory

namespace Stands

theorem layout (h : Stands w a b w₁) (placed : Placed w ws a b) :
    Layout w₁.disk w₁.cwd [(ws.classpath, a), (ws.destination, b)] := by
  have herase : w₁.disk.eraseAll [a, b] = w.disk := h.rest
  refine ⟨h.tree, by simpa using placed.apart, ?_⟩
  simp only [List.map_cons, List.map_nil, herase, h.cwd, List.mem_cons, List.not_mem_nil, or_false]
  rintro site (rfl | rfl)
  · exact placed.classpath.reaches
  · exact placed.destination.reaches

theorem reaches_classpath (h : Stands w a b w₁) (placed : Placed w ws a b) :
    (w₁.disk.erase a).Reaches w₁.cwd ws.classpath a :=
  (h.layout placed).reaches_erase List.mem_cons_self

theorem reaches_destination (h : Stands w a b w₁) (placed : Placed w ws a b) :
    w₁.disk.Reaches w₁.cwd ws.destination b :=
  (h.layout placed).reaches_self (List.mem_cons_of_mem _ List.mem_cons_self)

theorem resolve_classpath (h : Stands w a b w₁) (placed : Placed w ws a b) :
    w₁.disk.resolve w₁.cwd true ws.classpath = .ok a :=
  (h.reaches_classpath placed).of_erase.resolve_of_find? h.tree placed.classpath_check h.classpath
    (by simp)

theorem resolve_destination (h : Stands w a b w₁) (placed : Placed w ws a b) :
    w₁.disk.resolve w₁.cwd true ws.destination = .ok b :=
  (h.reaches_destination placed).resolve_of_find? h.tree placed.destination_check h.destination
    (by simp)

theorem congr (h : Stands w a b w₁) (hview : w₂.view = w₁.view) : Stands w a b w₂ := by
  simp only [World.view, View.mk.injEq] at hview
  obtain ⟨hdisk, hcwd, henvironment⟩ := hview
  refine ⟨⟨hcwd.trans h.cwd, henvironment.trans h.environment⟩, ?_, ?_, ?_, ?_⟩ <;> rw [hdisk]
  · exact h.tree
  · exact h.rest
  · exact h.classpath
  · exact h.destination

theorem of_view (h : Stands w₁ a b w₂) (hview : w₁.view = w.view) : Stands w a b w₂ := by
  simp only [World.view, View.mk.injEq] at hview
  obtain ⟨hdisk, hcwd, henvironment⟩ := hview
  exact ⟨⟨h.cwd.trans hcwd, h.environment.trans henvironment⟩, h.tree, h.rest.trans hdisk,
    h.classpath, h.destination⟩

/-- Something changes in the classpath. -/
theorem of_erase (h : Stands w a b w₁) (hsettled : w₁.Settled w₂) (tree : w₂.disk.IsTree)
    (herase : w₂.disk.erase a = w₁.disk.erase a) (hclasspath : w₂.disk.find? a = some .directory)
    (hdestination : w₂.disk.find? b = some .directory) : Stands w a b w₂ :=
  ⟨h.toSettled.trans hsettled, tree, by rw [herase, h.rest], hclasspath, hdestination⟩

/-- Something changes below the destination. -/
theorem of_bounded (h : Stands w a b w₁) (placed : Placed w ws a b) (hbounded : w₁.Bounded b w₂) :
    Stands w a b w₂ := by
  refine ⟨h.toSettled.trans hbounded.toSettled, hbounded.tree h.tree, ?_, ?_, ?_⟩
  · rw [erase_erase_comm, hbounded.erase, erase_erase_comm, h.rest]
  · rw [hbounded.find? fun hcovers => ?_, h.classpath]
    rw [placed.apart.2] at hcovers
    cases hcovers
  · rw [hbounded.find? fun _ => rfl, h.destination]

end Stands

/-- Elsewhere than at its two directories, a workspace that stands changes nothing. -/
theorem Stands.find?_eq (h : Stands w a b w₁) {m : Location} (ha : a.covers m = false)
    (hb : b.covers m = false) : w₁.disk.find? m = w.disk.find? m := by
  rw [← h.rest, find?_erase_erase _ ha hb]

/-- Discarding removes the two directories of a workspace, if they are laid out. -/
theorem discard_laidOut
    (layout : Layout w.disk w.cwd [(ws.classpath, a), (ws.destination, b)])
    (ha : w.disk.find? a = some .directory) (hb : w.disk.find? b = some .directory)
    (hcheck : ws.classpath.check = .ok ()) (hcheck' : ws.destination.check = .ok ()) :
    ws.discard.wp w (fun _ w' => w' = { w with disk := (w.disk.erase a).erase b })
      fun _ _ => False := by
  have hapart : Location.Apart a b := by simpa using layout.apart
  have hreach : ((w.disk.erase a).erase b).Reaches w.cwd ws.destination b :=
    layout.reaches _ (List.mem_cons_of_mem _ List.mem_cons_self)
  have hb' : (w.disk.erase a).find? b = some .directory := by
    rw [find?_erase, if_neg (by simp [hapart.1]), hb]
  unfold Workspace.discard
  rw [Action.wp_bind]
  refine (discard_reached layout.tree (layout.reaches_erase List.mem_cons_self) ha hcheck).mono
    (fun _ w₁ h₁ => ?_) fun _ _ => id
  subst h₁
  exact discard_reached (w := { w with disk := w.disk.erase a }) (layout.tree.erase a) hreach hb'
    hcheck'

/-- Discarding a workspace brings the disk back. -/
theorem discard_restores (placed : Placed w ws a b) (h : Stands w a b w₁) :
    ws.discard.wp w₁ (fun _ w₂ => w₂.view = w.view) fun _ _ => False := by
  refine (discard_laidOut (h.layout placed) h.classpath h.destination placed.classpath_check
    placed.destination_check).mono (fun _ w₂ h₂ => ?_) fun _ _ => id
  subst h₂
  simp [World.view, h.rest, h.cwd, h.environment]

/-- Two new directories, with nothing in them yet. -/
structure Made (w : World) (ws : Workspace) (a b : Location) (w₁ : World) : Prop
    extends Placed w ws a b where
  after : w₁ = { w with disk := (w.disk.put a .directory).put b .directory }
  tree : w₁.disk.IsTree
  classpath_absent : w.disk.find? a = none
  destination_absent : w.disk.find? b = none

theorem made_of_scratched (tree : w.disk.IsTree) (hfirst : Scratched w ws.classpath a w₁)
    (hsecond : Scratched w₁ ws.destination b w₂) : Made w ws a b w₂ := by
  have tree₂ := hsecond.tree (hfirst.tree tree)
  have ha := hfirst.place.reaches.ne_nil
  obtain ⟨k, n, hleads, hak, hclasspath⟩ := hfirst.place
  obtain ⟨k', n', hleads', hbk, hdestination⟩ := hsecond.place
  obtain ⟨hafter, habsent, -, hcheck, -⟩ := hfirst
  obtain ⟨hafter', habsent', -, hcheck', -⟩ := hsecond
  subst hafter hafter'
  dsimp only at hleads' habsent' tree₂ hdestination
  have hk : k = k' := (hleads.of_keeps (keeps_put_of_none habsent)).unique hleads'
  subst hk
  rw [find?_put _ ha] at habsent'
  have hne : b ≠ a := fun heq => by simp [heq] at habsent'
  rw [if_neg hne] at habsent'
  have hnames : scratchName n ≠ scratchName n' := by
    rintro heq
    rw [hak, hbk, heq] at hne
    exact hne rfl
  have hapart : Location.Apart a b := by
    rw [hak, hbk]
    exact ⟨Location.covers_sibling hnames, Location.covers_sibling hnames.symm⟩
  have hleads₀ : Leads w.disk w.cwd (temporaryFor w.cwd w.environment) k := hleads
  exact ⟨⟨⟨k, n, hleads, hak, hclasspath⟩, ⟨k, n', hleads₀, hbk, hdestination⟩, hcheck, hcheck',
    hapart⟩, rfl, tree₂, habsent, habsent'⟩

/-- Making a workspace makes two directories, or fails and brings the disk back. -/
theorem make_made (tree : w.disk.IsTree) :
    Workspace.make.wp w (fun ws w₁ => ∃ a b, Made w ws a b w₁) fun _ w₁ => w₁.view = w.view := by
  unfold Workspace.make
  rw [Action.wp_bind]
  refine makeScratch_scratched.mono (fun classpath w₁ h₁ => ?_) fun _ w₁ h => by rw [h]
  obtain ⟨a, hfirst⟩ := h₁
  have ha := hfirst.place.reaches.ne_nil
  have hwithout : w₁.disk.erase a = w.disk := by
    rw [hfirst.after]
    dsimp only
    rw [erase_put _ (Location.covers_self a), tree.erase_of_none ha hfirst.absent]
  rw [Action.wp_undoing, Action.wp_bind]
  refine makeScratch_scratched.mono (fun destination w₂ h₂ => ?_) fun _ w₂ h => ?_
  · obtain ⟨b, hsecond⟩ := h₂
    have hmade := @made_of_scratched w w₁ w₂ ⟨classpath, destination⟩ a b tree hfirst hsecond
    exact (Action.wp_pure _).2 ⟨a, b, hmade⟩
  · subst h
    have hreach : (w₂.disk.erase a).Reaches w₂.cwd classpath a := by
      rw [hwithout, hfirst.after]
      exact hfirst.place.reaches
    have hdir : w₂.disk.find? a = some .directory := by
      rw [hfirst.after]
      simp [find?_put _ ha]
    refine (discard_reached (hfirst.tree tree) hreach hdir hfirst.check).mono (fun _ w₃ h₃ => ?_)
      fun _ _ => False.elim
    subst h₃
    rw [World.view, hwithout, hfirst.after, World.view]

theorem Made.find?_eq (h : Made w ws a b w₁) (m : Location) :
    w₁.disk.find? m = if m = b ∨ m = a then some .directory else w.disk.find? m := by
  rw [h.after]
  dsimp only
  rw [find?_put _ h.destination.reaches.ne_nil, find?_put _ h.classpath.reaches.ne_nil]
  by_cases hb : m = b <;> by_cases ha : m = a <;> simp [hb, ha]

/-- The classpath stands and no link is in it. -/
structure Plain (w : World) (a b : Location) (w₁ : World) : Prop extends Stands w a b w₁ where
  not_link : ∀ m : Location, a.covers m = true → ∀ target, w₁.disk.find? m ≠ some (.link target)

theorem Made.plain (h : Made w ws a b w₁) (tree : w.disk.IsTree) : Plain w a b w₁ := by
  have ha := h.classpath.reaches.ne_nil
  have hb := h.destination.reaches.ne_nil
  refine ⟨⟨?_, h.tree, ?_, by simp [h.find?_eq], by simp [h.find?_eq]⟩, fun m hm target => ?_⟩
  · rw [h.after]
    exact ⟨rfl, rfl⟩
  · rw [h.after]
    dsimp only
    rw [erase_erase_comm, erase_put _ (Location.covers_self b), erase_erase_comm,
      erase_put _ (Location.covers_self a), tree.erase_of_none ha h.classpath_absent,
      tree.erase_of_none hb h.destination_absent]
  · rw [h.find?_eq]
    split_ifs with hnew
    · simp
    · intro hlink
      obtain ⟨rest, rfl⟩ := Location.covers_iff.1 hm
      have hrest : rest ≠ [] := by
        rintro rfl
        simp at hnew
      have hdir := tree.directory_of_append hlink hrest
      rw [h.classpath_absent] at hdir
      cases hdir

/-- Files and directories are put into the classpath. -/
theorem Plain.of_filled (h : Plain w a b w₁) (placed : Placed w ws a b) (hfilled : Filled a w₁ w₂) :
    Plain w a b w₂ := by
  obtain ⟨hdir, herase⟩ := hfilled.directory h.classpath
  refine ⟨h.of_erase hfilled.toSettled hfilled.tree herase hdir ?_, hfilled.not_link⟩
  rw [hfilled.outside.eq_of_apart placed.apart (Location.covers_self b), h.destination]

/-- Copying the files of classes with proper names changes the classpath only. -/
theorem copyClassFiles_plain (output : Path) (classes : List String)
    (hproper : ∀ className ∈ classes, ClassName.IsProper className) (placed : Placed w ws a b)
    (h : Plain w a b w₁) :
    (copyClassFiles output ws.classpath classes).wp w₁ (fun _ => Plain w a b)
      fun _ => Plain w a b := by
  have hcopy := copyClassFiles_filled output classes hproper (h.reaches_classpath placed)
    (.refl h.tree h.not_link)
  exact hcopy.mono (fun _ _ => h.of_filled placed) fun _ _ => h.of_filled placed

/-- Staging gives a workspace that stands, or brings the disk back. -/
theorem stage_stands (tree : w.disk.IsTree) (output : Path) (classes : List String)
    (hproper : ∀ className ∈ classes, ClassName.IsProper className) :
    (Workspace.stage output classes).wp w
      (fun ws w₁ => ∃ a b, Placed w ws a b ∧ Stands w a b w₁) fun _ w₁ => w₁.view = w.view := by
  unfold Workspace.stage
  rw [Action.wp_bind]
  refine (make_made tree).mono (fun ws w₁ h₁ => ?_) fun _ _ => id
  obtain ⟨a, b, hmade⟩ := h₁
  have placed := hmade.toPlaced
  have hplain := hmade.plain tree
  rw [Action.wp_bind, Action.wp_undoing]
  refine (copyClassFiles_plain output classes hproper placed hplain).mono (fun _ w₂ h₂ => ?_)
    fun _ w₂ h₂ => ?_
  · exact (Action.wp_pure _).2 ⟨a, b, placed, h₂.toStands⟩
  · exact (discard_restores placed h₂.toStands).mono (fun _ _ => id) fun _ _ => False.elim

end Staging

end Recompile
