import Recompile.Proofs.Directory.Emptied
import Recompile.Proofs.Directory.Search
import Recompile.Proofs.Staging.Copied

/-!
# What publishing changes

Deleting and copying the files of classes changes these files and nothing else, in whatever order the
classes are taken. That needs no more than a path whose names go down from the directory without a
link on the way; the directory itself may still be missing.
-/

namespace Recompile

namespace Disk

variable {d d' : Disk} {cwd o b l : Location} {p : Path} {names : List String}

/-- Names pushed onto the path reach the places below `o`. -/
def ReachesBelow (d : Disk) (cwd : Location) (p : Path) (o : Location) : Prop :=
  ∀ names, names ≠ [] → (∀ name ∈ names, Path.IsName name) →
    d.Reaches cwd (names.foldl Path.push p) (o ++ names)

/-- The path opens the place `o`: names pushed onto it reach what is below, and no link is there. -/
structure Opens (d : Disk) (cwd : Location) (p : Path) (o : Location) : Prop where
  tree : d.IsTree
  reaches : d.ReachesBelow cwd p o
  not_link : ∀ m : Location, o.covers m = true → ∀ target, d.find? m ≠ some (.link target)

theorem Opens.of_ways (h : d.Opens cwd p o) (tree : d'.IsTree) (ways : d.KeepsWays d')
    (hlinks : ∀ m : Location, m.covers o = true ∨ o.covers m = true →
      ∀ target, d'.find? m = some (.link target) → d.find? m = some (.link target)) :
    d'.Opens cwd p o := by
  refine ⟨tree, fun names hne hnames => ?_, fun m hm target hlink => ?_⟩
  · refine (h.reaches names hne hnames).of_ways ways fun top htop _ hnot target hlink => ?_
    have hbetween := Location.covers_total htop (Location.covers_append o names)
    exact hnot target (hlinks top hbetween target hlink)
  · exact h.not_link m hm target (hlinks m (.inr hm) target hlink)

/-- The normal form of a place opens it on a disk without links. -/
theorem opens_toPath (tree : d.IsTree) (hlinks : ∀ l target, d.find? l ≠ some (.link target))
    (ho : o.IsProper) (hne : o ≠ []) : d.Opens cwd o.toPath o := by
  refine ⟨tree, fun names hnil hnames => ?_, fun m _ => hlinks m⟩
  obtain ⟨init, last, rfl⟩ := List.eq_nil_or_concat names |>.resolve_left hnil
  rw [List.concat_eq_append] at hnames ⊢
  have hproper : Location.IsProper (o ++ (init ++ [last])) := fun name hname =>
    (List.mem_append.1 hname).elim (ho name) (hnames name)
  rw [Location.toPath_eq_foldl_push hne ho, ← List.foldl_append,
    ← Location.toPath_eq_foldl_push (by simp) hproper]
  rw [← List.append_assoc] at hproper ⊢
  exact reaches_toPath hproper fun top _ => hlinks top

/-- Names pushed onto a path that leads to a directory reach the file that is there. -/
theorem Leads.reaches_file {bytes : ByteArray} (tree : d.IsTree) (h : Leads d cwd p b)
    (hfile : d.fileAt (b ++ names) = some bytes) (hne : names ≠ []) :
    d.Reaches cwd (names.foldl Path.push p) (b ++ names) := by
  obtain ⟨runnable, hfind⟩ := fileAt_eq_some_iff.1 hfile
  obtain ⟨name, rest, rfl⟩ := List.exists_cons_of_ne_nil hne
  have hsplit : b ++ name :: rest = b ++ [name] ++ rest := by simp
  have hname := tree.isName_of_mem hfind List.mem_cons_self
  have hreach : d.Reaches cwd (p.push name) (b ++ [name]) := h.reaches_push hname
  rw [hsplit] at hfind ⊢
  exact hreach.foldl_push_of_find? tree hfind

end Disk

namespace Staging

open Directory Disk World

attribute [local irreducible] Action.wp

variable {w w₁ w₂ w₃ : World} {o b : Location} {output destination : Path} {className : String}
  {classes : List String}

/-- Files below `o` have come or gone. Apart from that only directories were made. -/
structure Edited (o : Location) (w w' : World) : Prop extends World.Settled w w' where
  tree : w'.disk.IsTree
  ways : w.disk.KeepsWays w'.disk
  links : ∀ m target, w'.disk.find? m = some (.link target) → w.disk.find? m = some (.link target)
  files : ∀ m : Location, o.covers m = false → w'.disk.fileAt m = w.disk.fileAt m

namespace Edited

theorem refl (tree : w.disk.IsTree) : Edited o w w :=
  ⟨.refl w, tree, fun _ _ h _ => h, fun _ _ h => h, fun _ _ => rfl⟩

theorem trans (h : Edited o w₁ w₂) (h' : Edited o w₂ w₃) : Edited o w₁ w₃ :=
  ⟨h.toSettled.trans h'.toSettled, h'.tree,
    fun m e hm hfile => h'.ways m e (h.ways m e hm hfile) hfile,
    fun m target hm => h.links m target (h'.links m target hm),
    fun m hm => (h'.files m hm).trans (h.files m hm)⟩

theorem opens (h : Edited o w w₁) {l : Location} (hopens : w.disk.Opens w.cwd output l) :
    w₁.disk.Opens w₁.cwd output l := by
  rw [h.cwd]
  exact hopens.of_ways h.tree h.ways fun m _ => h.links m

theorem leads (h : Edited o w w₁) {l : Location} (hleads : Leads w.disk w.cwd destination l) :
    Leads w₁.disk w₁.cwd destination l := by
  rw [h.cwd]
  exact hleads.of_ways h.ways

end Edited

theorem edited_spread (tree : w.disk.IsTree) (h : w.Spread w₁) : Edited o w w₁ := by
  refine ⟨h.settled, h.tree tree, h.added.keeps.ways, fun m target hm => ?_,
    fun m _ => h.added.fileAt m⟩
  rcases h.added m with hsame | ⟨-, hdir⟩
  · rwa [← hsame]
  · rw [hdir] at hm
    cases hm

/-- A file below `o` was taken away. -/
theorem edited_erase {l : Location} (tree : w.disk.IsTree) (hl : o.covers l = true)
    {bytes : ByteArray} (hfile : w.disk.fileAt l = some bytes) :
    Edited o w { w with disk := w.disk.erase l } ∧ (w.disk.erase l).fileAt l = none ∧
      ∀ m ≠ l, (w.disk.erase l).fileAt m = w.disk.fileAt m := by
  obtain ⟨runnable, hfind⟩ := fileAt_eq_some_iff.1 hfile
  have hne : l ≠ [] := by
    rintro rfl
    simp at hfind
  -- nothing is below a file
  have hother (m : Location) (hm : m ≠ l) : (w.disk.erase l).find? m = w.disk.find? m := by
    rw [find?_erase]
    split_ifs with hcond
    · obtain ⟨rest, rfl⟩ := Location.covers_iff.1 hcond.2
      exact (tree.find?_append (by simp [hfind]) (by simpa using hm)).symm
    · rfl
  have hself : (w.disk.erase l).find? l = none := by
    rw [find?_erase, if_pos ⟨hne, Location.covers_self l⟩]
  have hfiles (m : Location) (hm : m ≠ l) : (w.disk.erase l).fileAt m = w.disk.fileAt m := by
    rw [fileAt, fileAt, hother m hm]
  refine ⟨⟨⟨rfl, rfl⟩, tree.erase l, fun m e hm hentry => ?_, fun m target hm => ?_,
    fun m hm => hfiles m ?_⟩, by rw [fileAt, hself], hfiles⟩
  on_goal 3 =>
    rintro rfl
    rw [hl] at hm
    cases hm
  · rw [← hm]
    refine hother m ?_
    rintro rfl
    rw [hfind] at hm
    cases hm
    cases hentry
  · by_cases hml : m = l
    · rw [hml, hself] at hm
      cases hm
    · rwa [hother m hml] at hm

/-- Deleting the file of one class. -/
theorem deleteClassFile_edited (hproper : ClassName.IsProper className)
    (h : w.disk.Opens w.cwd output o) :
    (deleteClassFiles output [className]).wp w
      (fun _ w' => Edited o w w' ∧
        w'.disk.fileAt (o ++ ClassName.artifactNames className) = none ∧
        ∀ m ≠ o ++ ClassName.artifactNames className, w'.disk.fileAt m = w.disk.fileAt m)
      fun _ _ => True := by
  have hnames : ∀ name ∈ ClassName.artifactNames className, Path.IsName name := fun _ =>
    hproper.isName_artifactNames
  have hartifact := h.reaches _ (by simp [ClassName.artifactNames]) hnames
  unfold deleteClassFiles
  simp only [List.forM]
  rw [Action.wp_bind, Action.wp_bind, Action.wp_log, hproper.join_artifact output]
  simp only [Action.wp_within, Action.wp_change, Action.wp_pure]
  cases hremove : w.disk.removeFile w.cwd
    ((ClassName.artifactNames className).foldl Path.push output) with
  | error fault => trivial
  | ok d =>
    obtain ⟨-, ⟨e, hfind, hne⟩, rfl⟩ := (hartifact.removeFile_eq_ok_iff h.tree).1 hremove
    cases e with
    | directory => exact absurd rfl hne
    | link target => exact absurd hfind (h.not_link _ (Location.covers_append o _) target)
    | file bytes runnable =>
      obtain ⟨hedited, hrest⟩ := edited_erase h.tree (Location.covers_append o _)
        (fileAt_eq_some_iff.2 ⟨runnable, hfind⟩)
      exact ⟨⟨⟨hedited.cwd, hedited.environment⟩, hedited.tree, hedited.ways, hedited.links,
        hedited.files⟩, hrest⟩

/-- A file was copied to a place below `o`. -/
theorem edited_copied {source : Path} {l : Location} (hl : o.covers l = true)
    (hlink : ∀ target, w.disk.find? l ≠ some (.link target)) (h : CopiedFrom source l w w₁) :
    Edited o w w₁ := by
  refine ⟨h.settled, h.put.tree, fun m e hm hentry => ?_, fun m target hm => ?_,
    fun m hm => h.put.fileAt_other ?_⟩
  · rw [← hm]
    refine h.put.other m ?_
    rintro rfl
    cases e with
    | file => cases hentry
    | directory => exact h.replaced hm
    | link target => exact hlink target hm
  · rw [← h.put.other m ?_, hm]
    rintro rfl
    obtain ⟨bytes, runnable, hfile⟩ := h.put.file
    rw [hfile] at hm
    cases hm
  · rintro rfl
    rw [hl] at hm
    cases hm

/-- The file of one class below `o` was replaced by the one that the source leads to. -/
structure ClassPublished (source : Path) (o : Location) (className : String) (w w' : World) : Prop
    extends Edited o w w' where
  others : ∀ m ≠ o ++ ClassName.artifactNames className, w'.disk.fileAt m = w.disk.fileAt m
  copied : ∃ bytes', w'.disk.fileAt (o ++ ClassName.artifactNames className) = some bytes' ∧
    ∀ b bytes, Leads w.disk w.cwd source b → Location.Apart o b →
      w.disk.fileAt (b ++ ClassName.artifactNames className) = some bytes → bytes' = bytes

/-- Copying the file of one class from another directory. -/
theorem copyClassFile_edited (source : Path) (hproper : ClassName.IsProper className)
    (h : w.disk.Opens w.cwd output o) :
    (copyClassFiles source output [className]).wp w
      (fun _ => ClassPublished source o className w) fun _ _ => True := by
  have hnames : ∀ name ∈ ClassName.artifactNames className, Path.IsName name := fun _ =>
    hproper.isName_artifactNames
  have hne : ClassName.artifactNames className ≠ [] := by simp [ClassName.artifactNames]
  unfold copyClassFiles
  simp only [List.forM]
  rw [Action.wp_bind, Action.wp_bind, Action.wp_log, hproper.join_artifact output,
    hproper.join_artifact source]
  generalize hlogged : ({ w with log := w.log ++ [⟨.debug, "incjc::stage", "copying class"⟩] } : World) =
    w₁
  have hopens : w₁.disk.Opens w₁.cwd output o := hlogged ▸ h
  have hsame : w₁.disk = w.disk ∧ w₁.cwd = w.cwd ∧ w₁.environment = w.environment := by
    rw [← hlogged]
    exact ⟨rfl, rfl, rfl⟩
  obtain ⟨hdisk, hcwd, henvironment⟩ := hsame
  have hcopy (w₂ : World) (hspread : w₁.Spread w₂) :
      (Action.within (.copyingClass ((ClassName.artifactNames className).foldl Path.push source)
          ((ClassName.artifactNames className).foldl Path.push output))
        (copyFile ((ClassName.artifactNames className).foldl Path.push source)
          ((ClassName.artifactNames className).foldl Path.push output))).wp w₂
        (fun _ => ClassPublished source o className w) fun _ _ => True := by
    have hedited : Edited o w₁ w₂ := edited_spread hopens.tree hspread
    have hopens₂ := hedited.opens hopens
    have htarget := hopens₂.reaches _ hne hnames
    have hlink := hopens₂.not_link _ (Location.covers_append o (ClassName.artifactNames className))
    rw [Action.wp_within]
    refine (copyFile_reached hopens₂.tree htarget hlink).mono (fun _ w₃ hcopied => ?_)
      fun _ _ _ => trivial
    have hedited₃ := hedited.trans (edited_copied (Location.covers_append o _) hlink hcopied)
    have hfiles (m : Location) : w₂.disk.fileAt m = w.disk.fileAt m := by
      rw [hspread.added.fileAt, hdisk]
    refine ⟨⟨⟨hedited₃.cwd.trans hcwd, hedited₃.environment.trans henvironment⟩, hedited₃.tree,
      hdisk ▸ hedited₃.ways, hdisk ▸ hedited₃.links, hdisk ▸ hedited₃.files⟩, fun m hm => ?_, ?_⟩
    · rw [hcopied.put.fileAt_other hm, hfiles]
    · obtain ⟨bytes', runnable, hput⟩ := hcopied.put.file
      refine ⟨bytes', fileAt_eq_some_iff.2 ⟨runnable, hput⟩, fun b bytes hleads hapart hbytes => ?_⟩
      obtain ⟨place, copied, hresolve, hcopy, hput'⟩ := hcopied.bytes
      have hleads₂ : Leads w₂.disk w₂.cwd source b := by
        rw [hspread.cwd, hcwd]
        exact hleads.of_keeps (hdisk ▸ hspread.added.keeps)
      have hsource := hleads₂.reaches_file hopens₂.tree ((hfiles _).trans hbytes) hne
      obtain ⟨runnable', hfind⟩ := fileAt_eq_some_iff.1 ((hfiles _).trans hbytes)
      obtain ⟨rfl, -⟩ := hsource.resolve_eq_ok (by simp [hfind]) hresolve
      obtain rfl : copied = bytes := by simpa [hfiles, hbytes] using hcopy.symm
      have hne' : b ++ ClassName.artifactNames className ≠ o ++ ClassName.artifactNames className := by
        intro heq
        obtain rfl := List.append_cancel_right heq
        simp [Location.Apart, Location.covers_self] at hapart
      have hcopied := hput' hne'
      rw [fileAt_eq_some_iff.2 ⟨runnable, hput⟩] at hcopied
      exact Option.some.inj hcopied
  simp only [Action.wp_pure]
  split
  · rw [Action.wp_bind, Action.wp_within]
    exact (create_spread _).mono (fun _ w₂ h₂ => hcopy w₂ h₂) fun _ _ _ => trivial
  · exact hcopy w₁ (.refl w₁)

/-- Below `o` exactly the files of these classes are gone. -/
structure Lost (o : Location) (dropped : String → Prop) (d d' : Disk) : Prop where
  gone : ∀ className, dropped className → d'.fileAt (o ++ ClassName.artifactNames className) = none
  others : ∀ names, (∀ className, dropped className → names ≠ ClassName.artifactNames className) →
    d'.fileAt (o ++ names) = d.fileAt (o ++ names)

theorem Lost.congr {dropped dropped' : String → Prop} {d d' : Disk} (h : Lost o dropped d d')
    (hdropped : ∀ className, dropped className ↔ dropped' className) : Lost o dropped' d d' := by
  obtain rfl : dropped = dropped' := funext fun className => propext (hdropped className)
  exact h

/-- The files of the classes were deleted below `o`, and no others. -/
structure Deleted (o : Location) (classes : List String) (w w' : World) : Prop
    extends Edited o w w', Lost o (· ∈ classes) w.disk w'.disk

theorem deleteClassFiles_deleted (hproper : ∀ className ∈ classes, ClassName.IsProper className)
    (h : w.disk.Opens w.cwd output o) :
    (deleteClassFiles output classes).wp w (fun _ => Deleted o classes w) fun _ _ => True := by
  have hstep := @deleteClassFile_edited
  unfold deleteClassFiles at hstep ⊢
  refine Action.wp_forM_prefix (I := fun done => Deleted o done w)
    (fun done className rest heq w₁ h₁ => ?_) ⟨.refl h.tree, by simp, fun _ _ => rfl⟩
  refine (hstep (hproper className (by simp [heq])) (h₁.opens h)).mono (fun _ w₂ h₂ => ?_)
    fun _ _ _ => trivial
  obtain ⟨hedited, hgone, hothers⟩ := h₂
  refine ⟨h₁.toEdited.trans hedited, fun other hother => ?_, fun names hnames => ?_⟩
  · by_cases hsame : other = className
    · rw [hsame, hgone]
    · rw [hothers _ fun heq' => hsame (ClassName.artifactNames_injective (List.append_cancel_left heq'))]
      exact h₁.gone other (by simpa [hsame] using hother)
  · rw [hothers _ fun heq' => hnames className (by simp) (List.append_cancel_left heq')]
    exact h₁.others names fun other hother => hnames other (List.mem_append_left _ hother)

/-- The files of the classes were copied below `o` from the directory that the source leads to, and
no others were changed. -/
structure Replaced (source : Path) (o : Location) (classes : List String) (w w' : World) : Prop
    extends Edited o w w' where
  copied : ∀ className ∈ classes, ∃ bytes',
    w'.disk.fileAt (o ++ ClassName.artifactNames className) = some bytes' ∧
      ∀ b bytes, Leads w.disk w.cwd source b → Location.Apart o b →
        w.disk.fileAt (b ++ ClassName.artifactNames className) = some bytes → bytes' = bytes
  others : ∀ names, (∀ className ∈ classes, names ≠ ClassName.artifactNames className) →
    w'.disk.fileAt (o ++ names) = w.disk.fileAt (o ++ names)

theorem copyClassFiles_replaced (source : Path)
    (hproper : ∀ className ∈ classes, ClassName.IsProper className)
    (h : w.disk.Opens w.cwd output o) :
    (copyClassFiles source output classes).wp w (fun _ => Replaced source o classes w)
      fun _ _ => True := by
  have hstep := @copyClassFile_edited
  unfold copyClassFiles at hstep ⊢
  refine Action.wp_forM_prefix (I := fun done => Replaced source o done w)
    (fun done className rest heq w₁ h₁ => ?_) ⟨.refl h.tree, by simp, fun _ _ => rfl⟩
  refine (hstep source (hproper className (by simp [heq])) (h₁.opens h)).mono (fun _ w₂ h₂ => ?_)
    fun _ _ _ => trivial
  refine ⟨h₁.toEdited.trans h₂.toEdited, fun other hother => ?_, fun names hnames => ?_⟩
  · by_cases hsame : other = className
    · subst hsame
      obtain ⟨bytes', hbytes', hcopied⟩ := h₂.copied
      refine ⟨bytes', hbytes', fun b bytes hleads hapart hbytes => ?_⟩
      refine hcopied b bytes (h₁.leads hleads) hapart ?_
      rw [h₁.files _ (hapart.symm.not_covers (Location.covers_append b _)), hbytes]
    · obtain ⟨bytes', hbytes', hcopied⟩ := h₁.copied other (by simpa [hsame] using hother)
      refine ⟨bytes', ?_, hcopied⟩
      rw [h₂.others _ fun heq' => hsame (ClassName.artifactNames_injective (List.append_cancel_left heq')),
        hbytes']
  · rw [h₂.others _ fun heq' => hnames className (by simp) (List.append_cancel_left heq')]
    exact h₁.others names fun other hother => hnames other (List.mem_append_left _ hother)

/-- What publishing comes to below `o`. The reported classes have the files that they had below `b`,
the dropped ones that are not reported have none, and every other file is as before. -/
structure PublishedFrom (b o : Location) (dropped reported : String → Prop) (d d' : Disk) : Prop where
  copied : ∀ className, reported className → ∃ bytes',
    d'.fileAt (o ++ ClassName.artifactNames className) = some bytes' ∧
      ∀ bytes, d.fileAt (b ++ ClassName.artifactNames className) = some bytes → bytes' = bytes
  gone : ∀ className, dropped className → ¬ reported className →
    d'.fileAt (o ++ ClassName.artifactNames className) = none
  others : ∀ names, (∀ className, dropped className ∨ reported className →
    names ≠ ClassName.artifactNames className) → d'.fileAt (o ++ names) = d.fileAt (o ++ names)

namespace PublishedFrom

variable {dropped reported : String → Prop} {d d' : Disk}

theorem congr {dropped' reported' : String → Prop} (h : PublishedFrom b o dropped reported d d')
    (hdropped : ∀ className, dropped className ↔ dropped' className)
    (hreported : ∀ className, reported className ↔ reported' className) :
    PublishedFrom b o dropped' reported' d d' := by
  obtain rfl : dropped = dropped' := funext fun className => propext (hdropped className)
  obtain rfl : reported = reported' := funext fun className => propext (hreported className)
  exact h

/-- Below `b` and `o` nothing had changed before. -/
theorem of_eq {before : Disk} (h : PublishedFrom b o dropped reported d d')
    (hb : ∀ names, d.fileAt (b ++ names) = before.fileAt (b ++ names))
    (ho : ∀ names, d.fileAt (o ++ names) = before.fileAt (o ++ names)) :
    PublishedFrom b o dropped reported before d' := by
  refine ⟨fun className hclass => ?_, h.gone, fun names hnames => (h.others names hnames).trans (ho _)⟩
  obtain ⟨bytes', hbytes', hcopied⟩ := h.copied className hclass
  exact ⟨bytes', hbytes', fun bytes hbytes => hcopied bytes ((hb _).trans hbytes)⟩

/-- Below `o` nothing has changed since. -/
theorem of_after {after : Disk} (h : PublishedFrom b o dropped reported d d')
    (ho : ∀ names, after.fileAt (o ++ names) = d'.fileAt (o ++ names)) :
    PublishedFrom b o dropped reported d after := by
  refine ⟨fun className hclass => ?_, fun className hclass hnot => (ho _).trans (h.gone _ hclass hnot),
    fun names hnames => (ho names).trans (h.others names hnames)⟩
  obtain ⟨bytes', hbytes', hcopied⟩ := h.copied className hclass
  exact ⟨bytes', (ho _).trans hbytes', hcopied⟩

/-- Where the files of the reported classes are below `b`, they determine what is below `o`. -/
theorem unique {d'' : Disk} (h : PublishedFrom b o dropped reported d d')
    (h' : PublishedFrom b o dropped reported d d'')
    (hfiles : ∀ className, reported className →
      (d.fileAt (b ++ ClassName.artifactNames className)).isSome) (names : List String) :
    d''.fileAt (o ++ names) = d'.fileAt (o ++ names) := by
  by_cases hreported : ∃ className, reported className ∧ names = ClassName.artifactNames className
  · obtain ⟨className, hclass, rfl⟩ := hreported
    obtain ⟨bytes, hbytes⟩ := Option.isSome_iff_exists.1 (hfiles className hclass)
    obtain ⟨_, hafter, hcopied⟩ := h.copied className hclass
    obtain ⟨_, hafter', hcopied'⟩ := h'.copied className hclass
    rw [hafter, hafter', hcopied bytes hbytes, hcopied' bytes hbytes]
  by_cases hdropped : ∃ className, dropped className ∧ names = ClassName.artifactNames className
  · obtain ⟨className, hclass, rfl⟩ := hdropped
    have hnot : ¬ reported className := fun h => hreported ⟨className, h, rfl⟩
    rw [h.gone className hclass hnot, h'.gone className hclass hnot]
  have hnames (className : String) (hclass : dropped className ∨ reported className) :
      names ≠ ClassName.artifactNames className := by
    rintro rfl
    exact hclass.elim (fun h => hdropped ⟨className, h, rfl⟩) fun h => hreported ⟨className, h, rfl⟩
  rw [h.others names hnames, h'.others names hnames]

end PublishedFrom

/-- Publishing deletes the files of some classes and then copies the files of some classes. -/
theorem publish_from {deletes copies : List String} (h : w.disk.Opens w.cwd output o)
    (hleads : Leads w.disk w.cwd destination b) (hapart : Location.Apart o b)
    (hdeletes : ∀ className ∈ deletes, ClassName.IsProper className)
    (hcopies : ∀ className ∈ copies, ClassName.IsProper className) :
    (do
      deleteClassFiles output deletes
      copyClassFiles destination output copies).wp w
      (fun _ w' => Edited o w w' ∧
        PublishedFrom b o (· ∈ deletes) (· ∈ copies) w.disk w'.disk)
      fun _ _ => True := by
  rw [Action.wp_bind]
  refine (deleteClassFiles_deleted hdeletes h).mono (fun _ w₁ h₁ => ?_) fun _ _ _ => trivial
  refine (copyClassFiles_replaced destination hcopies (h₁.opens h)).mono (fun _ w₂ h₂ => ?_)
    fun _ _ _ => trivial
  refine ⟨h₁.toEdited.trans h₂.toEdited, fun className hclass => ?_, fun className hclass hnot => ?_,
    fun names hnames => ?_⟩
  · obtain ⟨bytes', hbytes', hcopied⟩ := h₂.copied className hclass
    refine ⟨bytes', hbytes', fun bytes hbytes => hcopied b bytes (h₁.leads hleads) hapart ?_⟩
    rw [h₁.files _ (hapart.symm.not_covers (Location.covers_append b _)), hbytes]
  · rw [h₂.others _ fun other hother heq => ?_]
    · exact h₁.gone className hclass
    · obtain rfl := ClassName.artifactNames_injective heq
      exact hnot hother
  · rw [h₂.others names fun other hother => hnames other (.inr hother)]
    exact h₁.others names fun other hother => hnames other (.inl hother)

end Staging

end Recompile
