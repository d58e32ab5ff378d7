import Recompile.Proofs.Build.Places
import Recompile.Proofs.Disk.ClassFile
import Recompile.Proofs.Staging

/-!
# What a build changes outside of its places

Outside of its places a build makes directories where nothing was, and it makes, replaces and deletes
class files; the tools may do so with other files too. Directories and links stay, so that the paths
of a build still reach its places.
-/

namespace Recompile

namespace Disk

variable {free : Location → Prop} {m : Location} {d d' d'' : Disk}

/-- At this place nothing has changed, or a directory is new, or one of the files that are free to
come and go has done so. -/
def Drifts (free : Location → Prop) (m : Location) (d d' : Disk) : Prop :=
  d'.find? m = d.find? m ∨ (d.find? m = none ∧ d'.find? m = some .directory) ∨
    (free m ∧ (∀ e, d.find? m = some e → e.isFile = true) ∧
      ∀ target, d'.find? m ≠ some (.link target))

namespace Drifts

theorem trans (h : Drifts free m d d') (h' : Drifts free m d' d'') : Drifts free m d d'' := by
  rcases h' with hsame' | ⟨hnone', hdir'⟩ | ⟨hfree', hfile', hlink'⟩
  · unfold Drifts
    rw [hsame']
    exact h
  · rcases h with hsame | ⟨-, hdir⟩ | ⟨hfree, hfile, -⟩
    · exact .inr (.inl ⟨hsame ▸ hnone', hdir'⟩)
    · rw [hdir] at hnone'
      cases hnone'
    · exact .inr (.inr ⟨hfree, hfile, by simp [hdir']⟩)
  · rcases h with hsame | ⟨-, hdir⟩ | ⟨-, hfile, -⟩
    · exact .inr (.inr ⟨hfree', hsame ▸ hfile', hlink'⟩)
    · cases hfile' _ hdir
    · exact .inr (.inr ⟨hfree', hfile, hlink'⟩)

/-- A directory or a link stays. -/
theorem eq_of_not_isFile (h : Drifts free m d d') {e : Entry} (hfind : d.find? m = some e)
    (he : e.isFile = false) : d'.find? m = some e := by
  rcases h with hsame | ⟨hnone, -⟩ | ⟨-, hfile, -⟩
  · rw [hsame, hfind]
  · rw [hnone] at hfind
    cases hfind
  · rw [hfile e hfind] at he
    cases he

/-- No link is new. -/
theorem link (h : Drifts free m d d') {target : Path} (hfind : d'.find? m = some (.link target)) :
    d.find? m = some (.link target) := by
  rcases h with hsame | ⟨-, hdir⟩ | ⟨-, -, hlink⟩
  · rw [← hsame, hfind]
  · rw [hdir] at hfind
    cases hfind
  · exact absurd hfind (hlink target)

/-- A file that is not free to go stays as it is. -/
theorem eq_of_not_free (h : Drifts free m d d') (hfree : ¬free m) {e : Entry}
    (hfind : d.find? m = some e) : d'.find? m = some e := by
  rcases h with hsame | ⟨hnone, -⟩ | ⟨hfree', -⟩
  · rw [hsame, hfind]
  · rw [hnone] at hfind
    cases hfind
  · exact absurd hfree' hfree

end Drifts

end Disk

namespace World

open Disk

variable {free : Location → Prop} {places more : List Location} {w w' w₁ w₂ : World}

/-- At some places anything has changed, elsewhere only directories are new and files that are free to
have come and gone. -/
structure Drifted (free : Location → Prop) (places : List Location) (w w' : World) : Prop
    extends Settled w w' where
  tree : w'.disk.IsTree
  outside : ∀ m : Location, (∀ l ∈ places, l.covers m = false) → Drifts free m w.disk w'.disk

namespace Drifted

theorem refl (tree : w.disk.IsTree) : Drifted free places w w := ⟨.refl w, tree, fun _ _ => .inl rfl⟩

theorem trans (h : Drifted free places w w₁) (h' : Drifted free places w₁ w₂) :
    Drifted free places w w₂ :=
  ⟨h.toSettled.trans h'.toSettled, h'.tree, fun m hm => (h.outside m hm).trans (h'.outside m hm)⟩

theorem mono (h : Drifted free places w w') (hsub : places ⊆ more) : Drifted free more w w' :=
  ⟨h.toSettled, h.tree, fun m hm => h.outside m fun l hl => hm l (hsub hl)⟩

theorem congr (h : Drifted free places w w₁) (hview : w₂.view = w₁.view) :
    Drifted free places w w₂ := by
  simp only [World.view, View.mk.injEq] at hview
  obtain ⟨hdisk, hcwd, henvironment⟩ := hview
  refine ⟨⟨hcwd.trans h.cwd, henvironment.trans h.environment⟩, ?_, ?_⟩ <;> rw [hdisk]
  · exact h.tree
  · exact h.outside

theorem of_view (tree : w.disk.IsTree) (hview : w'.view = w.view) : Drifted free places w w' :=
  (refl tree).congr hview

theorem of_altered (h : w.Altered places w') : Drifted free places w w' := by
  refine ⟨h.toSettled, h.tree, fun m hm => ?_⟩
  rcases h.outside m hm with hsame | ⟨-, hnew⟩
  · exact .inl hsame
  · exact .inr (.inl hnew)

theorem of_spread (tree : w.disk.IsTree) (h : w.Spread w') : Drifted free places w w' := by
  refine ⟨h.toSteady.settled, h.tree tree, fun m _ => ?_⟩
  rcases h.added m with hsame | hnew
  · exact .inl hsame
  · exact .inr (.inl hnew)

/-- A layout of which these are places stays one. -/
theorem layout {sites : List (Path × Location)} (h : Drifted free places w w')
    (layout : Disk.Layout w.disk w.cwd sites) (hplaces : places ⊆ sites.map Prod.snd) :
    Disk.Layout w'.disk w'.cwd sites := by
  have hout (m : Location) (hm : ∀ l ∈ sites.map Prod.snd, l.covers m = false) :
      Drifts free m w.disk w'.disk := h.outside m fun l hl => hm l (hplaces hl)
  rw [h.cwd]
  exact layout.of_ways h.tree (fun m hm e hfind he => (hout m hm).eq_of_not_isFile hfind he)
    fun m hm target hfind => (hout m hm).link hfind

/-- No link comes to stand where a class file may be, if none does at the places. -/
theorem plainClasses (h : Drifted free places w w') (plain : w.disk.PlainClasses)
    (hplaces : ∀ l ∈ places, ∀ m, l.covers m = true → ∀ target, w'.disk.find? m ≠ some (.link target)) :
    w'.disk.PlainClasses := by
  intro m hm target hfind
  by_cases hout : ∀ l ∈ places, l.covers m = false
  · exact plain m hm target ((h.outside m hout).link hfind)
  · push Not at hout
    obtain ⟨l, hl, hcovers⟩ := hout
    exact hplaces l hl m (by simpa using hcovers) target hfind

theorem plainClasses_of_nil (h : Drifted free [] w w') (plain : w.disk.PlainClasses) :
    w'.disk.PlainClasses := h.plainClasses plain (by simp)

end Drifted

end World

namespace Staging

open Directory Disk World

attribute [local irreducible] Action.wp

variable {free : Location → Prop} {w w₁ : World} {directory source target : Path} {className : String}

section ClassFiles

variable (hfree : ∀ m, IsClassPlace m → free m)

include hfree

/-- Deleting the file of a class. -/
theorem removeFile_drifted (tree : w.disk.IsTree) (plain : w.disk.PlainClasses) :
    (Action.change fun d cwd => d.removeFile cwd (directory.join (ClassName.artifact className))).wp w
      (fun _ => w.Drifted free []) fun _ => w.Drifted free [] := by
  rw [Action.wp_change]
  cases hremove : w.disk.removeFile w.cwd (directory.join (ClassName.artifact className)) with
  | error fault => exact .refl tree
  | ok d =>
    have tree' := removeFile_tree tree hremove
    obtain ⟨k, name, hslot, ⟨e, hfind, hne⟩, rfl⟩ := removeFile_eq_ok_iff.1 hremove
    have hplace := isClassPlace_of_slot hslot
    refine ⟨⟨rfl, rfl⟩, tree', fun m _ => ?_⟩
    by_cases hm : m = k ++ [name]
    · subst hm
      refine .inr (.inr ⟨hfree _ hplace, fun e' he' => ?_, by simp [find?_erase]⟩)
      rw [hfind] at he'
      cases he'
      cases e with
      | file => rfl
      | directory => exact absurd rfl hne
      | link target => exact absurd hfind (plain _ hplace target)
    · left
      dsimp only
      rw [find?_erase]
      split_ifs with hcond
      · obtain ⟨rest, rfl⟩ := Location.covers_iff.1 hcond.2
        rw [tree.find?_append (by simp [hfind, hne]) (by simpa using hm)]
      · rfl

/-- Copying something to the file of a class. -/
theorem copyFile_drifted (tree : w.disk.IsTree) (plain : w.disk.PlainClasses) :
    (copyFile source (directory.join (ClassName.artifact className))).wp w
      (fun _ => w.Drifted free []) fun _ => w.Drifted free [] := by
  have unchanged : w.Drifted free [] w := .refl tree
  unfold copyFile
  simp only [Action.wp_bind, Action.wp_query]
  cases hlook : w.disk.look w.cwd source with
  | error fault => exact unchanged
  | ok e =>
    cases e with
    | directory => exact (Action.wp_failed _).2 unchanged
    | link => exact (Action.wp_failed _).2 unchanged
    | file bytes runnable =>
      simp only [Action.wp_bind, Action.wp_query]
      cases hsource : w.disk.resolve w.cwd true source with
      | error fault => exact unchanged
      | ok sourcePlace =>
        dsimp only
        cases hcreate : w.disk.createFile w.cwd (directory.join (ClassName.artifact className)) with
        | error fault => exact unchanged
        | ok created =>
          obtain ⟨x, d⟩ := created
          obtain ⟨hplace, hne, hbefore, runnable', rfl, tree'⟩ :=
            createFile_artifact tree plain hcreate
          have hput := filePut_transfer sourcePlace runnable' runnable hne tree'
          refine (Action.wp_modify _).2 ⟨⟨rfl, rfl⟩, hput.tree, fun m _ => ?_⟩
          by_cases hm : m = x
          · subst hm
            obtain ⟨bytes', runnable₁, hfile⟩ := hput.file
            exact .inr (.inr ⟨hfree _ hplace, hbefore, by simp [hfile]⟩)
          · exact .inl (hput.other m hm)

theorem deleteClassFiles_drifted (classes : List String) (tree : w.disk.IsTree)
    (plain : w.disk.PlainClasses) :
    (deleteClassFiles directory classes).wp w (fun _ => w.Drifted free [])
      fun _ => w.Drifted free [] := by
  refine Action.wp_forM _ classes (fun className _ w₁ h₁ => ?_) (.refl tree)
  rw [Action.wp_bind, Action.wp_log, Action.wp_within]
  generalize hw₂ : ({ w₁ with log := _ } : World) = w₂
  have h₂ : w.Drifted free [] w₂ := h₁.congr (by rw [← hw₂]; rfl)
  exact (removeFile_drifted hfree h₂.tree (h₂.plainClasses_of_nil plain)).mono
    (fun _ _ h₃ => h₂.trans h₃) fun _ _ h₃ => h₂.trans h₃

theorem copyClassFiles_drifted (classes : List String) (tree : w.disk.IsTree)
    (plain : w.disk.PlainClasses) :
    (copyClassFiles source directory classes).wp w (fun _ => w.Drifted free [])
      fun _ => w.Drifted free [] := by
  refine Action.wp_forM _ classes (fun className _ w₁ h₁ => ?_) (.refl tree)
  dsimp only
  rw [Action.wp_bind, Action.wp_log]
  generalize (⟨.debug, "incjc::stage", "copying class"⟩ : Log.Event) = event
  have h₂ : w.Drifted free [] { w₁ with log := w₁.log ++ [event] } := h₁.congr rfl
  generalize ({ w₁ with log := w₁.log ++ [event] } : World) = w₂ at h₂ ⊢
  have hcopy (w₃ : World) (h₃ : w.Drifted free [] w₃) :
      (copyFile (source.join (ClassName.artifact className))
        (directory.join (ClassName.artifact className))).wp w₃ (fun _ => w.Drifted free [])
        fun _ => w.Drifted free [] :=
    (copyFile_drifted hfree h₃.tree (h₃.plainClasses_of_nil plain)).mono
      (fun _ _ h₄ => h₃.trans h₄) fun _ _ h₄ => h₃.trans h₄
  generalize (directory.join (ClassName.artifact className)).parent = parent
  cases parent with
  | none =>
    rw [Action.wp_within]
    exact hcopy w₂ h₂
  | some above =>
    rw [Action.wp_bind, Action.wp_within]
    refine (create_spread above).mono (fun _ w₃ h₃ => ?_)
      fun _ w₃ h₃ => h₂.trans (.of_spread h₂.tree h₃)
    rw [Action.wp_within]
    exact hcopy w₃ (h₂.trans (.of_spread h₂.tree h₃))

end ClassFiles

end Staging

end Recompile
