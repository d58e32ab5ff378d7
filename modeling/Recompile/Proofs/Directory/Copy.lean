import Recompile.Directory.Copy
import Recompile.Proofs.Action
import Recompile.Proofs.Disk.Layout

/-!
# Copying to a place that a path reaches

A copy puts a file at the place that the target reaches and leaves everything else as it is, or it
fails and changes nothing.
-/

namespace Recompile

open Disk

/-- The bytes of the file at a location. -/
def Disk.fileAt (d : Disk) (l : Location) : Option ByteArray :=
  match d.find? l with
  | some (.file bytes _) => some bytes
  | _ => none

theorem Disk.fileAt_eq_some_iff {d : Disk} {l : Location} {bytes : ByteArray} :
    d.fileAt l = some bytes ↔ ∃ runnable, d.find? l = some (.file bytes runnable) := by
  unfold fileAt
  split
  · next found _ hfind => simp [hfind]
  · next hnone =>
    refine iff_of_false (by simp) ?_
    rintro ⟨runnable, hfind⟩
    exact hnone bytes runnable hfind

theorem Disk.readFile_eq_ok_iff_fileAt {d : Disk} {cwd : Location} {p : Path}
    {bytes : ByteArray} : d.readFile cwd p = .ok bytes ↔
      ∃ l, d.resolve cwd true p = .ok l ∧ d.fileAt l = some bytes := by
  simp only [readFile_eq_ok_iff, fileAt_eq_some_iff, exists_and_left]

/-- A file was put at `l`, and nothing else has changed. -/
structure Disk.FilePut (l : Location) (d d' : Disk) : Prop where
  file : ∃ bytes runnable, d'.find? l = some (.file bytes runnable)
  other : ∀ m : Location, m ≠ l → d'.find? m = d.find? m
  erase : ∀ top : Location, top.covers l = true → d'.erase top = d.erase top
  tree : d'.IsTree

namespace Disk

variable {d d' : Disk} {cwd l : Location} {p : Path}

theorem filePut_transfer (source : Location) (runnable runnable' : Bool) (hne : l ≠ [])
    (tree : (d.put l (.file .empty runnable)).IsTree) :
    FilePut l d ((d.put l (.file .empty runnable)).transfer source l runnable') := by
  have hself : (d.put l (.file .empty runnable)).find? l = some (.file .empty runnable) := by
    simp [find?_put _ hne]
  unfold transfer
  split
  · next bytes _ _ =>
    refine ⟨⟨bytes, runnable', ?_⟩, fun m hm => ?_, fun top htop => ?_, ?_⟩
    · simp [find?_put _ hne]
    · rw [find?_put _ hne, if_neg hm, find?_put _ hne, if_neg hm]
    · rw [erase_put _ htop, erase_put _ htop]
    · obtain ⟨k, name, rfl⟩ := List.eq_nil_or_concat l |>.resolve_left hne
      rw [List.concat_eq_append] at *
      obtain ⟨hname, hsize⟩ := tree.isName _ _ _ hself
      refine tree.put (tree.parent _ _ _ hself) hname hsize fun hdirectory => ?_
      rw [hself] at hdirectory
      cases hdirectory
  · refine ⟨⟨.empty, runnable, hself⟩, fun m hm => ?_, fun top htop => ?_, tree⟩
    · rw [find?_put _ hne, if_neg hm]
    · rw [erase_put _ htop]

/-- What was copied from another place. -/
theorem fileAt_transfer {source : Location} {bytes : ByteArray} (runnable runnable' : Bool)
    (hne : l ≠ []) (hsource : source ≠ l) (hbytes : d.fileAt source = some bytes) :
    ((d.put l (.file .empty runnable)).transfer source l runnable').fileAt l = some bytes := by
  obtain ⟨runnable'', hfind⟩ := fileAt_eq_some_iff.1 hbytes
  have hput : (d.put l (.file .empty runnable)).find? source = some (.file bytes runnable'') := by
    rw [find?_put _ hne, if_neg hsource, hfind]
  rw [transfer, hput]
  exact fileAt_eq_some_iff.2 ⟨runnable', by simp [find?_put _ hne]⟩

theorem FilePut.fileAt_other (h : FilePut l d d') {m : Location} (hm : m ≠ l) :
    d'.fileAt m = d.fileAt m := by
  rw [fileAt, fileAt, h.other m hm]

theorem FilePut.not_link (h : FilePut l d d') {m : Location}
    (hm : ∀ target, d.find? m ≠ some (.link target)) (target : Path) :
    d'.find? m ≠ some (.link target) := by
  by_cases hml : m = l
  · obtain ⟨bytes, runnable, hfile⟩ := h.file
    rw [hml, hfile]
    simp
  · rw [h.other m hml]
    exact hm target

end Disk

namespace Directory

variable {w : World} {source target : Path} {l : Location}

attribute [local irreducible] Action.wp

/-- The file that the source leads to was copied to `l`. -/
structure CopiedFrom (source : Path) (l : Location) (w w' : World) : Prop
    extends World.Steady w w' where
  put : w.disk.FilePut l w'.disk
  replaced : w.disk.find? l ≠ some .directory
  bytes : ∃ place bytes, w.disk.resolve w.cwd true source = .ok place ∧
    w.disk.fileAt place = some bytes ∧ (place ≠ l → w'.disk.fileAt l = some bytes)

theorem copyFile_reached (tree : w.disk.IsTree) (hreach : w.disk.Reaches w.cwd target l)
    (hlink : ∀ target, w.disk.find? l ≠ some (.link target)) :
    (copyFile source target).wp w (fun _ => CopiedFrom source l w) fun _ w' => w' = w := by
  unfold copyFile
  simp only [Action.wp_bind, Action.wp_query]
  cases hlook : w.disk.look w.cwd source with
  | error fault => trivial
  | ok e =>
    cases e with
    | directory => exact (Action.wp_failed _).2 rfl
    | link => exact (Action.wp_failed _).2 rfl
    | file bytes runnable =>
      simp only [Action.wp_bind, Action.wp_query]
      cases hsource : w.disk.resolve w.cwd true source with
      | error fault => trivial
      | ok sourcePlace =>
        dsimp only
        cases hcreate : w.disk.createFile w.cwd target with
        | error fault => trivial
        | ok created =>
          obtain ⟨x, d⟩ := created
          obtain ⟨-, _, -, hfind⟩ := createFile_eq_ok hcreate
          obtain ⟨rfl, runnable', rfl, htree⟩ := hreach.createFile_eq_ok tree hlink hcreate
          have hbytes : w.disk.fileAt sourcePlace = some bytes := by
            rw [look, hsource] at hlook
            refine fileAt_eq_some_iff.2 ⟨runnable, ?_⟩
            cases hfind : w.disk.find? sourcePlace with
            | none => simp [bind, Except.bind, hfind] at hlook
            | some e =>
              simp only [bind, Except.bind, hfind, Except.ok.injEq] at hlook
              rw [hlook]
          refine (Action.wp_modify _).2 ⟨⟨rfl, rfl, rfl⟩,
            filePut_transfer sourcePlace runnable' runnable hreach.ne_nil htree, ?_, sourcePlace,
            bytes, hsource, hbytes,
            fun hne => fileAt_transfer runnable' runnable hreach.ne_nil hne hbytes⟩
          rcases hfind with hnone | ⟨before, hfile⟩
          · simp [hnone]
          · simp [hfile]

end Directory

end Recompile
