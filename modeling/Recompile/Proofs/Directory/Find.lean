import Recompile.Directory.Find
import Recompile.Proofs.Disk.Operation
import Recompile.Proofs.Toolchain

/-!
# What a search finds

The files that a search in a directory finds are spelled as the directory with names pushed onto it.
-/

namespace Recompile.Directory

variable {d : Disk} {cwd : Location} {extension : String} {directory : Path}

theorem readDirectory_eq_ok_iff {entries : List (String × Entry)} :
    d.readDirectory cwd directory = .ok entries ↔
      ∃ l, d.resolve cwd true directory = .ok l ∧ d.find? l = some .directory ∧
        entries = d.children l := by
  unfold Disk.readDirectory
  simp only [Except.bind_eq_ok_iff]
  constructor
  · rintro ⟨l, hl, _, hd, h⟩
    exact ⟨l, hl, Disk.checkDirectory_eq_ok_iff.1 hd, (Except.ok.inj h).symm⟩
  · rintro ⟨l, hl, hd, rfl⟩
    exact ⟨l, hl, (), Disk.checkDirectory_eq_ok_iff.2 hd, rfl⟩

theorem isName_of_readDirectory (tree : d.IsTree) {entries : List (String × Entry)}
    (h : d.readDirectory cwd directory = .ok entries) {e : String × Entry} (he : e ∈ entries) :
    Path.IsName e.1 := by
  obtain ⟨l, -, -, rfl⟩ := readDirectory_eq_ok_iff.1 h
  exact (tree.isName l e.1 e.2 (d.mem_children_iff.1 he)).1

theorem isBelow_push {p : Path} {name : String} (h : directory.IsBelow p)
    (hname : Path.IsName name) : directory.IsBelow (p.push name) := by
  obtain ⟨names, hnames, rfl⟩ := h
  refine ⟨names ++ [name], ?_, by simp⟩
  simp only [List.mem_append, List.mem_singleton]
  rintro other (hother | rfl)
  · exact hnames other hother
  · exact hname

/-- What holds of every file with the extension in a directory for which `P` holds, if `P` passes from
a directory to those in it, holds of every file that is found. -/
theorem search_forall {P Q : Path → Prop} (limit : Nat) (pending files : List Path)
    (hpending : ∀ p ∈ pending, P p)
    (hstep : ∀ p entries, P p → d.readDirectory cwd p = .ok entries → ∀ e ∈ entries,
      P (p.push e.1) ∧ (e.2.isFile = true → (p.push e.1).extension = some extension →
        Q (p.push e.1)))
    (h : search d cwd extension limit pending = .ok files) : ∀ file ∈ files, Q file := by
  induction limit generalizing pending files with
  | zero =>
    cases h
    simp
  | succ limit ih =>
    cases pending with
    | nil =>
      cases h
      simp
    | cons p rest =>
      unfold search at h
      cases hread : d.readDirectory cwd p with
      | error fault =>
        rw [hread] at h
        cases h
      | ok entries =>
        rw [hread] at h
        have hentries := hstep p entries (hpending p List.mem_cons_self) hread
        dsimp only at h
        cases hsearch : search d cwd extension limit (subdirectories p entries ++ rest) with
        | error failure =>
          rw [hsearch] at h
          cases h
        | ok more =>
          rw [hsearch] at h
          cases h
          have hmore : ∀ file ∈ more, Q file := by
            refine ih _ _ ?_ hsearch
            simp only [List.mem_append, subdirectories, List.mem_filterMap]
            rintro q (⟨e, he, heq⟩ | hq)
            · split_ifs at heq
              cases heq
              exact (hentries e he).1
            · exact hpending q (List.mem_cons_of_mem p hq)
          simp only [List.mem_append, matching, List.mem_filter, List.mem_filterMap,
            decide_eq_true_eq]
          rintro file (⟨⟨e, he, heq⟩, hextension⟩ | hfile)
          · split_ifs at heq with hisFile
            cases heq
            exact (hentries e he).2 hisFile hextension
          · exact hmore file hfile

theorem isBelow_search (tree : d.IsTree) (limit : Nat) (pending files : List Path)
    (hpending : ∀ p ∈ pending, directory.IsBelow p)
    (h : search d cwd extension limit pending = .ok files) :
    ∀ file ∈ files, directory.IsBelow file := by
  refine search_forall limit pending files hpending (fun p entries hp hread e he => ?_) h
  have hpush := isBelow_push hp (isName_of_readDirectory tree hread he)
  exact ⟨hpush, fun _ _ => hpush⟩

/-- The path denotes what is at `m` in the directory that the path before leads to. -/
def Denotes (d : Disk) (cwd : Location) (file : Path) (m : Location) : Prop :=
  ∃ directory l name, d.resolve cwd true directory = .ok l ∧ Path.IsName name ∧
    file = directory.push name ∧ m = l ++ [name]

/-- What a search finds are files that have the extension. -/
theorem findFiles_denotes {w : World} (tree : w.disk.IsTree) :
    (findFiles directory extension).wp w
      (fun files _ => ∀ file ∈ files, ∃ m bytes runnable, Denotes w.disk w.cwd file m ∧
        w.disk.find? m = some (.file bytes runnable) ∧ file.extension = some extension)
      fun _ _ => True := by
  unfold findFiles
  simp only [Action.wp_bind, Action.wp_get, Action.wp_ofExcept]
  cases hsearch : search w.disk w.cwd extension (w.disk.entries.length + 2) [directory] with
  | error failure => trivial
  | ok files =>
    refine search_forall (P := fun _ => True) _ _ files (by simp)
      (fun p entries _ hread e he => ⟨trivial, fun hisFile hextension => ?_⟩) hsearch
    have hname := isName_of_readDirectory tree hread he
    obtain ⟨l, hl, -, rfl⟩ := readDirectory_eq_ok_iff.1 hread
    obtain ⟨name, entry⟩ := e
    have hfind := w.disk.mem_children_iff.1 he
    cases entry with
    | file bytes runnable =>
      exact ⟨l ++ [name], bytes, runnable, ⟨p, l, name, hl, hname, rfl, rfl⟩, hfind, hextension⟩
    | directory => cases hisFile
    | link => cases hisFile

/-- A search changes nothing; if it succeeds, it has searched a directory. -/
theorem findFiles_quiet {w : World} :
    (findFiles directory extension).wp w
      (fun files w' => w' = w ∧ (w.disk.IsTree → ∀ file ∈ files, directory.IsBelow file) ∧
        ∃ l, w.disk.resolve w.cwd true directory = .ok l ∧ w.disk.find? l = some .directory)
      fun _ w' => w' = w := by
  unfold findFiles
  simp only [Action.wp_bind, Action.wp_get, Action.wp_ofExcept]
  cases hsearch : search w.disk w.cwd extension (w.disk.entries.length + 2) [directory] with
  | error failure => trivial
  | ok files =>
    refine ⟨trivial, fun tree => isBelow_search tree _ _ files ?_ hsearch, ?_⟩
    · simp only [List.mem_singleton, forall_eq]
      exact ⟨[], by simp, rfl⟩
    · unfold search at hsearch
      cases hread : w.disk.readDirectory w.cwd directory with
      | error fault =>
        rw [hread] at hsearch
        cases hsearch
      | ok entries =>
        obtain ⟨l, hl, hd, -⟩ := readDirectory_eq_ok_iff.1 hread
        exact ⟨l, hl, hd⟩

end Recompile.Directory
