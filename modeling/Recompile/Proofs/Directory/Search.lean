import Mathlib.Data.List.Nodup
import Mathlib.Data.List.Perm.Subperm
import Recompile.Proofs.Directory.Find
import Recompile.Proofs.Disk.Reach

/-!
# A search finds what is there

A search visits every directory below the one it begins with once, so that its limit is never
reached. It succeeds if each of them can be named by a path, and what it finds are the files below
that have the extension. So two disks that hold the same below a place are searched alike there.
-/

namespace Recompile

namespace Disk

variable {d : Disk} {cwd l : Location} {p : Path}

/-- Names lead from a place that a path reaches to whatever stands below it. -/
theorem Reaches.foldl_push_of_find? {e : Entry} {names : List String} (tree : d.IsTree)
    (h : Reaches d cwd p l) (hfind : d.find? (l ++ names) = some e) :
    Reaches d cwd (names.foldl Path.push p) (l ++ names) := by
  induction names using List.reverseRecOn generalizing e with
  | nil => simpa using h
  | append_singleton init last ih =>
    rw [← List.append_assoc] at hfind ⊢
    have hdir := tree.parent _ _ _ hfind
    rw [List.foldl_append]
    exact (ih hdir).push (tree.isName _ _ _ hfind).1 (by simp [hdir])

theorem Reaches.readDirectory_eq (tree : d.IsTree) (h : Reaches d cwd p l)
    (hdir : d.find? l = some .directory) :
    d.readDirectory cwd p = (do p.check; return d.children l) := by
  unfold readDirectory
  cases hcheck : p.check with
  | ok u =>
    rw [h.resolve_of_find? tree hcheck hdir (by simp)]
    simp [bind, Except.bind, checkDirectory_eq_ok_iff.2 hdir]
  | error fault =>
    unfold Disk.resolve
    rw [hcheck]
    rfl

theorem nodup_children (d : Disk) (l : Location) : ((d.children l).map Prod.fst).Nodup := by
  have hnames : (d.children l).map Prod.fst = (d.entries.map Prod.fst).filterMap fun m =>
      m.getLast?.bind fun name => if m.dropLast = l then some name else none := by
    rw [children, List.map_filterMap, List.filterMap_map]
    refine List.filterMap_congr fun e _ => ?_
    cases hlast : e.1.getLast? with
    | none => simp [hlast]
    | some name =>
      by_cases hdrop : e.1.dropLast = l <;> simp [hlast, hdrop]
  rw [hnames]
  refine d.nodup.filterMap fun m m' name hm hm' => ?_
  have key (m : Location) (h : name ∈ m.getLast?.bind fun name =>
      if m.dropLast = l then some name else none) : m = l ++ [name] := by
    obtain ⟨last, hlast, hname⟩ := Option.mem_bind_iff.1 h
    split_ifs at hname with hdrop
    · cases hname
      rw [← hdrop, List.dropLast_append_getLast? _ hlast]
    · cases hname
  rw [key m hm, key m' hm']

end Disk

namespace Directory

open Disk

variable {d d' : Disk} {cwd s : Location} {directory : Path} {extension : String}

/-- The directories in the directory `p` below `s`. -/
def kids (d : Disk) (s p : Location) : List Location :=
  (d.children (s ++ p)).filterMap fun e => if e.2.isDirectory then some (p ++ [e.1]) else none

theorem mem_kids_iff {p q : Location} :
    q ∈ kids d s p ↔ ∃ name, q = p ++ [name] ∧ d.find? (s ++ q) = some .directory := by
  simp only [kids, List.mem_filterMap]
  constructor
  · rintro ⟨⟨name, e⟩, he, heq⟩
    split_ifs at heq with hdir
    cases heq
    have hfind := d.mem_children_iff.1 he
    rw [List.append_assoc] at hfind
    cases e with
    | directory => exact ⟨name, rfl, hfind⟩
    | file => cases hdir
    | link => cases hdir
  · rintro ⟨name, rfl, hfind⟩
    rw [← List.append_assoc] at hfind
    exact ⟨(name, .directory), d.mem_children_iff.2 hfind, rfl⟩

theorem nodup_kids (d : Disk) (s p : Location) : (kids d s p).Nodup := by
  have hnames : kids d s p = (((d.children (s ++ p)).filter fun e => e.2.isDirectory).map
      Prod.fst).map fun name => p ++ [name] := by
    unfold kids
    induction d.children (s ++ p) with
    | nil => rfl
    | cons e rest ih => by_cases hdir : e.2.isDirectory = true <;> simp [hdir, ih]
  have hsub := (List.filter_sublist (p := fun e : String × Entry => e.2.isDirectory)
    (l := d.children (s ++ p))).map Prod.fst
  have hnodup := (d.nodup_children (s ++ p)).sublist hsub
  rw [hnames]
  exact hnodup.map fun a b hab => by simpa using hab

theorem subdirectories_eq (p : Location) :
    subdirectories (p.foldl Path.push directory) (d.children (s ++ p)) =
      (kids d s p).map fun q => q.foldl Path.push directory := by
  rw [subdirectories, kids, List.map_filterMap]
  refine List.filterMap_congr fun e _ => ?_
  by_cases hdir : e.2.isDirectory = true <;> simp [hdir]

/-! ## Every directory is visited once -/

/-- The directories that were visited and those that are pending, as places below `s`: none of them
twice, and each but the first found in one that was visited. -/
structure Frontier (d : Disk) (s : Location) (visited pending : List Location) : Prop where
  nodup : (visited ++ pending).Nodup
  directory : ∀ p ∈ visited ++ pending, d.find? (s ++ p) = some .directory
  parent : ∀ p name, p ++ [name] ∈ visited ++ pending → p ∈ visited

theorem Frontier.step {visited pending : List Location} {p : Location}
    (h : Frontier d s visited (p :: pending)) : Frontier d s (p :: visited) (kids d s p ++ pending) := by
  have hp : p ∉ visited := fun hmem =>
    (List.nodup_append.1 h.nodup).2.2 p hmem p List.mem_cons_self rfl
  have hmoved : (p :: visited ++ pending).Perm (visited ++ p :: pending) :=
    List.perm_middle.symm
  have hkids : ∀ q ∈ kids d s p, q ∉ p :: visited ++ pending := by
    intro q hq hmem
    obtain ⟨name, rfl, -⟩ := mem_kids_iff.1 hq
    exact hp (h.parent p name (hmoved.mem_iff.1 hmem))
  have hperm : (p :: visited ++ (kids d s p ++ pending)).Perm
      (kids d s p ++ (p :: visited ++ pending)) := by
    rw [← List.append_assoc, ← List.append_assoc]
    exact List.perm_append_comm.append_right pending
  refine ⟨?_, fun q hq => ?_, fun q name hq => ?_⟩
  · rw [hperm.nodup_iff, List.nodup_append]
    refine ⟨nodup_kids d s p, hmoved.nodup_iff.2 h.nodup, fun q hq q' hq' heq => ?_⟩
    exact hkids q hq (heq ▸ hq')
  · rcases List.mem_append.1 (hperm.mem_iff.1 hq) with hq | hq
    · obtain ⟨name, -, hdir⟩ := mem_kids_iff.1 hq
      exact hdir
    · exact h.directory q (hmoved.mem_iff.1 hq)
  · rcases List.mem_append.1 (hperm.mem_iff.1 hq) with hq | hq
    · obtain ⟨name', heq, -⟩ := mem_kids_iff.1 hq
      obtain ⟨rfl, -⟩ := List.append_inj' heq rfl
      exact List.mem_cons_self
    · exact List.mem_cons_of_mem p (h.parent q name (hmoved.mem_iff.1 hq))

/-- There are no more of them than directories on the disk. -/
theorem Frontier.length_le {visited pending : List Location} (h : Frontier d s visited pending) :
    visited.length + pending.length ≤ d.entries.length + 1 := by
  have hnodup : ((visited ++ pending).map fun p => s ++ p).Nodup :=
    h.nodup.map fun a b hab => by simpa using hab
  have hsub : (visited ++ pending).map (fun p => s ++ p) ⊆ [] :: d.entries.map Prod.fst := by
    intro l hl
    obtain ⟨p, hp, rfl⟩ := List.mem_map.1 hl
    by_cases hnil : s ++ p = []
    · rw [hnil]
      exact List.mem_cons_self
    · have hentry := (d.find?_eq_some_iff hnil).1 (h.directory p hp)
      exact List.mem_cons_of_mem _ (List.mem_map_of_mem hentry)
  have hlength := (List.subperm_of_subset hnodup hsub).length_le
  simpa using hlength

/-! ## What is found -/

/-- Every directory at and below `p` can be named by a path that begins with `directory`. -/
def Nameable (d : Disk) (s : Location) (directory : Path) (p : Location) : Prop :=
  ∀ rest, d.find? (s ++ (p ++ rest)) = some .directory →
    ((p ++ rest).foldl Path.push directory).check = .ok ()

/-- The path names a file below `p` that has the extension. -/
def Finds (d : Disk) (s : Location) (directory : Path) (extension : String) (p : Location)
    (file : Path) : Prop :=
  ∃ rest bytes runnable, rest ≠ [] ∧ d.find? (s ++ (p ++ rest)) = some (.file bytes runnable) ∧
    file = (p ++ rest).foldl Path.push directory ∧ file.extension = some extension

theorem nameable_iff (tree : d.IsTree) {p : Location} (hdir : d.find? (s ++ p) = some .directory) :
    Nameable d s directory p ↔ (p.foldl Path.push directory).check = .ok () ∧
      ∀ q ∈ kids d s p, Nameable d s directory q := by
  constructor
  · intro h
    refine ⟨by simpa using h [] (by simpa using hdir), fun q hq rest hrest => ?_⟩
    obtain ⟨name, rfl, -⟩ := mem_kids_iff.1 hq
    rw [List.append_assoc] at hrest ⊢
    exact h ([name] ++ rest) hrest
  · rintro ⟨hcheck, hkids⟩ rest hrest
    cases rest with
    | nil => simpa using hcheck
    | cons name rest =>
      have hkid : p ++ [name] ∈ kids d s p := by
        refine mem_kids_iff.2 ⟨name, rfl, ?_⟩
        by_cases hnil : rest = []
        · rwa [hnil] at hrest
        · have hlong : d.find? (s ++ (p ++ [name]) ++ rest) = some .directory := by
            simpa using hrest
          exact tree.directory_of_append hlong hnil
      have hname := hkids _ hkid rest (by simpa using hrest)
      simpa using hname

theorem finds_iff (tree : d.IsTree) {p : Location} {file : Path} :
    Finds d s directory extension p file ↔
      file ∈ matching extension (p.foldl Path.push directory) (d.children (s ++ p)) ∨
        ∃ q ∈ kids d s p, Finds d s directory extension q file := by
  constructor
  · rintro ⟨rest, bytes, runnable, hne, hfind, hfile, hextension⟩
    obtain ⟨name, rest, rfl⟩ := List.exists_cons_of_ne_nil hne
    by_cases hnil : rest = []
    · subst hnil
      left
      have hentry : (name, Entry.file bytes runnable) ∈ d.children (s ++ p) :=
        d.mem_children_iff.2 (by simpa using hfind)
      simp only [matching, List.mem_filter, List.mem_filterMap, decide_eq_true_eq]
      exact ⟨⟨_, hentry, by simp [Entry.isFile, hfile]⟩, hextension⟩
    · have hlong : d.find? (s ++ (p ++ [name]) ++ rest) = some (.file bytes runnable) := by
        simpa using hfind
      have hkid : p ++ [name] ∈ kids d s p :=
        mem_kids_iff.2 ⟨name, rfl, tree.directory_of_append hlong hnil⟩
      refine .inr ⟨_, hkid, rest, bytes, runnable, hnil, ?_, ?_, hextension⟩
      · simpa using hfind
      · simpa using hfile
  · rintro (hmatch | ⟨q, hq, rest, bytes, runnable, hne, hfind, hfile, hextension⟩)
    · simp only [matching, List.mem_filter, List.mem_filterMap, decide_eq_true_eq] at hmatch
      obtain ⟨⟨⟨name, e⟩, hentry, heq⟩, hextension⟩ := hmatch
      split_ifs at heq with hisFile
      cases heq
      cases e with
      | file bytes runnable =>
        have hfind := d.mem_children_iff.1 hentry
        exact ⟨[name], bytes, runnable, by simp, by simpa using hfind, by simp, hextension⟩
      | directory => cases hisFile
      | link => cases hisFile
    · obtain ⟨name, rfl, -⟩ := mem_kids_iff.1 hq
      exact ⟨name :: rest, bytes, runnable, by simp, by simpa using hfind, by simpa using hfile,
        hextension⟩

/-- The paths that begin with `directory` open the directories at and below `s`. -/
def Lists (d : Disk) (cwd s : Location) (directory : Path) : Prop :=
  ∀ p, d.find? (s ++ p) = some .directory →
    d.readDirectory cwd (p.foldl Path.push directory) = (do
      (p.foldl Path.push directory).check
      return d.children (s ++ p))

theorem lists_of_reaches (tree : d.IsTree) (hreach : d.Reaches cwd directory s) :
    Lists d cwd s directory :=
  fun _ hdir => (hreach.foldl_push_of_find? tree hdir).readDirectory_eq tree hdir

/-- What a search from a frontier comes to. -/
theorem search_frontier (tree : d.IsTree) (lists : Lists d cwd s directory) (limit : Nat)
    {visited pending : List Location} (frontier : Frontier d s visited pending)
    (hlimit : limit + visited.length = d.entries.length + 2) :
    match search d cwd extension limit (pending.map fun p => p.foldl Path.push directory) with
    | .ok files => (∀ p ∈ pending, Nameable d s directory p) ∧
        ∀ file, file ∈ files ↔ ∃ p ∈ pending, Finds d s directory extension p file
    | .error _ => ∃ p ∈ pending, ¬Nameable d s directory p := by
  induction limit generalizing visited pending with
  | zero =>
    have hbound := frontier.length_le
    omega
  | succ limit ih =>
    cases pending with
    | nil => simp [search]
    | cons p pending =>
      have hdir := frontier.directory p (by simp)
      have hread := lists p hdir
      have hnameable : Nameable d s directory p ↔ _ := nameable_iff tree hdir
      have hrest := ih frontier.step (by simp only [List.length_cons]; omega)
      rw [List.map_append, ← subdirectories_eq] at hrest
      rw [List.map_cons, search, hread]
      cases hcheck : (p.foldl Path.push directory).check with
      | error fault =>
        refine ⟨p, by simp, fun h => ?_⟩
        rw [(hnameable.1 h).1] at hcheck
        cases hcheck
      | ok u =>
        simp only [bind, Except.bind, pure, Except.pure]
        cases hsearch : search d cwd extension limit
            (subdirectories (p.foldl Path.push directory) (d.children (s ++ p)) ++
              pending.map fun p => p.foldl Path.push directory) with
        | error failure =>
          rw [hsearch] at hrest
          obtain ⟨q, hq, hnot⟩ := hrest
          rcases List.mem_append.1 hq with hkid | hpending
          · exact ⟨p, by simp, fun h => hnot ((hnameable.1 h).2 q hkid)⟩
          · exact ⟨q, by simp [hpending], hnot⟩
        | ok files =>
          rw [hsearch] at hrest
          obtain ⟨hall, hfiles⟩ := hrest
          simp only [List.mem_append] at hall hfiles
          refine ⟨fun q hq => ?_, fun file => ?_⟩
          · rcases List.mem_cons.1 hq with rfl | hq
            · exact hnameable.2 ⟨hcheck, fun r hr => hall r (.inl hr)⟩
            · exact hall q (.inr hq)
          · simp only [List.mem_append, hfiles, List.mem_cons, or_and_right, exists_or,
              exists_eq_left, finds_iff tree (p := p), or_assoc]

/-- What is found from a directory that is there. -/
theorem findFiles_lists {w : World} (tree : w.disk.IsTree) (lists : Lists w.disk w.cwd s directory)
    (hdir : w.disk.find? s = some .directory) :
    (findFiles directory extension).wp w
      (fun files w' => w' = w ∧ Nameable w.disk s directory [] ∧
        ∀ file, file ∈ files ↔ Finds w.disk s directory extension [] file)
      fun _ w' => w' = w ∧ ¬Nameable w.disk s directory [] := by
  have frontier : Frontier w.disk s [] [[]] := by
    refine ⟨by simp, by simpa using hdir, fun q name hmem => ?_⟩
    simp at hmem
  have hsearch := @search_frontier _ _ _ directory extension tree lists
    (w.disk.entries.length + 2) [] [[]] frontier rfl
  simp only [List.map_cons, List.foldl_nil, List.map_nil, List.mem_singleton, forall_eq,
    exists_eq_left] at hsearch
  unfold findFiles
  simp only [Action.wp_bind, Action.wp_get, Action.wp_ofExcept]
  cases hfiles : search w.disk w.cwd extension (w.disk.entries.length + 2) [directory] with
  | error f =>
    rw [hfiles] at hsearch
    exact ⟨trivial, hsearch⟩
  | ok files =>
    rw [hfiles] at hsearch
    exact ⟨trivial, hsearch⟩

/-- What is found from a directory that a path reaches. -/
theorem findFiles_finds {w : World} (tree : w.disk.IsTree)
    (hreach : w.disk.Reaches w.cwd directory s)
    (hlink : ∀ target, w.disk.find? s ≠ some (.link target)) :
    (findFiles directory extension).wp w
      (fun files w' => w' = w ∧ (w.disk.find? s = some .directory ∧
        Nameable w.disk s directory []) ∧
          ∀ file, file ∈ files ↔ Finds w.disk s directory extension [] file)
      fun _ w' => w' = w ∧ ¬(w.disk.find? s = some .directory ∧ Nameable w.disk s directory []) := by
  by_cases hdir : w.disk.find? s = some .directory
  · exact (findFiles_lists tree (lists_of_reaches tree hreach) hdir).mono
      (fun _ _ h => ⟨h.1, ⟨hdir, h.2.1⟩, h.2.2⟩) fun _ _ h => ⟨h.1, fun hthere => h.2 hthere.2⟩
  · unfold findFiles
    simp only [Action.wp_bind, Action.wp_get, Action.wp_ofExcept]
    cases hfiles : search w.disk w.cwd extension (w.disk.entries.length + 2) [directory] with
    | error f => exact ⟨trivial, fun h => hdir h.1⟩
    | ok files =>
      unfold search at hfiles
      cases hread : w.disk.readDirectory w.cwd directory with
      | error fault =>
        rw [hread] at hfiles
        cases hfiles
      | ok entries =>
        obtain ⟨l, hl, hfind, -⟩ := readDirectory_eq_ok_iff.1 hread
        obtain ⟨rfl, -⟩ := hreach.resolve_eq_ok (fun _ => hlink) hl
        exact absurd hfind hdir

/-! ## Disks that hold the same below a place -/

section Congr

variable {w w' : World}
  (same : ∀ m : Location, s.covers m = true → w'.disk.find? m = w.disk.find? m)

include same

theorem finds_congr {p : Location} {file : Path} :
    Finds w'.disk s directory extension p file ↔ Finds w.disk s directory extension p file := by
  unfold Finds
  simp only [same _ (Location.covers_append s _)]

theorem nameable_congr {p : Location} :
    Nameable w'.disk s directory p ↔ Nameable w.disk s directory p := by
  unfold Nameable
  simp only [same _ (Location.covers_append s _)]

/-- A search that finds some files finds the same files again. -/
theorem findFiles_again (tree : w.disk.IsTree) (tree' : w'.disk.IsTree)
    (hreach : w.disk.Reaches w.cwd directory s) (hreach' : w'.disk.Reaches w'.cwd directory s)
    (hlink : ∀ target, w.disk.find? s ≠ some (.link target)) {files : List Path} {w₁ : World}
    (h : (findFiles directory extension).on w = (.ok files, w₁)) :
    ∃ files', (findFiles directory extension).on w' = (.ok files', w') ∧
      ∀ file, file ∈ files' ↔ file ∈ files := by
  have hself := same s (Location.covers_self s)
  obtain ⟨-, hthere, hfiles⟩ := (findFiles_finds tree hreach hlink).of_ok h
  have hspec := @findFiles_finds _ _ extension _ tree' hreach' (hself ▸ hlink)
  rw [hself] at hspec
  rcases hon : (findFiles directory extension).on w' with ⟨f | files', w₂⟩
  · obtain ⟨-, hnot⟩ := hspec.of_error hon
    exact absurd ⟨hthere.1, (nameable_congr same).2 hthere.2⟩ hnot
  · obtain ⟨rfl, -, hfiles'⟩ := hspec.of_ok hon
    exact ⟨files', rfl, fun file => by rw [hfiles', hfiles, finds_congr same]⟩

/-- A file that was found is read the same. -/
theorem readFile_found (tree : w.disk.IsTree) (tree' : w'.disk.IsTree)
    (hreach : w.disk.Reaches w.cwd directory s) (hreach' : w'.disk.Reaches w'.cwd directory s)
    {file : Path} (hfinds : Finds w.disk s directory extension [] file) {bytes : ByteArray} :
    w'.disk.readFile w'.cwd file = .ok bytes ↔ w.disk.readFile w.cwd file = .ok bytes := by
  obtain ⟨rest, b, runnable, -, hfind, rfl, -⟩ := hfinds
  rw [List.nil_append] at hfind ⊢
  have hfind' := (same _ (Location.covers_append s rest)).trans hfind
  rw [(hreach'.foldl_push_of_find? tree' hfind').readFile_eq_ok_iff tree' (by simp [hfind']),
    (hreach.foldl_push_of_find? tree hfind).readFile_eq_ok_iff tree (by simp [hfind]), hfind, hfind']

end Congr

end Directory

end Recompile
