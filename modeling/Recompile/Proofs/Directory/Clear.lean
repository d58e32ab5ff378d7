import Recompile.Proofs.Directory.Reached

/-!
# Places that nothing is in the way of

A place is clear if nothing but directories stands above it and none of its names is too long.
Removing what is at such a place, making a directory there and writing a file there do not fail, and
each of them is one change of the disk.
-/

namespace Recompile

open Directory

namespace Disk

variable {d : Disk} {cwd k l s : Location} {p : Path} {name : String} {names : List String}

/-- Nothing but directories stands above the place, and its names are not too long. -/
structure IsClear (d : Disk) (l : Location) : Prop where
  above : ∀ top : Location, top.covers l = true → top ≠ l →
    d.find? top = none ∨ d.find? top = some .directory
  size : ∀ name ∈ l, name.utf8ByteSize ≤ Path.nameLimit

namespace IsClear

theorem parent (h : IsClear d (k ++ [name])) : d.find? k = none ∨ d.find? k = some .directory :=
  h.above k (Location.covers_append k [name]) (by simp)

theorem of_concat (h : IsClear d (k ++ [name])) : IsClear d k := by
  refine ⟨fun top htop _ => h.above top (Location.covers_append_of_covers htop _) ?_,
    fun other hother => h.size other (List.mem_append_left _ hother)⟩
  rintro rfl
  simp [Location.not_covers_parent] at htop

theorem erase (h : IsClear d l) (m : Location) : IsClear (d.erase m) l := by
  refine ⟨fun top htop hne => ?_, h.size⟩
  rw [find?_erase]
  split_ifs
  · exact .inl rfl
  · exact h.above top htop hne

/-- A place is as clear as the one beside it. -/
theorem beside (h : IsClear d (k ++ [name])) {other : String}
    (hsize : other.utf8ByteSize ≤ Path.nameLimit) : IsClear d (k ++ [other]) := by
  refine ⟨fun top htop hne => ?_, fun part hpart => ?_⟩
  · rcases Location.covers_concat_iff.1 htop with rfl | hcovers
    · exact absurd rfl hne
    · refine h.above top (Location.covers_append_of_covers hcovers _) ?_
      rintro rfl
      simp [Location.not_covers_parent] at hcovers
  · rcases List.mem_append.1 hpart with hpart | hpart
    · exact h.size part (List.mem_append_left _ hpart)
    · rwa [List.mem_singleton.1 hpart]

end IsClear

namespace IsTree

theorem directory_of_covers (tree : d.IsTree) (hdir : d.find? l = some .directory) {top : Location}
    (htop : top.covers l = true) : d.find? top = some .directory := by
  obtain ⟨rest, rfl⟩ := Location.covers_iff.1 htop
  by_cases hrest : rest = []
  · simpa [hrest] using hdir
  · exact tree.directory_of_append hdir hrest

/-- In a directory that is there nothing is in the way. -/
theorem isClear (tree : d.IsTree) (hdir : d.find? k = some .directory)
    (hsize : name.utf8ByteSize ≤ Path.nameLimit) : IsClear d (k ++ [name]) := by
  refine ⟨fun top htop hne => ?_, fun other hother => ?_⟩
  · exact .inr (tree.directory_of_covers hdir ((Location.covers_concat_iff.1 htop).resolve_left hne))
  · rcases List.mem_append.1 hother with hother | hother
    · obtain ⟨before, after, hsplit⟩ := List.append_of_mem hother
      exact (tree.directory_of_concat_append (l := []) hdir hsplit).2.2
    · rwa [List.mem_singleton.1 hother]

/-- Names lead down to a place in a directory, whether something is there or not. -/
theorem descend_of_directory (tree : d.IsTree) (hdir : d.find? k = some .directory)
    (hsize : name.utf8ByteSize ≤ Path.nameLimit) (hplace : k ++ [name] = l ++ names) :
    d.descend l names = .ok (k ++ [name]) := by
  refine descend_eq_ok_iff.2 ⟨hplace, fun before other after hsplit => ?_⟩
  have hcovers : Location.covers (l ++ before) (k ++ [name]) = true :=
    Location.covers_iff.2 ⟨other :: after, by rw [hplace, hsplit, List.append_assoc]⟩
  have hne : l ++ before ≠ k ++ [name] := by
    rw [hplace, hsplit]
    simp
  refine ⟨tree.directory_of_covers hdir ((Location.covers_concat_iff.1 hcovers).resolve_left hne), ?_⟩
  refine (tree.isClear hdir hsize).size other ?_
  rw [hplace, hsplit]
  simp

end IsTree

/-- Going down where nothing is in the way misses a directory or gets there. -/
theorem descend_of_isClear (h : IsClear d (l ++ names)) :
    d.descend l names = .ok (l ++ names) ∨ d.descend l names = .error .noEntry := by
  induction names generalizing l with
  | nil => exact .inl (by simp [descend])
  | cons name rest ih =>
    have hsize := h.size name (by simp)
    rw [descend]
    rcases h.above l (Location.covers_append l _) (by simp) with hnone | hdir
    · exact .inr (by simp [checkDirectory, hnone])
    · rw [checkDirectory_eq_ok_iff.2 hdir]
      dsimp only
      rw [if_neg (Nat.not_lt.2 hsize)]
      simpa using ih (l := l ++ [name]) (by simpa using h)

namespace Reaches

theorem resolve_of_isClear (h : Reaches d cwd p l) (clear : d.IsClear l) (hcheck : p.check = .ok ()) :
    d.resolve cwd false p = .ok l ∨ d.resolve cwd false p = .error .noEntry := by
  have hlink : false = true → ∀ target, d.find? l ≠ some (.link target) := by simp
  obtain ⟨s, names, rfl, heq⟩ := h.resolve_eq hlink
  rw [heq, hcheck]
  exact descend_of_isClear clear

theorem lookAt_of_none (h : Reaches d cwd p l) (clear : d.IsClear l) (hcheck : p.check = .ok ())
    (hnone : d.find? l = none) : d.lookAt cwd p = .error .noEntry := by
  unfold lookAt
  rcases h.resolve_of_isClear clear hcheck with hresolve | hresolve <;> rw [hresolve]
  · simp [bind, Except.bind, hnone]
  · rfl

/-- A directory cannot be made below one that is missing. -/
theorem makeDirectory_of_missing (h : Reaches d cwd p (k ++ [name]))
    (clear : d.IsClear (k ++ [name])) (hcheck : p.check = .ok ()) (hmissing : d.find? k = none) :
    d.makeDirectory cwd p = .error .noEntry := by
  obtain ⟨base, s, names, last, hleads, hnames, hlast, rfl, hl, hplain⟩ := h
  obtain ⟨rfl, -⟩ := List.append_inj' hl rfl
  have hne : names ≠ [] := by
    rintro rfl
    rw [List.append_nil, hleads.directory] at hmissing
    cases hmissing
  have hwalk : d.walk true Path.linkLimit ((names.foldl Path.push base).start cwd)
      (names.foldl Path.push base).trunk = d.descend s names := by
    rw [(Path.isOpen_foldl_push_of_ne_nil hne hnames).trunk, Path.parts_foldl_push hne hnames,
      start_foldl_push hnames, hleads.walk_append hne hnames hplain]
  have hslot : d.slot cwd ((names.foldl Path.push base).push last) = .error .noEntry := by
    unfold Disk.slot
    rw [Path.splitLast_of_parts (Path.parts_push hlast) hlast, start_push hlast, hcheck]
    dsimp only
    rw [hwalk]
    rcases descend_of_isClear clear.of_concat with hdescend | hdescend <;> rw [hdescend]
    · simp [bind, Except.bind, checkDirectory, hmissing]
    · rfl
  unfold makeDirectory
  rw [hslot]
  rfl

end Reaches

/-- Puts bytes into the file at a place, and makes it before if there is none. -/
def write (d : Disk) (l : Location) (bytes : ByteArray) : Disk :=
  (d.put l (.file .empty (match d.find? l with
    | some (.file _ runnable) => runnable
    | _ => false))).fill l bytes

/-- Writing a file in a directory that is there. -/
theorem Reaches.writeFile_eq {bytes : ByteArray} (tree : d.IsTree)
    (h : Reaches d cwd p (k ++ [name])) (hcheck : p.check = .ok ())
    (hdir : d.find? k = some .directory) (hname : Path.IsName name)
    (hsize : name.utf8ByteSize ≤ Path.nameLimit)
    (hfind : d.find? (k ++ [name]) = none ∨
      ∃ bytes runnable, d.find? (k ++ [name]) = some (.file bytes runnable)) :
    d.writeFile cwd p bytes = .ok (d.write (k ++ [name]) bytes) := by
  have hslot := (h.slot_eq_ok_iff tree).2 ⟨hcheck, k, name, rfl, hname, hsize, hdir, rfl⟩
  have hlink : ∀ target, d.find? (k ++ [name]) ≠ some (.link target) := by
    rcases hfind with hnone | ⟨bytes, runnable, hfile⟩
    · simp [hnone]
    · simp [hfile]
  have hresolve : d.resolve cwd true p = .ok (k ++ [name]) := by
    obtain ⟨s, names, hplace, hresolve⟩ := h.resolve_eq fun _ => hlink
    rw [hresolve, hcheck]
    exact tree.descend_of_directory hdir hsize hplace
  unfold writeFile createFile write
  rw [hslot]
  rcases hfind with hnone | ⟨bytes', runnable, hfile⟩
  · simp [bind, Except.bind, hresolve, hnone]
    rfl
  · simp [bind, Except.bind, hresolve, hfile]
    rfl

/-- Makes a directory at a place if nothing is there. -/
def make (d : Disk) (l : Location) : Disk := if (d.find? l).isSome then d else d.put l .directory

/-- Makes a directory at a place and at each place above it if nothing is there. -/
def makeAll (d : Disk) (l : Location) : Disk := l.inits.foldl make d

theorem makeAll_concat (d : Disk) (k : Location) (name : String) :
    d.makeAll (k ++ [name]) = (d.makeAll k).make (k ++ [name]) := by
  simp [makeAll, List.inits_append]

theorem make_of_none (h : d.find? l = none) : d.make l = d.put l .directory := by simp [make, h]

theorem IsTree.makeAll_of_directory (tree : d.IsTree) (hdir : d.find? l = some .directory) :
    d.makeAll l = d := by
  induction l using List.reverseRecOn with
  | nil => simp [makeAll, make]
  | append_singleton k name ih =>
    rw [makeAll_concat, ih (tree.parent _ _ _ hdir), make, hdir]
    rfl

end Disk

namespace Directory

open Disk

attribute [local irreducible] Action.wp

variable {w : World} {p : Path} {l k : Location} {name : String}

/-- What is at a place that nothing is in the way of can be removed. -/
theorem removeAny_clear (tree : w.disk.IsTree) (hreach : (w.disk.erase l).Reaches w.cwd p l)
    (clear : w.disk.IsClear l) (hcheck : p.check = .ok ()) :
    (removeAny p).wp w (fun _ w' => w' = { w with disk := w.disk.erase l }) fun _ _ => False := by
  have hreach' := hreach.of_erase
  unfold removeAny
  rw [Action.wp_bind, Action.wp_ask]
  cases hfind : w.disk.find? l with
  | none =>
    rw [hreach'.lookAt_of_none clear hcheck hfind, tree.erase_of_none hreach'.ne_nil hfind]
    exact (Action.wp_pure _).2 rfl
  | some e =>
    rw [(hreach'.lookAt_eq_ok_iff tree).2 ⟨hcheck, hfind⟩]
    have hremove (hne : e ≠ .directory) := (hreach'.removeFile_eq_ok_iff tree).2
      ⟨hcheck, ⟨e, hfind, hne⟩, rfl⟩
    cases e with
    | directory =>
      exact (removeTree_reached tree hreach hfind).mono (fun _ _ h => h.1) fun _ _ h => h.2 hcheck
    | file => simp only [Action.wp_change, hremove (by simp)]
    | link => simp only [Action.wp_change, hremove (by simp)]

theorem createFirst_of_directory {above : List Path} (tree : w.disk.IsTree)
    (hreach : w.disk.Reaches w.cwd p (k ++ [name])) (clear : w.disk.IsClear (k ++ [name]))
    (hcheck : p.check = .ok ()) (hdir : w.disk.find? k = some .directory)
    (hnone : w.disk.find? (k ++ [name]) = none) :
    (createFirst (p :: above)).wp w
      (fun _ w' => w' = { w with disk := w.disk.makeAll (k ++ [name]) }) fun _ _ => False := by
  have hname := (hreach.exists_leads tree rfl hdir).1
  have hmake := (hreach.makeDirectory_eq_ok_iff tree).2
    ⟨hcheck, hnone, ⟨k, name, rfl, hname, clear.size name (by simp), hdir⟩, rfl⟩
  rw [makeAll_concat, tree.makeAll_of_directory hdir, make_of_none hnone]
  unfold createFirst
  simp only [Action.wp_bind, Action.wp_attempt, hmake]
  exact (Action.wp_pure _).2 rfl

/-- If the directory above is missing, it is made before. -/
theorem createFirst_of_missing {above : List Path} {q : Path} (tree : w.disk.IsTree)
    (hreach : w.disk.Reaches w.cwd p (k ++ [name])) (clear : w.disk.IsClear (k ++ [name]))
    (hname : Path.IsName name) (hcheck : p.check = .ok ()) (hmissing : w.disk.find? k = none)
    (hmakes : Makes (createFirst above) w q k)
    (hmade : (createFirst above).wp w (fun _ w' => w' = { w with disk := w.disk.makeAll k })
      fun _ _ => False) :
    (createFirst (p :: above)).wp w
      (fun _ w' => w' = { w with disk := w.disk.makeAll (k ++ [name]) }) fun _ _ => False := by
  unfold Makes at hmakes
  unfold createFirst
  simp only [Action.wp_bind, Action.wp_attempt,
    hreach.makeDirectory_of_missing clear hcheck hmissing]
  refine (hmade.and hmakes).mono (fun _ w₁ h₁ => ?_) fun _ _ h => h.1
  obtain ⟨rfl, hsteady, hbuilt, hdir, -⟩ := h₁
  have hnone : (w.disk.makeAll k).find? (k ++ [name]) = none :=
    (hbuilt.find?_append (by simp)).trans (tree.find?_append (by simp [hmissing]) (by simp))
  have hmake := ((hbuilt.reaches hreach).makeDirectory_eq_ok_iff hbuilt.tree).2
    ⟨hcheck, hnone, ⟨k, name, rfl, hname, clear.size name (by simp), hdir⟩, rfl⟩
  simp only [hmake, makeAll_concat, make_of_none hnone]
  exact (Action.wp_pure _).2 rfl

theorem createFirst_clear {base : Path} {s : Location} (names : List String) (last : String)
    (limit : Nat) (hlimit : names.length ≤ limit) (tree : w.disk.IsTree)
    (hleads : Leads w.disk w.cwd base s) (hnames : ∀ name ∈ names, Path.IsName name)
    (hlast : Path.IsName last) (hplain : w.disk.NoLinks true s names)
    (clear : w.disk.IsClear (s ++ names ++ [last]))
    (hcheck : ((names.foldl Path.push base).push last).check = .ok ())
    (hnone : w.disk.find? (s ++ names ++ [last]) = none) :
    (createFirst (Path.ancestors (limit + 1) ((names.foldl Path.push base).push last))).wp w
      (fun _ w' => w' = { w with disk := w.disk.makeAll (s ++ names ++ [last]) })
      fun _ _ => False := by
  have hreach : w.disk.Reaches w.cwd ((names.foldl Path.push base).push last)
      (s ++ names ++ [last]) := ⟨base, s, names, last, hleads, hnames, hlast, rfl, rfl, hplain⟩
  induction names using List.reverseRecOn generalizing limit last with
  | nil =>
    rw [Path.ancestors, if_neg hreach.isOpen.ne_empty]
    exact createFirst_of_directory tree hreach clear hcheck (by simpa using hleads.directory) hnone
  | append_singleton init prev ih =>
    obtain ⟨limit, rfl⟩ : ∃ n, limit = n + 1 :=
      ⟨limit - 1, by simp only [List.length_append, List.length_singleton] at hlimit; omega⟩
    have hprev := hnames prev (by simp)
    have hinit : ∀ name ∈ init, Path.IsName name := fun name hname => hnames name (by simp [hname])
    have hplain' : w.disk.NoLinks true s init := fun rest hrest hbefore _ =>
      hplain rest hrest (hbefore.trans (List.prefix_append _ _)) fun _ => rfl
    rw [Path.ancestors_foldl_push _ (by simp) hnames hlast]
    rcases clear.parent with hmissing | hdir
    · rw [← List.append_assoc] at hmissing
      have hlink : ∀ target, w.disk.find? (s ++ init ++ [prev]) ≠ some (.link target) := by
        rw [hmissing]
        simp
      rw [← List.append_assoc] at hreach clear hnone ⊢
      have hpath : (init ++ [prev]).foldl Path.push base = (init.foldl Path.push base).push prev := by
        simp
      have hopen := Path.isOpen_push (p := init.foldl Path.push base) hprev
      rw [hpath] at hreach hcheck ⊢
      refine createFirst_of_missing tree hreach clear hlast hcheck hmissing
        (makes_createFirst init prev limit ?_ tree hleads hinit hprev hplain' hlink)
        (ih prev limit ?_ hinit hprev hplain' clear.of_concat (hopen.check_of_push hlast hcheck)
          hmissing ⟨base, s, init, prev, hleads, hinit, hprev, rfl, rfl, hplain'⟩)
      all_goals
        simp only [List.length_append, List.length_singleton] at hlimit
        omega
    · exact createFirst_of_directory tree hreach clear hcheck hdir hnone

/-- A directory can be made, with everything above it, where nothing is in the way. -/
theorem create_clear (tree : w.disk.IsTree) (hreach : w.disk.Reaches w.cwd p l)
    (clear : w.disk.IsClear l) (hcheck : p.check = .ok ()) (hnone : w.disk.find? l = none) :
    (create p).wp w (fun _ w' => w' = { w with disk := w.disk.makeAll l }) fun _ _ => False := by
  obtain ⟨base, s, names, last, hleads, hnames, hlast, rfl, rfl, hplain⟩ := hreach
  unfold create Path.selfAndAbove
  rw [Path.parts_push hlast, List.length_append, List.length_singleton]
  exact createFirst_clear names last _ (Path.length_le_trunk hnames) tree hleads hnames hlast hplain
    clear hcheck hnone

end Directory

end Recompile
