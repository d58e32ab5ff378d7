import Recompile.Disk.Operation
import Recompile.Proofs.Disk.Tree

/-!
# What the operations on a disk do

An operation that succeeds puts or takes away one entry, or takes away a subtree; where the entry is
follows from where its path leads. Making something keeps what was there, and what is left after a
removal was there before.
-/

namespace Recompile

namespace Path

/-- The last component of a path is never an empty name or one of the dots. -/
theorem isName_of_splitLast {p : Path} {before : List String} {name : String} {slash : Bool}
    (h : p.splitLast = (before, .name name, slash)) : IsName name := by
  unfold splitLast at h
  set ending := p.parts.reverse.dropWhile (· = "") with hending
  cases hlist : ending with
  | nil => simp [hlist] at h
  | cons last rest =>
    have hne : last ≠ "" := by
      have := List.head_dropWhile_not (p := fun part : String => decide (part = ""))
        (l := p.parts.reverse) (by rw [← hending, hlist]; simp)
      simpa [← hending, hlist] using this
    have hmem : last ∈ p.parts := by
      have hsub := List.dropWhile_sublist (fun part : String => decide (part = "")) (l := p.parts.reverse)
      rw [← hending, hlist] at hsub
      exact List.mem_reverse.1 (hsub.subset List.mem_cons_self)
    simp only [hlist, Prod.mk.injEq] at h
    obtain ⟨-, hcomponent, -⟩ := h
    split_ifs at hcomponent with hhere hup
    simp only [Component.name.injEq] at hcomponent
    subst hcomponent
    exact ⟨hne, hhere, hup, Text.not_mem_of_mem_fields hmem⟩

end Path

namespace Disk

variable {d d' : Disk} {cwd l : Location} {p : Path} {e : Entry}

/-! ## Keeping what is there -/

theorem keeps_put_of_none (h : d.find? l = none) : Keeps d (d.put l e) := by
  by_cases hl : l = []
  · simp [hl] at h
  refine .of_subset fun m e' hm => ?_
  rw [find?_put _ hl, if_neg]
  · exact hm
  · rintro rfl
    simp [h] at hm

theorem keeps_put_file {bytes bytes' : ByteArray} {runnable runnable' : Bool}
    (h : d.find? l = some (.file bytes runnable)) : Keeps d (d.put l (.file bytes' runnable')) := by
  by_cases hl : l = []
  · simp [hl] at h
  intro m e' hm
  rw [find?_put _ hl]
  by_cases hml : m = l
  · subst hml
    rw [h] at hm
    cases hm
    exact ⟨.file bytes' runnable', by simp, trivial⟩
  · exact ⟨e', by simp [hml, hm], .refl e'⟩

theorem erase_keeps (d : Disk) (l : Location) : Keeps (d.erase l) d := by
  refine .of_subset fun m e h => ?_
  rw [find?_erase] at h
  split_ifs at h
  exact h

theorem clear_keeps (d : Disk) (l : Location) : Keeps (d.clear l) d := by
  refine .of_subset fun m e h => ?_
  rw [find?_clear] at h
  split_ifs at h
  exact h

theorem Keeps.erase (keeps : Keeps d d') (l : Location) : Keeps (d.erase l) (d'.erase l) := by
  intro m e h
  rw [find?_erase] at h ⊢
  split_ifs at h ⊢
  exact keeps m e h

/-! ## Slots -/

/-- A slot with a name is a place in a directory. -/
theorem slot_name {name : String} {slash : Bool} (h : d.slot cwd p = .ok ⟨l, .name name, slash⟩) :
    Path.IsName name ∧ name.utf8ByteSize ≤ Path.nameLimit ∧ d.find? l = some .directory := by
  unfold Disk.slot at h
  rcases hsplit : p.splitLast with ⟨before, last, slash'⟩
  rw [hsplit] at h
  simp only [Except.bind_eq_ok_iff] at h
  obtain ⟨_, -, directory, -, _, hd, hslot⟩ := h
  cases last with
  | name text =>
    dsimp only at hslot
    split_ifs at hslot with hsize
    · cases hslot
    · cases hslot
      exact ⟨Path.isName_of_splitLast hsplit, Nat.not_lt.1 hsize, checkDirectory_eq_ok_iff.1 hd⟩
  | root => cases hslot
  | here => cases hslot
  | up => cases hslot

/-! ## Operations -/

theorem makeDirectory_eq_ok_iff :
    d.makeDirectory cwd p = .ok d' ↔ ∃ l name slash, d.slot cwd p = .ok ⟨l, .name name, slash⟩ ∧
      d.find? (l ++ [name]) = none ∧ d' = d.put (l ++ [name]) .directory := by
  unfold makeDirectory
  rw [Except.bind_eq_ok_iff]
  constructor
  · rintro ⟨⟨l, last, slash⟩, hslot, h⟩
    cases last with
    | name name =>
      dsimp only at h
      split_ifs at h with hsome
      cases h
      exact ⟨l, name, slash, hslot, by simpa using hsome, rfl⟩
    | root => cases h
    | here => cases h
    | up => cases h
  · rintro ⟨l, name, slash, hslot, hnone, rfl⟩
    exact ⟨_, hslot, by simp [hnone]⟩

theorem removeFile_eq_ok_iff :
    d.removeFile cwd p = .ok d' ↔ ∃ l name, d.slot cwd p = .ok ⟨l, .name name, false⟩ ∧
      (∃ e, d.find? (l ++ [name]) = some e ∧ e ≠ .directory) ∧ d' = d.erase (l ++ [name]) := by
  unfold removeFile
  rw [Except.bind_eq_ok_iff]
  constructor
  · rintro ⟨⟨l, last, slash⟩, hslot, h⟩
    cases last with
    | name name =>
      dsimp only at h
      split at h
      · cases h
      · cases h
      · next e hne hfind =>
        split_ifs at h with hslash
        cases h
        simp only [Bool.not_eq_true] at hslash
        subst hslash
        exact ⟨l, name, hslot, ⟨e, hfind, hne⟩, rfl⟩
    | root => cases h
    | here => cases h
    | up => cases h
  · rintro ⟨l, name, hslot, ⟨e, hfind, hne⟩, rfl⟩
    refine ⟨_, hslot, ?_⟩
    cases e with
    | directory => exact absurd rfl hne
    | file => simp [hfind]
    | link => simp [hfind]

theorem removeDirectory_eq_ok_iff :
    d.removeDirectory cwd p = .ok d' ↔ ∃ l name slash,
      d.slot cwd p = .ok ⟨l, .name name, slash⟩ ∧ d.find? (l ++ [name]) = some .directory ∧
        d.children (l ++ [name]) = [] ∧ d' = d.erase (l ++ [name]) := by
  unfold removeDirectory
  rw [Except.bind_eq_ok_iff]
  constructor
  · rintro ⟨⟨l, last, slash⟩, hslot, h⟩
    cases last with
    | name name =>
      dsimp only at h
      split at h
      · cases h
      · next hfind =>
        split_ifs at h with hempty
        cases h
        exact ⟨l, name, slash, hslot, hfind, List.isEmpty_iff.1 hempty, rfl⟩
      · cases h
    | root => cases h
    | here => cases h
    | up => cases h
  · rintro ⟨l, name, slash, hslot, hfind, hempty, rfl⟩
    exact ⟨_, hslot, by simp [hfind, hempty]⟩

/-- Making a file empty leads to the file that was there, or to a new one. -/
theorem createFile_eq_ok {x : Location} (h : d.createFile cwd p = .ok (x, d')) :
    d.resolve cwd true p = .ok x ∧ ∃ runnable, d' = d.put x (.file .empty runnable) ∧
      (d.find? x = none ∨ ∃ bytes, d.find? x = some (.file bytes runnable)) := by
  unfold createFile at h
  rw [Except.bind_eq_ok_iff] at h
  obtain ⟨⟨l, last, slash⟩, hslot, h⟩ := h
  dsimp only at h
  split at h
  · rw [Except.bind_eq_ok_iff] at h
    obtain ⟨y, hy, h⟩ := h
    split at h
    · next bytes runnable hfind =>
      cases h
      exact ⟨hy, runnable, rfl, .inr ⟨bytes, hfind⟩⟩
    · cases h
    · next hfind =>
      cases h
      exact ⟨hy, false, rfl, .inl hfind⟩
  · cases h

theorem createFile_keeps {x : Location} (h : d.createFile cwd p = .ok (x, d')) : Keeps d d' := by
  obtain ⟨-, runnable, rfl, hnone | ⟨bytes, hfile⟩⟩ := createFile_eq_ok h
  · exact keeps_put_of_none hnone
  · exact keeps_put_file hfile

theorem fill_keeps (bytes : ByteArray) : Keeps d (d.fill l bytes) := by
  unfold fill
  split
  · next h => exact keeps_put_file h
  · exact .refl d

theorem writeFile_eq_ok {bytes : ByteArray} (h : d.writeFile cwd p bytes = .ok d') :
    ∃ x runnable, d.resolve cwd true p = .ok x ∧ x ≠ [] ∧
      (d.find? x = none ∨ ∃ bytes, d.find? x = some (.file bytes runnable)) ∧
      d' = (d.put x (.file .empty runnable)).put x (.file bytes runnable) := by
  unfold writeFile at h
  rw [Except.bind_eq_ok_iff] at h
  obtain ⟨⟨x, d₁⟩, hcreate, h⟩ := h
  obtain ⟨hresolve, runnable, rfl, hfind⟩ := createFile_eq_ok hcreate
  have hne : x ≠ [] := by
    rintro rfl
    simp at hfind
  cases h
  refine ⟨x, runnable, hresolve, hne, hfind, ?_⟩
  simp [fill, find?_put _ hne]

theorem find?_writeFile {bytes : ByteArray} (h : d.writeFile cwd p bytes = .ok d') :
    ∃ x runnable, d.resolve cwd true p = .ok x ∧ ∀ m,
      d'.find? m = if m = x then some (.file bytes runnable) else d.find? m := by
  obtain ⟨x, runnable, hresolve, hne, -, rfl⟩ := writeFile_eq_ok h
  refine ⟨x, runnable, hresolve, fun m => ?_⟩
  rw [find?_put _ hne, find?_put _ hne]
  split_ifs <;> rfl

theorem writeFile_keeps {bytes : ByteArray} (h : d.writeFile cwd p bytes = .ok d') : Keeps d d' := by
  unfold writeFile at h
  rw [Except.bind_eq_ok_iff] at h
  obtain ⟨⟨x, d₁⟩, hcreate, h⟩ := h
  cases h
  exact (createFile_keeps hcreate).trans (fill_keeps bytes)

theorem removeFile_keeps (h : d.removeFile cwd p = .ok d') : Keeps d' d := by
  obtain ⟨l, name, -, -, rfl⟩ := removeFile_eq_ok_iff.1 h
  exact d.erase_keeps _

theorem removeDirectory_keeps (h : d.removeDirectory cwd p = .ok d') : Keeps d' d := by
  obtain ⟨l, name, slash, -, -, -, rfl⟩ := removeDirectory_eq_ok_iff.1 h
  exact d.erase_keeps _

/-! ## Trees -/

theorem removeFile_tree (tree : d.IsTree) (h : d.removeFile cwd p = .ok d') : d'.IsTree := by
  obtain ⟨l, name, -, -, rfl⟩ := removeFile_eq_ok_iff.1 h
  exact tree.erase _

theorem removeDirectory_tree (tree : d.IsTree) (h : d.removeDirectory cwd p = .ok d') :
    d'.IsTree := by
  obtain ⟨l, name, slash, -, -, -, rfl⟩ := removeDirectory_eq_ok_iff.1 h
  exact tree.erase _

theorem makeDirectory_tree (tree : d.IsTree) (h : d.makeDirectory cwd p = .ok d') : d'.IsTree := by
  obtain ⟨l, name, slash, hslot, hnone, rfl⟩ := makeDirectory_eq_ok_iff.1 h
  obtain ⟨hname, hsize, hdir⟩ := slot_name hslot
  exact tree.put hdir hname hsize fun _ => rfl

/-! ## Looking -/

theorem isFile_iff : d.isFile cwd p = true ↔
    ∃ x bytes runnable, d.resolve cwd true p = .ok x ∧ d.find? x = some (.file bytes runnable) := by
  unfold isFile look
  cases hresolve : d.resolve cwd true p with
  | error fault => simp [bind, Except.bind]
  | ok x =>
    cases hfind : d.find? x with
    | none => simp [bind, Except.bind, hfind]
    | some e => cases e <;> simp [bind, Except.bind, hfind, Entry.isFile, -Bool.exists_bool]

theorem isDirectory_iff : d.isDirectory cwd p = true ↔
    ∃ x, d.resolve cwd true p = .ok x ∧ d.find? x = some .directory := by
  unfold isDirectory look
  cases hresolve : d.resolve cwd true p with
  | error fault => simp [bind, Except.bind]
  | ok x =>
    cases hfind : d.find? x with
    | none => simp [bind, Except.bind, hfind]
    | some e => cases e <;> simp [bind, Except.bind, hfind, Entry.isDirectory]

theorem readFile_eq_ok_iff {bytes : ByteArray} : d.readFile cwd p = .ok bytes ↔
    ∃ x runnable, d.resolve cwd true p = .ok x ∧ d.find? x = some (.file bytes runnable) := by
  unfold readFile look
  cases hresolve : d.resolve cwd true p with
  | error fault => simp [bind, Except.bind]
  | ok x =>
    cases hfind : d.find? x with
    | none => simp [bind, Except.bind, hfind]
    | some e => cases e <;> simp [bind, Except.bind, hfind, -Bool.exists_bool]

/-- What can be read can be read as well when more is on the disk. -/
theorem readFile_of_subset {bytes : ByteArray}
    (hsub : ∀ m e, d.find? m = some e → d'.find? m = some e)
    (h : d.readFile cwd p = .ok bytes) : d'.readFile cwd p = .ok bytes := by
  obtain ⟨x, runnable, hresolve, hfind⟩ := readFile_eq_ok_iff.1 h
  have hx := resolve_of_keeps (.of_subset hsub) (fun _ _ => by simp [hfind]) hresolve
  exact readFile_eq_ok_iff.2 ⟨x, runnable, hx, hsub x _ hfind⟩

/-- What was written to a path is a file at that path. -/
theorem isFile_of_writeFile {bytes : ByteArray} (h : d.writeFile cwd p bytes = .ok d') :
    d'.isFile cwd p = true := by
  have keeps := writeFile_keeps h
  obtain ⟨x, runnable, hresolve, hfind⟩ := find?_writeFile h
  have hx : d'.find? x = some (.file bytes runnable) := by simp [hfind]
  refine isFile_iff.2 ⟨x, bytes, runnable, ?_, hx⟩
  exact resolve_of_keeps keeps (fun target hlink => by simp [hx] at hlink) hresolve

end Disk

end Recompile
