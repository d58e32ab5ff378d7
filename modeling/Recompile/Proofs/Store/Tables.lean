import Recompile.Proofs.Directory.Reached
import Recompile.Store.Files

/-!
# The tables of a store on disk

A store on disk is a directory that holds three files. Resetting a store leaves these files empty and
nothing else in the directory, whatever was there.
-/

namespace Recompile

namespace Disk

variable {d d' : Disk} {cwd l : Location} {p : Path} {files : String → Option ByteArray}

/-- The directory at `l` holds these files and nothing else. -/
structure Holds (d : Disk) (l : Location) (files : String → Option ByteArray) : Prop where
  directory : d.find? l = some .directory
  file : ∀ name bytes, files name = some bytes →
    ∃ runnable, d.find? (l ++ [name]) = some (.file bytes runnable)
  none : ∀ name, files name = none → d.find? (l ++ [name]) = none

namespace Holds

theorem not_link (h : Holds d l files) (name : String) (target : Path) :
    d.find? (l ++ [name]) ≠ some (.link target) := by
  cases hfile : files name with
  | none => simp [h.none name hfile]
  | some bytes =>
    obtain ⟨runnable, hfind⟩ := h.file name bytes hfile
    simp [hfind]

/-- What stands below the directory is one of the files. -/
theorem eq_of_find? (h : Holds d l files) (tree : d.IsTree) {m : Location} {e : Entry}
    (hm : l.covers m = true) (hfind : d.find? m = some e) :
    m = l ∧ e = .directory ∨
      ∃ name bytes runnable, m = l ++ [name] ∧ files name = some bytes ∧ e = .file bytes runnable := by
  obtain ⟨rest, rfl⟩ := Location.covers_iff.1 hm
  cases rest with
  | nil =>
    rw [List.append_nil, h.directory] at hfind
    exact .inl ⟨by simp, (Option.some.inj hfind).symm⟩
  | cons name rest =>
    have hentry : d.find? (l ++ [name]) ≠ some .directory := by
      cases hfile : files name with
      | none => simp [h.none name hfile]
      | some bytes =>
        obtain ⟨runnable, hbelow⟩ := h.file name bytes hfile
        simp [hbelow]
    have hlong : d.find? (l ++ [name] ++ rest) = some e := by simpa using hfind
    obtain rfl : rest = [] := by
      by_contra hrest
      exact hentry (tree.directory_of_append hlong hrest)
    rw [List.append_nil] at hlong
    cases hfile : files name with
    | none =>
      rw [h.none name hfile] at hlong
      cases hlong
    | some bytes =>
      obtain ⟨runnable, hbelow⟩ := h.file name bytes hfile
      rw [hbelow] at hlong
      exact .inr ⟨name, bytes, runnable, rfl, hfile, (Option.some.inj hlong).symm⟩

theorem reaches_push (h : Holds d l files) (hreach : d.Reaches cwd p l) {name : String}
    (hname : Path.IsName name) : d.Reaches cwd (p.push name) (l ++ [name]) :=
  hreach.push hname (by simp [h.directory])

/-- Holding files depends only on what stands at and below the directory. -/
theorem congr (h : Holds d l files)
    (same : ∀ m : Location, l.covers m = true → d'.find? m = d.find? m) : Holds d' l files := by
  refine ⟨(same l (Location.covers_self l)).trans h.directory, fun name bytes hfile => ?_,
    fun name hfile => ?_⟩
  · rw [same _ (Location.covers_append l _)]
    exact h.file name bytes hfile
  · rw [same _ (Location.covers_append l _)]
    exact h.none name hfile

/-- Putting a file into the directory. -/
theorem update (h : Holds d l files) {name : String} {bytes : ByteArray} {runnable : Bool}
    (hfind : ∀ m, d'.find? m = if m = l ++ [name] then some (.file bytes runnable) else d.find? m) :
    Holds d' l (Function.update files name (some bytes)) := by
  refine ⟨?_, fun other b hb => ?_, fun other hother => ?_⟩
  · rw [hfind, if_neg (by simp)]
    exact h.directory
  · by_cases heq : other = name
    · subst heq
      rw [Function.update_self] at hb
      cases hb
      exact ⟨runnable, by simp [hfind]⟩
    · rw [Function.update_of_ne heq] at hb
      obtain ⟨r, hr⟩ := h.file other b hb
      exact ⟨r, by simp [hfind, heq, hr]⟩
  · by_cases heq : other = name
    · subst heq
      simp at hother
    · rw [Function.update_of_ne heq] at hother
      simp [hfind, heq, h.none other hother]

/-- Moving the directory beside itself. -/
theorem move {k : Location} {a b : String} (h : Holds d (k ++ [a]) files) (hne : a ≠ b) :
    Holds (d.move (k ++ [a]) (k ++ [b])) (k ++ [b]) files := by
  have hab := Location.covers_sibling (l := k) hne
  have hba := Location.covers_sibling (l := k) hne.symm
  have hbelow (rest : List String) : (d.move (k ++ [a]) (k ++ [b])).find? (k ++ [b] ++ rest) =
      d.find? (k ++ [a] ++ rest) := by
    have hapart := Location.Apart.not_covers ⟨hba, hab⟩ (Location.covers_append (k ++ [b]) rest)
    have hmove := @find?_move d (k ++ [a]) (k ++ [b]) (by simp) (by simp) hab hba
    rw [hmove, if_neg (by rw [hapart]; exact Bool.false_ne_true),
      if_pos (Location.covers_append _ _), List.drop_left]
  refine ⟨by simpa using (hbelow []).trans (by simpa using h.directory), fun name bytes hfile => ?_,
    fun name hfile => ?_⟩
  · rw [hbelow]
    exact h.file name bytes hfile
  · rw [hbelow]
    exact h.none name hfile

end Holds

/-- What can be written into a directory that a path reaches. -/
theorem tree_of_writeFile {bytes : ByteArray} (tree : d.IsTree) (hreach : d.Reaches cwd p l)
    (hlink : ∀ target, d.find? l ≠ some (.link target))
    (hwrite : d.writeFile cwd p bytes = .ok d') :
    d'.IsTree ∧ (∃ runnable, ∀ m, d'.find? m =
      if m = l then some (.file bytes runnable) else d.find? m) ∧
      ∀ top : Location, top.covers l = true → d'.erase top = d.erase top := by
  have hslot : ∃ slot, d.slot cwd p = .ok slot := by
    unfold writeFile createFile at hwrite
    simp only [Except.bind_eq_ok_iff] at hwrite
    obtain ⟨_, ⟨slot, hslot, -⟩, -⟩ := hwrite
    exact ⟨slot, hslot⟩
  obtain ⟨slot, hslot⟩ := hslot
  obtain ⟨-, k, name, rfl, hname, hsize, hdir, -⟩ := (hreach.slot_eq_ok_iff tree).1 hslot
  obtain ⟨-, runnable, hfind, rfl⟩ := hreach.writeFile_eq_ok hlink hwrite
  have hnotdir : d.find? (k ++ [name]) ≠ some .directory := by
    rcases hfind with h | ⟨b, h⟩ <;> simp [h]
  have hne : k ++ [name] ≠ [] := by simp
  have htree : (d.put (k ++ [name]) (.file .empty runnable)).IsTree :=
    tree.put hdir hname hsize fun h => absurd h hnotdir
  refine ⟨htree.put ?_ hname hsize ?_, ⟨runnable, fun m => ?_⟩, fun top htop => ?_⟩
  · rw [find?_put _ hne, if_neg (by simp)]
    exact hdir
  · rw [find?_put _ hne, if_pos rfl]
    simp
  · rw [find?_put _ hne, find?_put _ hne]
    split_ifs <;> rfl
  · rw [erase_put _ htop, erase_put _ htop]

/-- Writing a file in a directory changes that file only. -/
theorem Holds.writeFile {bytes : ByteArray} {name : String} (h : Holds d l files) (tree : d.IsTree)
    (hreach : d.Reaches cwd p l) (hname : Path.IsName name)
    (hwrite : d.writeFile cwd (p.push name) bytes = .ok d') :
    Holds d' l (Function.update files name (some bytes)) ∧ d'.IsTree ∧
      ∀ m : Location, l.covers m = false → d'.find? m = d.find? m := by
  obtain ⟨htree, ⟨runnable, hfind⟩, -⟩ :=
    tree_of_writeFile tree (h.reaches_push hreach hname) (h.not_link name) hwrite
  refine ⟨h.update hfind, htree, fun m hm => ?_⟩
  rw [hfind, if_neg]
  rintro rfl
  simp [Location.covers_append] at hm

end Disk

namespace Store

open Disk

/-- The names of the tables. -/
def tableNames : List String := ["classes.txt", "sources.txt", "deps.txt"]

theorem isName_tableNames {name : String} (h : name ∈ tableNames) : Path.IsName name := by
  simp only [tableNames, List.mem_cons, List.not_mem_nil, or_false] at h
  rcases h with rfl | rfl | rfl <;> decide

theorem tables_eq (directory : Path) : tables directory = tableNames.map directory.push := rfl

/-- The files of a store with these tables. -/
def files (classes sources dependencies : ByteArray) (name : String) : Option ByteArray :=
  if name = "classes.txt" then some classes
  else if name = "sources.txt" then some sources
  else if name = "deps.txt" then some dependencies
  else none

variable {d d' : Disk} {cwd l : Location} {directory : Path} {w : World}

/-- No link stands at the place of a store or of one of its tables. -/
structure Unlinked (d : Disk) (l : Location) : Prop where
  directory : ∀ target, d.find? l ≠ some (.link target)
  table : ∀ name ∈ tableNames, ∀ target, d.find? (l ++ [name]) ≠ some (.link target)

theorem Unlinked.congr (h : Unlinked d l)
    (same : ∀ m : Location, l.covers m = true → d'.find? m = d.find? m) : Unlinked d' l := by
  refine ⟨?_, fun name hname => ?_⟩
  · rw [same l (Location.covers_self l)]
    exact h.directory
  · rw [same _ (Location.covers_append l _)]
    exact h.table name hname

theorem unlinked_of_holds {files : String → Option ByteArray} (h : d.Holds l files) :
    Unlinked d l := ⟨by simp [h.directory], fun name _ => h.not_link name⟩

/-- A place is a store if all three tables are files. -/
theorem isAt_iff (tree : d.IsTree) (hreach : d.Reaches cwd directory l) (unlinked : Unlinked d l) :
    isAt d cwd directory = true ↔ directory.check = .ok () ∧ ∀ name ∈ tableNames,
      (directory.push name).check = .ok () ∧
        ∃ bytes runnable, d.find? (l ++ [name]) = some (.file bytes runnable) := by
  have hfile : ∀ name ∈ tableNames, (d.isFile cwd (directory.push name) = true ↔
      (directory.push name).check = .ok () ∧
        ∃ bytes runnable, d.find? (l ++ [name]) = some (.file bytes runnable)) := fun name hname =>
    (hreach.push (isName_tableNames hname) unlinked.directory).isFile_iff tree
      (unlinked.table name hname)
  rw [isAt, tables_eq, Bool.and_eq_true, List.all_map, List.all_eq_true,
    hreach.isDirectory_iff tree unlinked.directory]
  constructor
  · rintro ⟨⟨hcheck, -⟩, hall⟩
    exact ⟨hcheck, fun name hname => (hfile name hname).1 (hall name hname)⟩
  · rintro ⟨hcheck, hall⟩
    obtain ⟨-, bytes, runnable, hfind⟩ := hall "classes.txt" (by simp [tableNames])
    exact ⟨⟨hcheck, tree.parent _ _ _ hfind⟩, fun name hname => (hfile name hname).2 (hall name hname)⟩

/-! ## Resetting -/

/-- What a store in the making is at some point: a tree on which the directory holds these files. -/
structure Making (directory : Path) (l : Location) (files : String → Option ByteArray)
    (w w' : World) : Prop extends World.Touched l w w' where
  reaches : w'.disk.Reaches w'.cwd directory l
  holds : w'.disk.Holds l files

theorem Making.writeFile {files : String → Option ByteArray} {w' : World}
    (h : Making directory l files w w') {name : String} (hname : Path.IsName name)
    (bytes : ByteArray) :
    (Action.change fun d cwd => d.writeFile cwd (directory.push name) bytes).wp w'
      (fun _ w'' => Making directory l (Function.update files name (some bytes)) w w'' ∧
        (directory.push name).check = .ok ())
      fun _ w'' => w'' = w' := by
  rw [Action.wp_change]
  cases hwrite : w'.disk.writeFile w'.cwd (directory.push name) bytes with
  | error fault => rfl
  | ok d =>
    obtain ⟨hholds, htree, hsame⟩ := h.holds.writeFile h.tree h.reaches hname hwrite
    have hcheck :=
      ((h.holds.reaches_push h.reaches hname).writeFile_eq_ok (h.holds.not_link name) hwrite).1
    refine ⟨⟨⟨⟨h.cwd, h.environment⟩, htree, h.outside.trans (.of_eq hsame)⟩, ?_, hholds⟩,
      hcheck⟩
    refine h.reaches.of_keeps (writeFile_keeps hwrite) fun top htop hne hlink => ?_
    rw [hsame top]
    · exact hlink
    · rw [Bool.eq_false_iff]
      exact fun hcovers => hne (Location.covers_antisymm htop hcovers)

/-- Three tables in the place of the tables are all there is. -/
theorem update_tables {files₀ : String → Option ByteArray} {classes sources dependencies : ByteArray}
    (hall : ∀ name, name ∉ tableNames → files₀ name = none) :
    Function.update (Function.update (Function.update files₀ "classes.txt" (some classes))
      "sources.txt" (some sources)) "deps.txt" (some dependencies) =
        files classes sources dependencies := by
  funext name
  by_cases hname : name ∈ tableNames
  · simp only [tableNames, List.mem_cons, List.not_mem_nil, or_false] at hname
    rcases hname with rfl | rfl | rfl <;> simp [files]
  · have hnone := hall name hname
    simp only [tableNames, List.mem_cons, List.not_mem_nil, or_false, not_or] at hname
    simp [files, hname, hnone]

/-- Writing the three tables one after the other. If that fails, one of them is as it was. -/
theorem Making.writeTables {files₀ : String → Option ByteArray} {w₀ : World}
    (h₀ : Making directory l files₀ w w₀) (classes sources dependencies : ByteArray)
    {ok : Unit → World → Prop} {fail : Failure → World → Prop}
    (hok : ∀ w', Making directory l (files classes sources dependencies) w w' →
      (∀ name ∈ tableNames, (directory.push name).check = Except.ok ()) → ok () w')
    (hall : ∀ name, name ∉ tableNames → files₀ name = none)
    (hfail : ∀ f w' files', Making directory l files' w w' →
      (∃ name ∈ tableNames, files' name = files₀ name) → fail f w') :
    (Action.change fun d cwd => d.writeFile cwd (classesTable directory) classes).wp w₀
      (fun _ w₁ => (Action.change fun d cwd => d.writeFile cwd (sourcesTable directory) sources).wp w₁
        (fun _ w₂ => (Action.change fun d cwd =>
          d.writeFile cwd (dependenciesTable directory) dependencies).wp w₂ ok fail) fail) fail := by
  have hmem (name : String) (hname : name ∈ ["classes.txt", "sources.txt", "deps.txt"]) :
      name ∈ tableNames := hname
  have hclasses := isName_tableNames (hmem "classes.txt" (by simp))
  have hsources := isName_tableNames (hmem "sources.txt" (by simp))
  have hdeps := isName_tableNames (hmem "deps.txt" (by simp))
  have first := h₀.writeFile hclasses classes
  refine first.mono (fun _ w₁ h₁ => ?_) fun f w' h => ?_
  · have second := h₁.1.writeFile hsources sources
    refine second.mono (fun _ w₂ h₂ => ?_) fun f w' h => ?_
    · have third := h₂.1.writeFile hdeps dependencies
      refine third.mono (fun _ w₃ h₃ => ?_) fun f w' h => ?_
      · refine hok w₃ ?_ fun name hname => ?_
        · rw [← update_tables hall]
          exact h₃.1
        · simp only [tableNames, List.mem_cons, List.not_mem_nil, or_false] at hname
          rcases hname with rfl | rfl | rfl
          · exact h₁.2
          · exact h₂.2
          · exact h₃.2
      · rw [h]
        exact hfail f w₂ _ h₂.1 ⟨"deps.txt", hmem _ (by simp), by simp⟩
    · rw [h]
      exact hfail f w₁ _ h₁.1 ⟨"deps.txt", hmem _ (by simp), by simp⟩
  · rw [h]
    exact hfail f w₀ _ h₀ ⟨"deps.txt", hmem _ (by simp), rfl⟩

/-- Replacing whatever is at a place by an empty directory. -/
theorem making_create (tree : w.disk.IsTree) (hreach : (w.disk.erase l).Reaches w.cwd directory l) :
    (do Directory.removeAny directory; Directory.create directory).wp w
      (fun _ w' => Making directory l (fun _ => none) w w' ∧ directory.check = Except.ok ())
      fun _ w' => w.Touched l w' ∧ (w' = w ∨ w'.disk.Reaches w'.cwd directory l ∧
        (∀ target, w'.disk.find? l ≠ some (Entry.link target)) ∧
        ∀ name, w'.disk.find? (l ++ [name]) = none) := by
  rw [Action.wp_bind]
  refine (Directory.removeAny_reached tree hreach).mono (fun _ w₁ h => ?_) fun _ w' h => ?_
  · subst h
    have htree := tree.erase l
    have hout := sameOutside_erase l w.disk
    have hgone (m : Location) (hne : m ≠ []) (hm : l.covers m = true) :
        (w.disk.erase l).find? m = none := by
      rw [find?_erase, if_pos ⟨hne, hm⟩]
    have hlink : ∀ target, (w.disk.erase l).find? l ≠ some (.link target) := by
      simp [hgone l hreach.ne_nil (Location.covers_self l)]
    have hbelow {d' : Disk} (hbuilt : Built l (w.disk.erase l) d') (name : String) :
        d'.find? (l ++ [name]) = none :=
      (hbuilt.find?_append (by simp)).trans (hgone _ (by simp) (Location.covers_append l _))
    refine (Directory.makes_create htree hreach hlink).mono (fun _ w₂ h => ?_) fun _ w₂ h => ?_
    · obtain ⟨hsteady, hbuilt, hdir, hcheck⟩ := h
      refine ⟨⟨⟨⟨hsteady.cwd, hsteady.environment⟩, hbuilt.tree, ?_⟩, ?_,
        ⟨hdir, (by simp), fun name _ => hbelow hbuilt name⟩⟩, hcheck⟩
      · exact hout.trans hbuilt.sameOutside
      · rw [hsteady.cwd]
        exact hbuilt.reaches hreach
    · obtain ⟨hsteady, hbuilt⟩ := h
      refine ⟨⟨⟨hsteady.cwd, hsteady.environment⟩, hbuilt.tree,
        hout.trans hbuilt.sameOutside⟩, .inr ⟨?_, hbuilt.not_link hlink, hbelow hbuilt⟩⟩
      rw [hsteady.cwd]
      exact hbuilt.reaches hreach
  · subst h
    exact ⟨⟨.refl _, tree, .refl _ _⟩, .inl rfl⟩

/-- A directory that holds the tables is a store. -/
theorem isAt_of_holds {classes sources dependencies : ByteArray} (tree : d.IsTree)
    (hreach : d.Reaches cwd directory l) (hholds : d.Holds l (files classes sources dependencies))
    (hcheck : directory.check = .ok ())
    (hchecks : ∀ name ∈ tableNames, (directory.push name).check = .ok ()) :
    isAt d cwd directory = true := by
  refine (isAt_iff tree hreach (unlinked_of_holds hholds)).2
    ⟨hcheck, fun name hname => ?_⟩
  refine ⟨hchecks name hname, ?_⟩
  have hsome : ∃ bytes, files classes sources dependencies name = some bytes := by
    simp only [tableNames, List.mem_cons, List.not_mem_nil, or_false] at hname
    rcases hname with rfl | rfl | rfl
    · exact ⟨classes, rfl⟩
    · exact ⟨sources, rfl⟩
    · exact ⟨dependencies, rfl⟩
  obtain ⟨bytes, hbytes⟩ := hsome
  obtain ⟨runnable, hfind⟩ := hholds.file name bytes hbytes
  exact ⟨bytes, runnable, hfind⟩

/-- Whether a place is a store depends only on what stands there. -/
theorem isAt_congr {cwd' : Location} (tree : d.IsTree) (tree' : d'.IsTree)
    (hreach : d.Reaches cwd directory l) (hreach' : d'.Reaches cwd' directory l)
    (unlinked : Unlinked d l)
    (same : ∀ m : Location, l.covers m = true → d'.find? m = d.find? m) :
    isAt d' cwd' directory = isAt d cwd directory := by
  rw [Bool.eq_iff_iff, isAt_iff tree' hreach' (unlinked.congr same), isAt_iff tree hreach unlinked]
  simp only [same _ (Location.covers_append l _)]

/-- A place where a table is missing is no store. -/
theorem not_isAt_of_none (tree : d.IsTree) (hreach : d.Reaches cwd directory l)
    (hlink : ∀ target, d.find? l ≠ some (.link target)) {name : String} (hname : name ∈ tableNames)
    (hnone : d.find? (l ++ [name]) = none) : isAt d cwd directory = false := by
  rw [Bool.eq_false_iff]
  intro hat
  rw [isAt, tables_eq, Bool.and_eq_true, List.all_map, List.all_eq_true] at hat
  have hreach' := hreach.push (isName_tableNames hname) hlink
  obtain ⟨-, bytes, runnable, hfind⟩ := (hreach'.isFile_iff tree (by simp [hnone])).1 (hat.2 name hname)
  rw [hnone] at hfind
  cases hfind

/-- A reset puts an empty store in the place of whatever is there. If it fails it has changed
nothing, or what it leaves is no store. -/
theorem reset_reached (tree : w.disk.IsTree) (hreach : (w.disk.erase l).Reaches w.cwd directory l) :
    (reset directory).wp w
      (fun _ w' => Making directory l (files .empty .empty .empty) w w' ∧
        isAt w'.disk w'.cwd directory = true)
      fun _ w' => w.Touched l w' ∧ (w' = w ∨ isAt w'.disk w'.cwd directory = false) := by
  have hmake := making_create tree hreach
  have hclasses : "classes.txt" ∈ tableNames := by simp [tableNames]
  have hfail (w₁ : World) (h : w.Touched l w₁ ∧ (w₁ = w ∨ w₁.disk.Reaches w₁.cwd directory l ∧
      (∀ target, w₁.disk.find? l ≠ some (.link target)) ∧
        ∀ name, w₁.disk.find? (l ++ [name]) = none)) :
      w.Touched l w₁ ∧ (w₁ = w ∨ isAt w₁.disk w₁.cwd directory = false) := by
    refine ⟨h.1, h.2.imp id fun ⟨hreach₁, hlink, hnone⟩ => ?_⟩
    exact not_isAt_of_none h.1.tree hreach₁ hlink hclasses (hnone _)
  unfold reset
  rw [Action.wp_within]
  simp only [Action.wp_bind] at hmake ⊢
  refine hmake.mono (fun _ _ h₁ => h₁.mono (fun _ w₂ h₂ => ?_) fun _ => hfail) fun _ => hfail
  simp only [tables, List.forM, Action.wp_bind, Action.wp_pure]
  refine h₂.1.writeTables .empty .empty .empty (fun w' h hchecks => ?_) (fun _ _ => rfl)
    fun f w' files' h hmissing => ?_
  · exact ⟨h, isAt_of_holds h.tree h.reaches h.holds h₂.2 hchecks⟩
  · obtain ⟨name, hname, hnone⟩ := hmissing
    exact ⟨h.toTouched, .inr (not_isAt_of_none h.tree h.reaches (by simp [h.holds.directory]) hname
      (h.holds.none name hnone))⟩

end Store

end Recompile
