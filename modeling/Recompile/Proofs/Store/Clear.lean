import Recompile.Proofs.Store.Save

/-!
# Saving where nothing is in the way

Where nothing is in the way of a store and of the place where it is staged, and the paths of its
tables are accepted, a reset and a save do not fail, and each of them is one change of the disk that
goes by places and not by paths.
-/

namespace Recompile

namespace Disk

/-- The directory at `l` with these files as the tables of a store. -/
def tabled (d : Disk) (l : Location) (files : String → Option ByteArray) : Disk :=
  Store.tableNames.foldl (fun d table => d.write (l ++ [table]) ((files table).getD .empty)) d

/-- An empty store in the place of whatever is at `l`. -/
def emptied (d : Disk) (l : Location) : Disk :=
  ((d.erase l).makeAll l).tabled l (Store.files .empty .empty .empty)

/-- The store in its place, after it was staged beside it. -/
def saved (d : Disk) (k : Location) (name : String) (s : Store) : Disk :=
  let beside := k ++ [Store.besideName name]
  (((d.emptied beside).tabled beside s.contents).erase (k ++ [name])).move beside (k ++ [name])

end Disk

namespace Store

open Disk

attribute [local irreducible] Action.wp

variable {w w' : World} {k l : Location} {name : String} {directory : Path}
  {files₀ : String → Option ByteArray}

theorem size_tableNames {table : String} (h : table ∈ tableNames) :
    table.utf8ByteSize ≤ Path.nameLimit := by
  simp only [tableNames, List.mem_cons, List.not_mem_nil, or_false] at h
  rcases h with rfl | rfl | rfl <;> decide

namespace Making

/-- A table can be written into a store in the making. -/
theorem write (h : Making directory l files₀ w w') {table : String} (htable : table ∈ tableNames)
    (hcheck : (directory.push table).check = .ok ()) (bytes : ByteArray) :
    w'.disk.writeFile w'.cwd (directory.push table) bytes =
        .ok (w'.disk.write (l ++ [table]) bytes) ∧
      Making directory l (Function.update files₀ table (some bytes)) w
        { w' with disk := w'.disk.write (l ++ [table]) bytes } := by
  have hname := isName_tableNames htable
  have hfind : w'.disk.find? (l ++ [table]) = none ∨
      ∃ old runnable, w'.disk.find? (l ++ [table]) = some (.file old runnable) := by
    cases hfile : files₀ table with
    | none => exact .inl (h.holds.none table hfile)
    | some old =>
      obtain ⟨runnable, hfind⟩ := h.holds.file table old hfile
      exact .inr ⟨old, runnable, hfind⟩
  have hwrite : w'.disk.writeFile w'.cwd (directory.push table) bytes =
      .ok (w'.disk.write (l ++ [table]) bytes) :=
    (h.holds.reaches_push h.reaches hname).writeFile_eq h.tree hcheck h.holds.directory hname
      (size_tableNames htable) hfind
  have hspec := h.writeFile hname bytes
  rw [Action.wp_change, hwrite] at hspec
  exact ⟨hwrite, hspec.1⟩

/-- The three tables can be written into a store in the making. -/
theorem tabled (h : Making directory l files₀ w w')
    (hall : ∀ name, name ∉ tableNames → files₀ name = none)
    (hchecks : ∀ table ∈ tableNames, (directory.push table).check = .ok ())
    (classes sources dependencies : ByteArray) {ok : Unit → World → Prop}
    {fail : Failure → World → Prop}
    (hok : Making directory l (files classes sources dependencies) w
        { w' with disk := w'.disk.tabled l (files classes sources dependencies) } →
      ok () { w' with disk := w'.disk.tabled l (files classes sources dependencies) }) :
    (Action.change fun d cwd => d.writeFile cwd (classesTable directory) classes).wp w'
      (fun _ w₁ => (Action.change fun d cwd => d.writeFile cwd (sourcesTable directory) sources).wp w₁
        (fun _ w₂ => (Action.change fun d cwd =>
          d.writeFile cwd (dependenciesTable directory) dependencies).wp w₂ ok fail) fail) fail := by
  have hmem (name : String) (hname : name ∈ ["classes.txt", "sources.txt", "deps.txt"]) :
      name ∈ tableNames := hname
  obtain ⟨hclasses, h₁⟩ := h.write (hmem "classes.txt" (by simp)) (hchecks _ (hmem _ (by simp))) classes
  obtain ⟨hsources, h₂⟩ := h₁.write (hmem "sources.txt" (by simp)) (hchecks _ (hmem _ (by simp))) sources
  obtain ⟨hdeps, h₃⟩ := h₂.write (hmem "deps.txt" (by simp)) (hchecks _ (hmem _ (by simp))) dependencies
  rw [update_tables hall] at h₃
  simp only [Action.wp_change, classesTable, sourcesTable, dependenciesTable, hclasses, hsources, hdeps]
  exact hok h₃

end Making

/-- Nothing is in the way of putting a store at a place, and the paths of its tables are accepted. -/
structure HasRoom (w : World) (directory : Path) (l : Location) : Prop where
  tree : w.disk.IsTree
  reaches : (w.disk.erase l).Reaches w.cwd directory l
  clear : w.disk.IsClear l
  checks : ∀ table ∈ tableNames, (directory.push table).check = .ok ()

theorem HasRoom.check (h : HasRoom w directory l) : directory.check = .ok () := by
  have hmem : "classes.txt" ∈ tableNames := by simp [tableNames]
  exact h.reaches.isOpen.check_of_push (isName_tableNames hmem) (h.checks _ hmem)

/-- Replacing whatever is at a place by an empty directory. -/
theorem making_clear (h : HasRoom w directory l) :
    (do Directory.removeAny directory; Directory.create directory).wp w
      (fun _ w' => w' = { w with disk := (w.disk.erase l).makeAll l } ∧
        Making directory l (fun _ => none) w w') fun _ _ => False := by
  have hnone : (w.disk.erase l).find? l = none := by
    rw [find?_erase, if_pos ⟨h.reaches.ne_nil, Location.covers_self l⟩]
  have hexact : (do Directory.removeAny directory; Directory.create directory).wp w
      (fun _ w' => w' = { w with disk := (w.disk.erase l).makeAll l }) fun _ _ => False := by
    rw [Action.wp_bind]
    refine (Directory.removeAny_clear h.tree h.reaches h.clear h.check).mono (fun _ w₁ h₁ => ?_)
      fun _ _ => id
    subst h₁
    exact Directory.create_clear (h.tree.erase l) h.reaches (h.clear.erase l) h.check hnone
  exact (hexact.and (making_create h.tree h.reaches)).mono (fun _ _ h' => ⟨h'.1, h'.2.1⟩)
    fun _ _ h' => h'.1

/-- A reset puts empty tables in the place of whatever is there. -/
theorem reset_clear (h : HasRoom w directory l) :
    (reset directory).wp w
      (fun _ w' => w' = { w with disk := w.disk.emptied l } ∧
        Making directory l (files .empty .empty .empty) w w') fun _ _ => False := by
  have hmake := making_clear h
  unfold reset
  rw [Action.wp_within]
  simp only [Action.wp_bind] at hmake ⊢
  refine hmake.mono (fun _ _ h₁ => h₁.mono (fun _ w₂ h₂ => ?_) fun _ _ => id) fun _ _ => id
  obtain ⟨rfl, hmaking⟩ := h₂
  simp only [tables, List.forM, Action.wp_bind, Action.wp_pure]
  exact hmaking.tabled (fun _ _ => rfl) h.checks .empty .empty .empty fun hmaking => ⟨rfl, hmaking⟩

/-- Nothing is in the way of saving a store at a place. -/
structure CanSave (directory : Path) (k : Location) (name : String) (w : World) : Prop where
  layout : Layout w.disk w.cwd (sites directory k name)
  clear : w.disk.IsClear (k ++ [besideName name])
  checks : ∀ table ∈ tableNames, ((stagingDirectory directory).push table).check = .ok ()

namespace CanSave

theorem staging (h : CanSave directory k name w) :
    HasRoom w (stagingDirectory directory) (k ++ [besideName name]) := by
  have hstaged : (stagingDirectory directory, k ++ [besideName name]) ∈ sites directory k name := by
    simp [sites]
  exact ⟨h.layout.tree, h.layout.reaches_erase hstaged, h.clear, h.checks⟩

theorem place (h : CanSave directory k name w) : HasRoom w directory (k ++ [name]) := by
  have hsite : (directory, k ++ [name]) ∈ sites directory k name := by simp [sites]
  have hopen := (h.layout.reaches_self hsite).isOpen
  have hsize := h.clear.size (besideName name) (by simp)
  simp only [besideName, String.utf8ByteSize_append] at hsize
  exact ⟨h.layout.tree, h.layout.reaches_erase hsite, h.clear.beside (by omega),
    fun table htable => check_table hopen (isName_tableNames htable) (h.checks table htable)⟩

/-- It stays so while nothing but directories comes to stand above the place. -/
theorem of_same (h : CanSave directory k name w)
    (layout : Layout w'.disk w'.cwd (sites directory k name))
    (same : ∀ top : Location, top.covers k = true →
      w'.disk.find? top = w.disk.find? top ∨ w'.disk.find? top = some .directory) :
    CanSave directory k name w' := by
  refine ⟨layout, ⟨fun top htop hne => ?_, h.clear.size⟩, h.checks⟩
  rcases same top ((Location.covers_concat_iff.1 htop).resolve_left hne) with hsame | hdir
  · rw [hsame]
    exact h.clear.above top htop hne
  · exact .inr hdir

theorem of_view (h : CanSave directory k name w) (hview : w'.view = w.view) :
    CanSave directory k name w' := by
  simp only [World.view, View.mk.injEq] at hview
  refine h.of_same ?_ fun _ _ => .inl (by rw [hview.1])
  rw [hview.1, hview.2.1]
  exact h.layout

end CanSave

/-- A store in a directory to which a path leads apart from the store. -/
theorem layout_of_leads {base : Path} (tree : w.disk.IsTree) (hname : Path.IsName name)
    (hleads : Leads (w.disk.eraseAll [k ++ [name], k ++ [besideName name]]) w.cwd base k) :
    Layout w.disk w.cwd (sites (base.push name) k name) := by
  have hne := besideName_ne name
  have hnone : (w.disk.eraseAll [k ++ [name], k ++ [besideName name]]).NoLinks true k [] := by
    intro rest hrest hbefore
    exact absurd (List.prefix_nil.1 hbefore) hrest
  refine ⟨tree, ?_, fun site hsite => ?_⟩
  · simpa [sites] using ⟨Location.covers_sibling hne.symm, Location.covers_sibling hne⟩
  · simp only [sites, List.mem_cons, List.not_mem_nil, or_false] at hsite
    rcases hsite with rfl | rfl
    · exact ⟨base, k, [], name, hleads, by simp, hname, rfl, by simp, hnone⟩
    · exact ⟨base, k, [], besideName name, hleads, by simp, isName_besideName hname,
        stagingDirectory_push base hname, by simp, hnone⟩

/-- Nothing is in the way of a store in a directory of the root, whether that is there or not. -/
theorem canSave_of_root {root : String}
    (layout : Layout w.disk w.cwd (sites directory [root] name))
    (habove : w.disk.find? [root] = none ∨ w.disk.find? [root] = some .directory)
    (hroot : root.utf8ByteSize ≤ Path.nameLimit)
    (hname : (besideName name).utf8ByteSize ≤ Path.nameLimit) (hcheck : directory.check = .ok ())
    (hsize : directory.text.utf8ByteSize + 16 ≤ Path.sizeLimit) :
    CanSave directory [root] name w := by
  refine ⟨layout, ⟨fun top htop hne => ?_, by simpa using ⟨hroot, hname⟩⟩, check_staged hcheck hsize⟩
  have hcovers := (Location.covers_concat_iff.1 htop).resolve_left hne
  rcases (Location.covers_concat_iff (l := [])).1 hcovers with rfl | hnil
  · exact habove
  · rw [Location.covers_nil_iff.1 hnil]
    exact .inr (by simp)

/-- A save puts the store in its place. -/
theorem save_clear (s : Store) (h : CanSave s.directory k name w) :
    s.save.wp w (fun _ w' => w' = { w with disk := w.disk.saved k name s }) fun _ _ => False := by
  have hstaged : (stagingDirectory s.directory, k ++ [besideName name]) ∈
      sites s.directory k name := by simp [sites]
  unfold save
  simp only [Action.wp_bind, writeTable, Action.wp_within]
  refine (reset_clear h.staging).mono (fun _ w₁ h₁ => ?_) fun _ _ => id
  obtain ⟨rfl, hmaking⟩ := h₁
  refine hmaking.tabled (fun other hother => ?_) h.checks (writeRows s.classes.toList).toUTF8
    (writeRows s.sources.toList).toUTF8 (writeRows s.dependencies.sortedEdges).toUTF8 fun h₂ => ?_
  · simp only [tableNames, List.mem_cons, List.not_mem_nil, or_false, not_or] at hother
    simp [files, hother]
  · have layout₂ := h.layout.of_sameOutside hstaged h₂.tree h₂.outside
    have hreplace := replace_moves layout₂ h₂.holds h.staging.check
    simp only [Action.wp_bind] at hreplace
    exact hreplace.mono (fun _ _ h₃ => h₃.mono (fun _ _ => id) fun _ _ => id) fun _ _ => id

/-- After a save there is nothing but the tables. -/
theorem save_leaves_tables (s : Store) (h : CanSave s.directory k name w) {other : String}
    (hother : other ∉ tableNames) :
    s.save.wp w (fun _ w' => w'.disk.find? (k ++ [name] ++ [other]) = none) fun _ _ => False := by
  refine ((save_saves s h.layout).and (save_clear s h)).mono (fun _ w' h' => ?_) fun _ _ h' => h'.2
  simp only [tableNames, List.mem_cons, List.not_mem_nil, or_false, not_or] at hother
  exact h'.1.1.holds.none other (by simp [contents, files, hother])

/-! ## By places -/

/-- What a reset comes to. -/
def resetAt (l : Location) : Action Unit :=
  modify fun w => { w with disk := w.disk.emptied l }

/-- What a save comes to. -/
def saveAt (k : Location) (name : String) (s : Store) : Action Unit :=
  modify fun w => { w with disk := w.disk.saved k name s }

theorem on_reset (h : CanSave directory k name w) :
    (reset directory).on w = (resetAt (k ++ [name])).on w :=
  Action.on_of_wp ((reset_clear h.place).mono (fun _ _ h' => h'.1) fun _ _ => id)

theorem on_save (s : Store) (h : CanSave s.directory k name w) :
    s.save.on w = (saveAt k name s).on w := Action.on_of_wp (save_clear s h)

end Store

end Recompile
