import Recompile.Proofs.Store.Rows
import Recompile.Proofs.Store.Save

/-!
# Stores that are loaded as they were saved

Loading reads the three tables and changes nothing. A store that was saved at a path that reaches its
place is loaded again with the same tables and the same edges exactly if all its rows are read back.
A path that goes through the place where the store is staged does not lead anywhere afterwards.
-/

namespace Recompile

namespace Store

open Disk

attribute [local irreducible] Action.wp

variable {w : World} {k : Location} {name : String} {directory : Path}

section Load

variable {classes sources dependencies : String}

/-- The rows of a text, or the failure that loading it as a table ends with. -/
def rowsOf (table : Path) (cut : Cut) (text : String) : Except Failure (List (String × String)) :=
  (readRows cut text).mapError fun line => Cause.malformedLine table line

theorem rowsOf_eq_ok_iff {table : Path} {cut : Cut} {text : String}
    {rows : List (String × String)} :
    rowsOf table cut text = .ok rows ↔ readRows cut text = .ok rows := by
  unfold rowsOf
  cases readRows cut text <;> simp [Except.mapError]

theorem on_readTable {table : Path} {text : String} (cut : Cut)
    (hread : w.disk.readFile w.cwd table = .ok text.toUTF8) :
    (readTable table cut).on w = (rowsOf table cut text, w) := by
  have htext : (Action.within (.readingTable table) (Action.readText table)).on w = (.ok text, w) := by
    have hspec : (Action.within (.readingTable table) (Action.readText table)).wp w
        (fun answer w' => answer = text ∧ w' = w) fun _ _ => False := by
      simp only [Action.readText, Action.readBytes, Action.wp_within, Action.wp_bind,
        Action.wp_query, hread, Text.decode_toUTF8]
      exact (Action.wp_pure _).2 ⟨rfl, rfl⟩
    rcases hon : (Action.within (.readingTable table) (Action.readText table)).on w with
      ⟨f | answer, w'⟩
    · exact (hspec.of_error hon).elim
    · obtain ⟨rfl, rfl⟩ := hspec.of_ok hon
      rfl
  rw [readTable, Action.on_bind, htext]
  unfold rowsOf
  dsimp only
  cases readRows cut text <;> rfl

/-- Loading three tables that can be read. -/
theorem on_load (hclasses : w.disk.readFile w.cwd (classesTable directory) = .ok classes.toUTF8)
    (hsources : w.disk.readFile w.cwd (sourcesTable directory) = .ok sources.toUTF8)
    (hdependencies :
      w.disk.readFile w.cwd (dependenciesTable directory) = .ok dependencies.toUTF8) :
    (load directory).on w = ((do
      let classes ← rowsOf (classesTable directory) .first classes
      let sources ← rowsOf (sourcesTable directory) .last sources
      let edges ← rowsOf (dependenciesTable directory) .first dependencies
      return ⟨directory, ofRows sources, ofRows classes, Graph.ofEdges edges⟩), w) := by
  rw [load, Action.on_bind, on_readTable .first hclasses]
  cases rowsOf (classesTable directory) .first classes with
  | error f => rfl
  | ok rows =>
    dsimp only
    rw [Action.on_bind, on_readTable .last hsources]
    cases rowsOf (sourcesTable directory) .last sources with
    | error f => rfl
    | ok rows' =>
      dsimp only
      rw [Action.on_bind, on_readTable .first hdependencies]
      cases rowsOf (dependenciesTable directory) .first dependencies <;> rfl

theorem on_load_eq_ok_iff {s : Store} {w' : World}
    (hclasses : w.disk.readFile w.cwd (classesTable directory) = .ok classes.toUTF8)
    (hsources : w.disk.readFile w.cwd (sourcesTable directory) = .ok sources.toUTF8)
    (hdependencies :
      w.disk.readFile w.cwd (dependenciesTable directory) = .ok dependencies.toUTF8) :
    (load directory).on w = (.ok s, w') ↔ w' = w ∧ ∃ cs ss es, readRows .first classes = .ok cs ∧
      readRows .last sources = .ok ss ∧ readRows .first dependencies = .ok es ∧
        s = ⟨directory, ofRows ss, ofRows cs, Graph.ofEdges es⟩ := by
  rw [on_load hclasses hsources hdependencies, Prod.mk.injEq, and_comm, eq_comm (a := w)]
  simp only [Except.bind_eq_ok_iff, rowsOf_eq_ok_iff, pure, Except.pure, Except.ok.injEq]
  refine and_congr_right fun _ => ⟨?_, ?_⟩
  · rintro ⟨cs, hcs, ss, hss, es, hes, rfl⟩
    exact ⟨cs, ss, es, hcs, hss, hes, rfl⟩
  · rintro ⟨cs, ss, es, hcs, hss, hes, rfl⟩
    exact ⟨cs, hcs, ss, hss, es, hes, rfl⟩

/-- Tables that were written from rows are read back as these rows. -/
theorem on_load_of_written {cs ss es : List (String × String)}
    (hclasses : w.disk.readFile w.cwd (classesTable directory) = .ok (writeRows cs).toUTF8)
    (hsources : w.disk.readFile w.cwd (sourcesTable directory) = .ok (writeRows ss).toUTF8)
    (hedges : w.disk.readFile w.cwd (dependenciesTable directory) = .ok (writeRows es).toUTF8)
    (hback : (∀ row ∈ cs, ReadsBack .first row) ∧ (∀ row ∈ ss, ReadsBack .last row) ∧
      ∀ row ∈ es, ReadsBack .first row) :
    (load directory).on w = (.ok ⟨directory, ofRows ss, ofRows cs, Graph.ofEdges es⟩, w) := by
  rw [on_load_eq_ok_iff hclasses hsources hedges]
  exact ⟨rfl, cs, ss, es, readRows_of_readsBack hback.1, readRows_of_readsBack hback.2.1,
    readRows_of_readsBack hback.2.2, rfl⟩

/-- A store whose tables are empty is one in which nothing is recorded. -/
theorem on_load_of_empty {l : Location} (tree : w.disk.IsTree)
    (hreach : w.disk.Reaches w.cwd directory l)
    (hchecks : ∀ table ∈ tableNames, (directory.push table).check = .ok ())
    (hempty : ∀ table ∈ tableNames, ∃ runnable,
      w.disk.find? (l ++ [table]) = some (.file .empty runnable)) :
    (load directory).on w = (.ok (new directory), w) := by
  have hread (table : String) (htable : table ∈ tableNames) :
      w.disk.readFile w.cwd (directory.push table) = .ok "".toUTF8 := by
    obtain ⟨runnable, hfind⟩ := hempty table htable
    have hlink : ∀ target, w.disk.find? l ≠ some (.link target) := by
      simp [tree.parent _ _ _ hfind]
    refine ((hreach.push (isName_tableNames htable) hlink).readFile_eq_ok_iff tree ?_).2
      ⟨hchecks table htable, runnable, hfind⟩
    simp [hfind]
  rw [on_load_eq_ok_iff (hread "classes.txt" (by simp [tableNames]))
    (hread "sources.txt" (by simp [tableNames])) (hread "deps.txt" (by simp [tableNames]))]
  exact ⟨rfl, [], [], [], rfl, rfl, rfl, rfl⟩

end Load

/-- The same tables and the same set of edges. -/
structure Agrees (s s' : Store) : Prop where
  sources : s'.sources = s.sources
  classes : s'.classes = s.classes
  edges : ∀ e, e ∈ s'.dependencies.edges ↔ e ∈ s.dependencies.edges

/-- Each row of the store is read back as it is written. -/
structure IsReadable (s : Store) : Prop where
  classes : ∀ row ∈ s.classes.toList, ReadsBack .first row
  sources : ∀ row ∈ s.sources.toList, ReadsBack .last row
  edges : ∀ e ∈ s.dependencies.edges, ReadsBack .first e

instance (s : Store) : Decidable s.IsReadable :=
  decidable_of_iff ((∀ row ∈ s.classes.toList, ReadsBack .first row) ∧
      (∀ row ∈ s.sources.toList, ReadsBack .last row) ∧
        ∀ e ∈ s.dependencies.edges, ReadsBack .first e)
    ⟨fun h => ⟨h.1, h.2.1, h.2.2⟩, fun h => ⟨h.1, h.2, h.3⟩⟩

/-- A store whose tables can be read is loaded as it was, if its rows are read back. -/
theorem IsReadable.exists_load {s : Store} (h : s.IsReadable)
    (hread : ∀ table ∈ tableNames, ∀ bytes, s.contents table = some bytes →
      w.disk.readFile w.cwd (directory.push table) = .ok bytes) :
    ∃ s', (load directory).on w = (.ok s', w) ∧ s.Agrees s' := by
  obtain ⟨cs, hcs, hcs'⟩ := (exists_ofRows_iff s.classes).2 h.classes
  obtain ⟨ss, hss, hss'⟩ := (exists_ofRows_iff s.sources).2 h.sources
  obtain ⟨es, hes, hes'⟩ := (exists_ofEdges_iff s.dependencies).2 h.edges
  exact ⟨_, (on_load_eq_ok_iff (hread "classes.txt" (by simp [tableNames]) _ rfl)
    (hread "sources.txt" (by simp [tableNames]) _ rfl)
    (hread "deps.txt" (by simp [tableNames]) _ rfl)).2 ⟨rfl, cs, ss, es, hcs, hss, hes, rfl⟩,
    hss', hcs', hes'⟩

/-- The tables of a saved store can be read. -/
theorem readFile_of_holds {s : Store} {l : Location} (tree : w.disk.IsTree)
    (hreach : w.disk.Reaches w.cwd directory l) (hholds : w.disk.Holds l s.contents)
    (hchecks : ∀ table ∈ tableNames, (directory.push table).check = .ok ()) {table : String}
    {bytes : ByteArray} (htable : table ∈ tableNames) (hbytes : s.contents table = some bytes) :
    w.disk.readFile w.cwd (directory.push table) = .ok bytes := by
  obtain ⟨runnable, hfind⟩ := hholds.file table bytes hbytes
  have hpush := hholds.reaches_push hreach (isName_tableNames htable)
  exact (hpush.readFile_eq_ok_iff tree (hholds.not_link table)).2 ⟨hchecks table htable, runnable, hfind⟩

/-- Loading a store that is on disk reads back the rows that were written. -/
theorem on_load_of_holds {s s' : Store} {l : Location} {w' : World} (tree : w.disk.IsTree)
    (hreach : w.disk.Reaches w.cwd directory l) (hholds : w.disk.Holds l s.contents)
    (hchecks : ∀ table ∈ tableNames, (directory.push table).check = .ok ()) :
    (load directory).on w = (.ok s', w') ↔ w' = w ∧ ∃ cs ss es,
      readRows .first (writeRows s.classes.toList) = .ok cs ∧
      readRows .last (writeRows s.sources.toList) = .ok ss ∧
      readRows .first (writeRows s.dependencies.sortedEdges) = .ok es ∧
        s' = ⟨directory, ofRows ss, ofRows cs, Graph.ofEdges es⟩ := by
  have hread {table : String} {bytes : ByteArray} (htable : table ∈ tableNames)
      (hbytes : s.contents table = some bytes) :=
    readFile_of_holds tree hreach hholds hchecks htable hbytes
  exact on_load_eq_ok_iff (hread (by simp [tableNames]) (by simp [contents, files]))
    (hread (by simp [tableNames]) (by simp [contents, files]))
    (hread (by simp [tableNames]) (by simp [contents, files]))

/-- A store that is on disk is loaded as it was exactly if its rows are read back. -/
theorem exists_load_iff_of_holds {s : Store} {l : Location} (tree : w.disk.IsTree)
    (hreach : w.disk.Reaches w.cwd directory l) (hholds : w.disk.Holds l s.contents)
    (hchecks : ∀ table ∈ tableNames, (directory.push table).check = .ok ()) :
    (∃ s' w', (load directory).on w = (.ok s', w') ∧ s.Agrees s') ↔ s.IsReadable := by
  constructor
  · simp only [on_load_of_holds tree hreach hholds hchecks]
    rintro ⟨_, _, ⟨-, cs, ss, es, hcs, hss, hes, rfl⟩, hsame⟩
    exact ⟨(exists_ofRows_iff s.classes).1 ⟨cs, hcs, hsame.classes⟩,
      (exists_ofRows_iff s.sources).1 ⟨ss, hss, hsame.sources⟩,
      (exists_ofEdges_iff s.dependencies).1 ⟨es, hes, hsame.edges⟩⟩
  · intro h
    obtain ⟨s', hload, hsame⟩ := h.exists_load fun _ htable _ hbytes =>
      readFile_of_holds tree hreach hholds hchecks htable hbytes
    exact ⟨s', w, hload, hsame⟩

/-- A saved store is loaded again as it was exactly if no key and no value of its tables has a line
feed, no value ends in a carriage return, and no class, dependency or digest has an arrow. -/
theorem exists_load_iff_of_save (s : Store) {w' : World}
    (layout : Layout w.disk w.cwd (sites s.directory k name))
    (hsave : s.save.on w = (.ok (), w')) :
    (∃ s' w'', (load s.directory).on w' = (.ok s', w'') ∧ s.Agrees s') ↔ s.IsReadable := by
  obtain ⟨hsaved, hchecks⟩ := (save_saves s layout).of_ok hsave
  have hreach := reaches_of_saved layout hsaved
  exact exists_load_iff_of_holds hsaved.tree hreach hsaved.holds hchecks

/-- The world with an empty disk. -/
def nothing : World := .start .empty [] ∅

theorem nothing_layout : Layout nothing.disk nothing.cwd (sites ⟨"/m"⟩ [] "m") := by
  have htree : Disk.empty.IsTree := isTree_of_isWellFormed (by decide)
  have hproper : ∀ x ∈ [(([] : Location), "m"), ([], "m.tmp")],
      Location.IsProper (x.1 ++ [x.2]) := by decide
  exact layout_toPath htree hproper (fun _ _ top _ => find?_ne_link (by decide) top) (by decide)

/-- A store with arrows in the paths of its sources and an empty name of a class. -/
def arrows : Store where
  directory := ⟨"/m"⟩
  sources := {("/a->b.java", "00")}
  classes := {("A-", "/a->b.java"), ("", "/a->b.java")}
  dependencies := Graph.ofEdges [("A-", ">B"), ("", "A-")]

theorem exists_load_iff_of_save_arrows :
    ∃ w', arrows.save.on nothing = (.ok (), w') ∧
      ∃ s' w'', (load arrows.directory).on w' = (.ok s', w'') ∧ arrows.Agrees s' := by
  have hsaved : ((arrows.save.on nothing).1 matches .ok _) = true := by decide +kernel
  rcases hsave : arrows.save.on nothing with ⟨f | _, w'⟩
  · rw [hsave] at hsaved
    cases hsaved
  · exact ⟨w', rfl, (exists_load_iff_of_save arrows nothing_layout hsave).2 (by decide)⟩

/-- A disk with something left where a store is staged: the one table is a link to the other. -/
def linkedTables : World :=
  .start ⟨[(["m.tmp"], .directory), (["m.tmp", "classes.txt"], .link ⟨"sources.txt"⟩)], by decide⟩
    [] ∅

/-- A store whose path goes up from a directory that is missing. -/
def throughMissing : Store := { new ⟨"x/../m"⟩ with classes := {("A", "/A.java")} }

/-- Loading does not bring back what was saved, if the path goes through the place where the store is
staged, or up from a directory that is made on the way to what is left there. -/
theorem not_load_of_save_aside :
    (∃ w', (new ⟨"m.tmp/../m"⟩).save.on nothing = (.ok (), w') ∧
      (new ⟨"m.tmp/../m"⟩).IsReadable ∧
        ¬∃ s' w'', (load ⟨"m.tmp/../m"⟩).on w' = (.ok s', w'')) ∧
      ∃ w', throughMissing.save.on linkedTables = (.ok (), w') ∧ throughMissing.IsReadable ∧
        ∃ s' w'', (load ⟨"x/../m"⟩).on w' = (.ok s', w'') ∧ ¬throughMissing.Agrees s' := by
  constructor
  · have hsaved : (((new ⟨"m.tmp/../m"⟩).save.on nothing).1 matches .ok _) = true := by
      decide +kernel
    have hloaded : ((load ⟨"m.tmp/../m"⟩).on ((new ⟨"m.tmp/../m"⟩).save.on nothing).2).1
        matches .error _ := by decide +kernel
    rcases hsave : (new ⟨"m.tmp/../m"⟩).save.on nothing with ⟨f | _, w'⟩
    · rw [hsave] at hsaved
      cases hsaved
    · refine ⟨w', rfl, by decide, ?_⟩
      rintro ⟨s', w'', hload⟩
      rw [hsave, hload] at hloaded
      cases hloaded
  · have hsaved : ((throughMissing.save.on linkedTables).1 matches .ok _) = true := by
      decide +kernel
    have hloaded : (match ((load ⟨"x/../m"⟩).on (throughMissing.save.on linkedTables).2).1 with
        | .ok s => s.classes.isEmpty
        | .error _ => false) = true := by decide +kernel
    have hclass : throughMissing.classes.isEmpty = false := by decide
    rcases hsave : throughMissing.save.on linkedTables with ⟨f | _, w'⟩
    · rw [hsave] at hsaved
      cases hsaved
    · rcases hload : (load ⟨"x/../m"⟩).on w' with ⟨f | s', w''⟩
      · rw [hsave, hload] at hloaded
        cases hloaded
      · refine ⟨w', rfl, by decide, s', w'', hload, fun hagrees => ?_⟩
        rw [hsave, hload] at hloaded
        rw [← hagrees.classes] at hclass
        simp [hclass] at hloaded

end Store

end Recompile
