import Recompile.Proofs.Directory.Clear
import Recompile.Proofs.Store.Key
import Recompile.Proofs.Store.Tables

/-!
# Saving a store

A store is written beside its directory and then moved there. If saving fails, only what is beside
the directory has changed, so that the old store is still there.
-/

namespace Recompile

namespace Store

open Disk

attribute [local irreducible] Action.wp

/-- The place beside a store where it is written first. -/
def besideName (name : String) : String := name ++ ".tmp"

theorem besideName_ne (name : String) : besideName name ≠ name := by
  intro h
  have := congrArg (fun s => s.toList.length) h
  simp [besideName] at this

theorem isName_besideName {name : String} (h : Path.IsName name) : Path.IsName (besideName name) :=
  isName_of_length (by simp [besideName]) (by simpa [besideName] using h.no_slash)

theorem stagingDirectory_toPath (k : Location) (name : String) :
    stagingDirectory (k ++ [name]).toPath = Location.toPath (k ++ [besideName name]) := by
  simp [stagingDirectory, Location.toPath, besideName, Text.unfields_concat_append,
    String.append_assoc]

theorem stagingDirectory_push (p : Path) {name : String} (hname : Path.IsName name) :
    stagingDirectory (p.push name) = p.push (besideName name) := by
  have hbeside := (isName_besideName hname).not_startsWith
  unfold Path.push
  rw [hname.not_startsWith, hbeside]
  split_ifs <;> simp_all [stagingDirectory, besideName, String.append_assoc]

/-- Where a store is and where it is staged. -/
def sites (directory : Path) (k : Location) (name : String) : List (Path × Location) :=
  [(directory, k ++ [name]), (stagingDirectory directory, k ++ [besideName name])]

variable {w : World} {k : Location} {name : String} {directory : Path}

section Sites

variable {rest : List (Path × Location)}

theorem mem_sites : (directory, k ++ [name]) ∈ sites directory k name ++ rest := by simp [sites]

theorem staging_mem_sites :
    (stagingDirectory directory, k ++ [besideName name]) ∈ sites directory k name ++ rest := by
  simp [sites]

theorem last_mem_sites {site : Path × Location} :
    site ∈ sites directory k name ++ [site] := by simp

theorem apart_of_layout {d : Disk} {cwd : Location} {site : Path × Location}
    (layout : Layout d cwd (sites directory k name ++ rest)) (h : site ∈ rest) :
    Location.Apart site.2 (k ++ [name]) := by
  have hpairwise := layout.apart
  rw [List.map_append, List.pairwise_append] at hpairwise
  exact (hpairwise.2.2 _ (by simp [sites]) _ (List.mem_map_of_mem h)).symm

end Sites

/-- The bytes of the tables of a store. -/
def contents (s : Store) : String → Option ByteArray :=
  files (writeRows s.classes.toList).toUTF8 (writeRows s.sources.toList).toUTF8
    (writeRows s.dependencies.sortedEdges).toUTF8

/-- Nothing outside of where a store is staged has changed. -/
def Aside (k : Location) (name : String) (w w' : World) : Prop :=
  w.Settled w' ∧ w'.disk.IsTree ∧
    ∀ m : Location, Location.covers (k ++ [besideName name]) m = false →
      w'.disk.find? m = w.disk.find? m

theorem aside_of_touched {w' : World} (tree : w.disk.IsTree)
    (hdir : w.disk.find? k = some .directory) (h : w.Touched (k ++ [besideName name]) w') :
    Aside k name w w' := 
  ⟨h.toSettled, h.tree, fun _ => h.outside.eq_of_directory tree hdir⟩

theorem layout_of_aside {w' : World} {sites : List (Path × Location)} {p : Path}
    (layout : Layout w.disk w.cwd sites) (hsite : (p, k ++ [besideName name]) ∈ sites)
    (h : Aside k name w w') : Layout w'.disk w'.cwd sites := by
  rw [h.1.cwd]
  exact layout.of_sameOutside hsite h.2.1 (.of_eq h.2.2)

/-- A path that is accepted with more text behind it is accepted without. -/
theorem check_directory (hopen : directory.IsOpen)
    (hcheck : (stagingDirectory directory).check = .ok ()) : directory.check = .ok () := by
  rw [Path.check_eq_ok_iff] at hcheck ⊢
  obtain ⟨hzero, -, hsize⟩ := hcheck
  simp only [stagingDirectory, String.toList_append, List.mem_append, not_or,
    String.utf8ByteSize_append] at hzero hsize
  exact ⟨hzero.1, hopen.ne_empty, by omega⟩

theorem isOpen_stagingDirectory (directory : Path) : (stagingDirectory directory).IsOpen := by
  have hlist : (stagingDirectory directory).text.toList.getLast? = some 'p' := by
    simp [stagingDirectory]
  refine ⟨by simp [stagingDirectory], ?_⟩
  rw [Bool.eq_false_iff, Ne, Text.endsWith_slash_iff]
  rintro ⟨rest, hrest⟩
  simp [hrest] at hlist

theorem check_table (hopen : directory.IsOpen) {table : String} (htable : Path.IsName table)
    (hcheck : ((stagingDirectory directory).push table).check = .ok ()) :
    (directory.push table).check = .ok () := by
  rw [Path.check_eq_ok_iff, (isOpen_stagingDirectory directory).text_push htable] at hcheck
  rw [Path.check_eq_ok_iff, hopen.text_push htable]
  obtain ⟨hzero, -, hsize⟩ := hcheck
  simp only [stagingDirectory, String.toList_append, List.mem_append, not_or,
    String.utf8ByteSize_append] at hzero hsize ⊢
  exact ⟨⟨⟨hzero.1.1.1, hzero.1.2⟩, hzero.2⟩, by simp, by omega⟩

/-- A path that is not too long is accepted with a table staged beside it. -/
theorem check_staged (hcheck : directory.check = .ok ())
    (hsize : directory.text.utf8ByteSize + 16 ≤ Path.sizeLimit) :
    ∀ table ∈ tableNames, ((stagingDirectory directory).push table).check = .ok () := by
  intro table htable
  have htables : ∀ table ∈ tableNames, '\x00' ∉ table.toList ∧ table.utf8ByteSize ≤ 11 := by decide
  have hsuffix : '\x00' ∉ ".tmp".toList ∧ ".tmp".utf8ByteSize = 4 := by decide
  obtain ⟨hzero, hshort⟩ := htables table htable
  have hstaging : (stagingDirectory directory).check = .ok () := by
    rw [Path.check_eq_ok_iff] at hcheck ⊢
    simp only [stagingDirectory, String.toList_append, List.mem_append, not_or,
      String.utf8ByteSize_append, hsuffix.2]
    exact ⟨⟨hcheck.1, hsuffix.1⟩, by simp, by omega⟩
  refine (isOpen_stagingDirectory directory).check_push (isName_tableNames htable) hzero hstaging ?_
  simp only [stagingDirectory, String.utf8ByteSize_append, hsuffix.2]
  omega

/-- The store is all there is at its place, nothing is beside it, and else only directories on the way
may be new. -/
structure Saved (k : Location) (name : String) (files : String → Option ByteArray) (w w' : World) :
    Prop extends World.Settled w w' where
  tree : w'.disk.IsTree
  holds : w'.disk.Holds (k ++ [name]) files
  gone : ∀ m : Location, Location.covers (k ++ [besideName name]) m = true →
    w'.disk.find? m = none
  outside : ∀ m : Location, Location.covers (k ++ [name]) m = false →
    Location.covers (k ++ [besideName name]) m = false → w'.disk.find? m = w.disk.find? m ∨
      m.covers (k ++ [besideName name]) = true ∧ w.disk.find? m = none ∧
        w'.disk.find? m = some .directory

/-- What is saved after directories on the way were made is saved. -/
theorem Saved.of_touched {files : String → Option ByteArray} {w₁ w₂ : World}
    (h : w.Touched (k ++ [besideName name]) w₁) (h' : Saved k name files w₁ w₂)
    (hdir : w₁.disk.find? k = some .directory) (htree : w₁.disk.IsTree) :
    Saved k name files w w₂ := by
  refine ⟨h.toSettled.trans h'.toSettled, h'.tree, h'.holds, h'.gone, fun m hm hm' => ?_⟩
  have hsame : w₂.disk.find? m = w₁.disk.find? m := by
    rcases h'.outside m hm hm' with hsame | ⟨hcovers, hnone, -⟩
    · exact hsame
    · have hsome := htree.isSome_of_covers hdir hcovers hm'
      rw [hnone] at hsome
      cases hsome
  rw [hsame]
  exact h.outside m hm'

section Replace

variable {files : String → Option ByteArray}

/-- A name beside which something is staged can be the name of a directory. -/
theorem isName_of_holds (layout : Layout w.disk w.cwd (sites directory k name))
    (hholds : w.disk.Holds (k ++ [besideName name]) files) :
    Path.IsName name ∧ name.utf8ByteSize ≤ Path.nameLimit := by
  have hsite : (directory, k ++ [name]) ∈ sites directory k name := by simp [sites]
  have hdir := layout.tree.parent _ _ _ hholds.directory
  have hlong := (layout.tree.isName _ _ _ hholds.directory).2
  simp only [besideName, String.utf8ByteSize_append] at hlong
  exact ⟨((layout.reaches_self hsite).exists_leads layout.tree rfl hdir).1, by omega⟩

/-- Putting what is staged in the place of the old store is a removal and a move. -/
theorem replace_moves (layout : Layout w.disk w.cwd (sites directory k name))
    (hholds : w.disk.Holds (k ++ [besideName name]) files)
    (hbeside : (stagingDirectory directory).check = .ok ()) :
    (do
      Directory.removeAny directory
      Action.change fun d cwd => d.rename cwd (stagingDirectory directory) directory).wp w
      (fun _ w' => w' = { w with
        disk := (w.disk.erase (k ++ [name])).move (k ++ [besideName name]) (k ++ [name]) })
      fun _ _ => False := by
  have tree := layout.tree
  have hne := besideName_ne name
  have hsite : (directory, k ++ [name]) ∈ sites directory k name := by simp [sites]
  have hstaged : (stagingDirectory directory, k ++ [besideName name]) ∈ sites directory k name := by
    simp [sites]
  have hreach := layout.reaches_self hsite
  have hcheck := check_directory hreach.isOpen hbeside
  obtain ⟨hname, hsize⟩ := isName_of_holds layout hholds
  rw [Action.wp_bind]
  have hremove := Directory.removeAny_clear tree (layout.reaches_erase hsite)
    (tree.isClear (tree.parent _ _ _ hholds.directory) hsize) hcheck
  refine hremove.mono (fun _ w₁ h => ?_) fun _ _ h => h
  subst h
  have htree := tree.erase (k ++ [name])
  have hlayout := layout.of_sameOutside hsite htree (sameOutside_erase _ _)
  have hgone : (w.disk.erase (k ++ [name])).find? (k ++ [name]) = none := by
    rw [find?_erase, if_pos]
    exact ⟨by simp, Location.covers_self _⟩
  have hsource : (w.disk.erase (k ++ [name])).find? (k ++ [besideName name]) = some .directory := by
    rw [find?_erase, if_neg, hholds.directory]
    simp [Location.covers_sibling hne.symm]
  have hrename := (hlayout.reaches_self hstaged).rename_eq_ok htree (hlayout.reaches_self hsite)
    hbeside hcheck hne hname hsize hsource hgone
  simp only [Action.wp_change, hrename]

/-- What is staged is then the store, and nothing else has changed. -/
theorem saved_of_move {w' : World} (layout : Layout w.disk w.cwd (sites directory k name))
    (hholds : w.disk.Holds (k ++ [besideName name]) files)
    (hmove : w' = { w with
      disk := (w.disk.erase (k ++ [name])).move (k ++ [besideName name]) (k ++ [name]) }) :
    Saved k name files w w' := by
  subst hmove
  have tree := layout.tree
  have hne := besideName_ne name
  have hst := Location.covers_sibling (l := k) hne
  have hts := Location.covers_sibling (l := k) hne.symm
  have hdir := tree.parent _ _ _ hholds.directory
  obtain ⟨hname, hsize⟩ := isName_of_holds layout hholds
  have hfind : ∀ m : Location, Location.covers (k ++ [name]) m = false →
      (w.disk.erase (k ++ [name])).find? m = w.disk.find? m := by
    intro m hm
    rw [find?_erase, if_neg]
    simp [hm]
  have hholds' := hholds.congr fun m hm => hfind m (Location.Apart.not_covers ⟨hst, hts⟩ hm)
  have hfindmove := @find?_move (w.disk.erase (k ++ [name])) (k ++ [besideName name]) (k ++ [name])
    (by simp) (by simp) hst hts
  refine ⟨⟨rfl, rfl⟩, (tree.erase _).move (by simp) hst hts ?_ hname hsize, hholds'.move hne,
    fun m hm => ?_, fun m hm hm' => .inl ?_⟩
  · rw [hfind _ (Location.not_covers_parent k name), hdir]
  · rw [hfindmove, if_pos hm]
  · rw [hfindmove, if_neg (by simp [hm']), if_neg (by simp [hm]), hfind m hm]

end Replace

/-- A store that is saved is the only thing at its place. If saving fails, only what is beside that
place has changed. -/
theorem save_saves (s : Store) (layout : Layout w.disk w.cwd (sites s.directory k name)) :
    s.save.wp w
      (fun _ w' => Saved k name s.contents w w' ∧
        ∀ table ∈ tableNames, (s.directory.push table).check = .ok ())
      fun _ w' => w.Touched (k ++ [besideName name]) w' := by
  have hstaged : (stagingDirectory s.directory, k ++ [besideName name]) ∈
      sites s.directory k name := by simp [sites]
  have hsite : (s.directory, k ++ [name]) ∈ sites s.directory k name := by simp [sites]
  have hopen := (layout.reaches_self hsite).isOpen
  have hreset := reset_reached layout.tree (layout.reaches_erase hstaged)
  unfold save
  simp only [Action.wp_bind, writeTable, Action.wp_within]
  refine hreset.mono (fun _ w₁ h₁ => ?_) fun _ w' h => h.1
  have hmade := h₁.1
  have hbeside : (stagingDirectory s.directory).check = .ok () :=
    ((isAt_iff hmade.tree hmade.reaches (unlinked_of_holds hmade.holds)).1 h₁.2).1
  refine hmade.writeTables (writeRows s.classes.toList).toUTF8 (writeRows s.sources.toList).toUTF8
    (writeRows s.dependencies.sortedEdges).toUTF8 (fun w₂ h₂ hchecks => ?_) (fun other hother => ?_)
    fun _ w' files' h' _ => h'.toTouched
  · have htouched := h₂.toTouched
    have layout₂ : Layout w₂.disk w₂.cwd (sites s.directory k name) := by
      rw [h₂.cwd]
      exact layout.of_sameOutside hstaged h₂.tree h₂.outside
    have hreplace := replace_moves layout₂ h₂.holds hbeside
    simp only [Action.wp_bind] at hreplace
    refine hreplace.mono (fun _ w₃ h₃ => h₃.mono (fun _ w₄ h₄ => ?_) fun _ _ => False.elim)
      fun _ _ => False.elim
    have hsaved := saved_of_move layout₂ h₂.holds h₄
    have hdir := h₂.tree.parent _ _ _ h₂.holds.directory
    exact ⟨hsaved.of_touched htouched hdir h₂.tree, fun table htable =>
      check_table hopen (isName_tableNames htable) (hchecks table htable)⟩
  · simp only [tableNames, List.mem_cons, List.not_mem_nil, or_false, not_or] at hother
    simp [files, hother]

/-- After it was saved, the path of a store leads to it. -/
theorem reaches_of_saved {files : String → Option ByteArray} {w' : World}
    (layout : Layout w.disk w.cwd (sites directory k name)) (h : Saved k name files w w') :
    w'.disk.Reaches w'.cwd directory (k ++ [name]) := by
  have hsite : (directory, k ++ [name]) ∈ sites directory k name := by simp [sites]
  rw [h.cwd]
  refine (layout.of_same h.tree fun m hm => ?_).reaches_self hsite
  have hoff := h.outside m (hm _ (by simp [sites])) (hm _ (by simp [sites]))
  exact hoff.imp id And.right

/-- A store that is saved where one is already is the only thing there, and nothing else has
changed. If saving fails, the old one has not been touched. -/
theorem save_reached (s : Store) (layout : Layout w.disk w.cwd (sites s.directory k name))
    (hthere : w.disk.find? (k ++ [name]) = some .directory) :
    s.save.wp w
      (fun _ w' => w.Settled w' ∧ w'.disk.IsTree ∧ w'.disk.Holds (k ++ [name]) s.contents ∧
        (∀ m : Location, Location.covers (k ++ [besideName name]) m = true →
          w'.disk.find? m = none) ∧
        ∀ m : Location, Location.covers (k ++ [name]) m = false →
          Location.covers (k ++ [besideName name]) m = false → w'.disk.find? m = w.disk.find? m)
      fun _ w' => Aside k name w w' := by
  have tree := layout.tree
  have hdir := tree.parent _ _ _ hthere
  refine (save_saves s layout).mono (fun _ w' h => ?_) fun _ w' h => aside_of_touched tree hdir h
  obtain ⟨⟨hsettled, htree, hholds, hgone, houtside⟩, -⟩ := h
  refine ⟨hsettled, htree, hholds, hgone, fun m hm hm' => ?_⟩
  rcases houtside m hm hm' with hsame | ⟨hcovers, hnone, -⟩
  · exact hsame
  · have hsome := tree.isSome_of_covers hdir hcovers hm'
    rw [hnone] at hsome
    cases hsome

end Store

end Recompile
