import Recompile.Proofs.Build.Drift
import Recompile.Proofs.Build.Survey
import Recompile.Proofs.Directory.Copy
import Recompile.Proofs.Directory.Emptied
import Recompile.Proofs.Directory.Search

/-!
# The sources of a tree

The sources that a build finds are the files below the tree whose last name has the extension of
sources. So a build finds the same sources again, and reads them as before, if the path of the tree
leads to the same directory and the same files stand at such places. Where class files come and go
and directories are new, this is so.
-/

namespace Recompile

namespace Disk

variable {d : Disk} {cwd s : Location} {p : Path}

/-- A path that leads to a directory opens it, even if a slash ends it. -/
theorem Leads.resolve_self (h : Leads d cwd p s) :
    d.resolve cwd true p = (do
      p.check
      return s) := by
  unfold Disk.resolve
  cases hcheck : p.check with
  | error fault => rfl
  | ok u =>
    have hwalk : d.walk true Path.linkLimit (p.start cwd) p.parts = .ok s := by
      rcases p.parts_eq_trunk_or with hparts | hparts
      · rw [hparts, h.walk]
      · obtain ⟨left, -, hwalk⟩ := Disk.walk_append _ _ _ h.walk
        rw [hparts, hwalk true [""] (by simp)]
        cases left <;> exact walkUntilLink_skip h.directory (.inl rfl)
    rw [hwalk]
    rfl

theorem Leads.readDirectory_eq (h : Leads d cwd p s) :
    d.readDirectory cwd p = (do
      p.check
      return d.children s) := by
  unfold readDirectory
  rw [h.resolve_self]
  cases p.check with
  | error fault => rfl
  | ok u => simp [bind, Except.bind, pure, Except.pure, checkDirectory_eq_ok_iff.2 h.directory]

theorem Leads.reaches_of_find? {e : Entry} {names : List String} (tree : d.IsTree)
    (h : Leads d cwd p s) (hne : names ≠ []) (hfind : d.find? (s ++ names) = some e) :
    d.Reaches cwd (names.foldl Path.push p) (s ++ names) := by
  obtain ⟨name, rest, rfl⟩ := List.exists_cons_of_ne_nil hne
  have hsplit : s ++ name :: rest = s ++ [name] ++ rest := by simp
  have hreach : d.Reaches cwd (p.push name) (s ++ [name]) :=
    h.reaches_push (tree.isName_of_mem hfind List.mem_cons_self)
  rw [hsplit] at hfind ⊢
  exact hreach.foldl_push_of_find? tree hfind

end Disk

namespace Directory

open Disk

variable {d d' : Disk} {cwd cwd' s l m : Location} {directory file : Path} {extension : String}

theorem lists_of_leads (tree : d.IsTree) (h : Leads d cwd directory s) : Lists d cwd s directory := by
  intro p hdir
  by_cases hnil : p = []
  · subst hnil
    rw [List.append_nil]
    exact h.readDirectory_eq
  · exact (h.reaches_of_find? tree hnil hdir).readDirectory_eq tree hdir

/-- A place whose last name has the extension of sources. -/
def IsSourcePlace (m : Location) : Prop :=
  ∃ k name, m = k ++ [name] ∧ (Path.splitExtension name).2 = some "java"

theorem IsSourcePlace.not_class (h : IsSourcePlace m) : ¬IsClassPlace m := by
  obtain ⟨k, name, rfl, hname⟩ := h
  rintro ⟨k', name', heq, hname'⟩
  obtain ⟨-, hlast⟩ := List.append_inj' heq rfl
  rw [← List.singleton_inj.1 hlast] at hname'
  exact Path.not_hasExtension_class_of_java (Path.hasExtension_of_splitExtension hname) hname'

/-- The sources that are found are the files at such places. -/
theorem finds_source_iff (tree : d.IsTree) :
    Finds d s directory "java" [] file ↔ ∃ names bytes, names ≠ [] ∧
      file = names.foldl Path.push directory ∧ d.fileAt (s ++ names) = some bytes ∧
        IsSourcePlace (s ++ names) := by
  have hlast (names : List String) (hne : names ≠ []) {e : Entry}
      (hfind : d.find? (s ++ names) = some e) :
      (names.foldl Path.push directory).extension = some "java" ↔ IsSourcePlace (s ++ names) := by
    obtain ⟨init, last, rfl⟩ := List.eq_nil_or_concat names |>.resolve_left hne
    rw [List.concat_eq_append] at hfind ⊢
    rw [← List.append_assoc] at hfind
    rw [List.foldl_append, List.foldl_cons, List.foldl_nil,
      Path.extension_push (tree.isName _ _ _ hfind).1]
    constructor
    · exact fun h => ⟨s ++ init, last, by simp, h⟩
    · rintro ⟨k, name, heq, hname⟩
      rw [← List.append_assoc] at heq
      obtain ⟨-, hsame⟩ := List.append_inj' heq rfl
      rw [List.singleton_inj.1 hsame]
      exact hname
  constructor
  · rintro ⟨names, bytes, runnable, hne, hfind, hfile, hextension⟩
    rw [List.nil_append] at hfind hfile
    exact ⟨names, bytes, hne, hfile, fileAt_eq_some_iff.2 ⟨runnable, hfind⟩,
      (hlast names hne hfind).1 (hfile ▸ hextension)⟩
  · rintro ⟨names, bytes, hne, rfl, hat, hplace⟩
    obtain ⟨runnable, hfind⟩ := fileAt_eq_some_iff.1 hat
    exact ⟨names, bytes, runnable, hne, hfind, rfl, (hlast names hne hfind).2 hplace⟩

/-- At the places of sources below `l` the same files stand. -/
def SameSources (l : Location) (d d' : Disk) : Prop :=
  ∀ m : Location, l.covers m = true → IsSourcePlace m → d'.fileAt m = d.fileAt m

namespace SameSources

theorem trans {d'' : Disk} (h : SameSources l d d') (h' : SameSources l d' d'') :
    SameSources l d d'' := fun m hm hplace => (h' m hm hplace).trans (h m hm hplace)

theorem finds_iff (h : SameSources l d d') (tree : d.IsTree) (tree' : d'.IsTree) :
    Finds d' l directory "java" [] file ↔ Finds d l directory "java" [] file := by
  rw [finds_source_iff tree, finds_source_iff tree']
  refine exists_congr fun names => exists_congr fun bytes => and_congr_right fun _ =>
    and_congr_right fun _ => and_congr_left fun hplace => ?_
  rw [h _ (Location.covers_append l names) hplace]

/-- A source that is found is read as before. -/
theorem readFile (h : SameSources l d d') (tree : d.IsTree) (tree' : d'.IsTree)
    (hleads : Leads d cwd directory l) (hleads' : Leads d' cwd' directory l)
    (hfinds : Finds d l directory "java" [] file) {bytes : ByteArray}
    (hread : d.readFile cwd file = .ok bytes) : d'.readFile cwd' file = .ok bytes := by
  obtain ⟨names, bytes', hne, rfl, hat, hplace⟩ := (finds_source_iff tree).1 hfinds
  have hat' := (h _ (Location.covers_append l names) hplace).trans hat
  obtain ⟨runnable, hfind⟩ := fileAt_eq_some_iff.1 hat
  obtain ⟨runnable', hfind'⟩ := fileAt_eq_some_iff.1 hat'
  have hreach := hleads.reaches_of_find? tree hne hfind
  have hreach' := hleads'.reaches_of_find? tree' hne hfind'
  rw [hreach.readFile_eq_ok_iff tree (by simp [hfind]), hfind] at hread
  obtain ⟨hcheck, runnable₁, hentry⟩ := hread
  rw [hreach'.readFile_eq_ok_iff tree' (by simp [hfind'])]
  cases hentry
  exact ⟨hcheck, runnable', hfind'⟩

end SameSources

/-- A place of no class file that has drifted holds the same file. -/
theorem fileAt_of_drifts {free : Location → Prop} (h : Drifts free m d d') (hfree : ¬free m) :
    d'.fileAt m = d.fileAt m := by
  unfold fileAt
  rcases h with hsame | ⟨hnone, hdir⟩ | ⟨hfree', -⟩
  · rw [hsame]
  · rw [hnone, hdir]
  · exact absurd hfree' hfree

end Directory

namespace World

open Disk Directory

variable {free : Location → Prop} {places : List Location} {w w' : World} {l : Location} {p : Path}

/-- A path that goes through none of the places leads where it led. -/
theorem Drifted.leads (h : w.Drifted free places w')
    (hleads : Leads (w.disk.eraseAll places) w.cwd p l) : Leads w'.disk w'.cwd p l := by
  rw [h.cwd]
  refine hleads.of_ways fun m e hfind hfile => ?_
  rw [find?_eraseAll] at hfind
  split_ifs at hfind with hcond
  by_cases hnil : m = []
  · subst hnil
    simpa using hfind
  refine (h.outside m fun k hk => ?_).eq_of_not_isFile hfind hfile
  rw [Bool.eq_false_iff]
  exact fun hcovers => hcond ⟨hnil, k, hk, hcovers⟩

/-- The sources are the same if they are at the places. -/
theorem Drifted.sameSources (h : w.Drifted IsClassPlace places w')
    (hplaces : ∀ k ∈ places, ∀ m : Location, k.covers m = true → l.covers m = true →
      IsSourcePlace m → w'.disk.fileAt m = w.disk.fileAt m) :
    SameSources l w.disk w'.disk := by
  intro m hm hplace
  by_cases hout : ∀ k ∈ places, k.covers m = false
  · exact fileAt_of_drifts (h.outside m hout) hplace.not_class
  · push Not at hout
    obtain ⟨k, hk, hcovers⟩ := hout
    exact hplaces k hk m (by simpa using hcovers) hm hplace

end World

namespace Build

open Directory Disk World

attribute [local irreducible] Action.wp

variable {w w' : World} {output sourceTree : Path} {l : Location} {t t' : Target}

theorem absolute_again (p : Path) (hdir : w.disk.find? w.cwd = some .directory) :
    (Action.absolute p).wp w (fun q w' => w' = w ∧ q = p.absolute w.cwd) fun _ _ => False := by
  unfold Action.absolute
  simp only [Action.wp_bind, Action.wp_get]
  split_ifs
  · rw [Action.wp_bind, Action.wp_query, checkDirectory_eq_ok_iff.2 hdir]
    exact (Action.wp_pure _).2 ⟨rfl, rfl⟩
  · exact (Action.wp_pure _).2 ⟨rfl, rfl⟩

/-- What is to be built, and what has the sources of it. -/
structure Located (output sourceTree : Path) (l : Location) (w : World) (t : Target) : Prop where
  output_eq : t.output = output.absolute w.cwd
  tree_eq : t.sourceTree = sourceTree.absolute w.cwd
  nameable : Nameable w.disk l (sourceTree.absolute w.cwd) []
  mem : ∀ source, source ∈ t.sources ↔
    ∃ file : Path, Finds w.disk l (sourceTree.absolute w.cwd) "java" [] file ∧ file.text = source

theorem located_of_files {files : List Path} {q r : Path} (houtput : q = output.absolute w.cwd)
    (htree : r = sourceTree.absolute w.cwd)
    (hnameable : Nameable w.disk l (sourceTree.absolute w.cwd) [])
    (hfiles : ∀ file, file ∈ files ↔ Finds w.disk l (sourceTree.absolute w.cwd) "java" [] file) :
    Located output sourceTree l w ⟨q, r, .ofList (files.map Path.text)⟩ := by
  refine ⟨houtput, htree, hnameable, fun source => ?_⟩
  simp only [Std.ExtTreeSet.mem_ofList, List.contains_iff_mem, List.mem_map, hfiles]

/-- If the path of the source tree leads to a directory, locating finds what is below it. -/
theorem located_of_locate (tree : w.disk.IsTree)
    (hleads : Leads w.disk w.cwd (sourceTree.absolute w.cwd) l)
    (hlocate : (locate output sourceTree).on w = (.ok t, w')) : Located output sourceTree l w t := by
  have hspec : (locate output sourceTree).wp w (fun t _ => Located output sourceTree l w t)
      fun _ _ => True := by
    unfold locate findSources
    simp only [Action.wp_bind, Action.wp_within, Action.wp_pure]
    refine (absolute_reads output).mono (fun q w₁ h₁ => ?_) fun _ _ _ => trivial
    obtain ⟨rfl, hq⟩ := h₁
    refine (absolute_reads sourceTree).mono (fun r w₂ h₂ => ?_) fun _ _ _ => trivial
    obtain ⟨rfl, rfl⟩ := h₂
    refine (findFiles_lists tree (lists_of_leads tree hleads) hleads.directory).mono
      (fun files w₃ h₃ => ?_) fun _ _ _ => trivial
    exact located_of_files hq rfl h₃.2.1 h₃.2.2
  exact hspec.of_ok hlocate

theorem Located.unique (h : Located output sourceTree l w t)
    (h' : Located output sourceTree l w' t') (hcwd : w'.cwd = w.cwd)
    (hfinds : ∀ file, Finds w'.disk l (sourceTree.absolute w.cwd) "java" [] file ↔
      Finds w.disk l (sourceTree.absolute w.cwd) "java" [] file) : t' = t := by
  have hsources : t'.sources = t.sources := by
    ext source
    rw [h.mem, h'.mem, hcwd]
    simp only [hfinds]
  have houtput : t'.output = t.output := by rw [h.output_eq, h'.output_eq, hcwd]
  have htree : t'.sourceTree = t.sourceTree := by rw [h.tree_eq, h'.tree_eq, hcwd]
  cases t
  cases t'
  simp only at hsources houtput htree
  rw [hsources, houtput, htree]

/-- Locating succeeds if the working directory is there and every directory below the source tree can
be named. -/
theorem exists_locate (tree : w.disk.IsTree)
    (hleads : Leads w.disk w.cwd (sourceTree.absolute w.cwd) l)
    (hdir : w.disk.find? w.cwd = some .directory)
    (hnameable : Nameable w.disk l (sourceTree.absolute w.cwd) []) :
    ∃ t, (locate output sourceTree).on w = (.ok t, w) := by
  have hspec : (locate output sourceTree).wp w (fun _ w' => w' = w) fun _ _ => False := by
    unfold locate findSources
    simp only [Action.wp_bind, Action.wp_within, Action.wp_pure]
    refine (absolute_again output hdir).mono (fun q w₁ h₁ => ?_) fun _ _ => id
    obtain ⟨rfl, -⟩ := h₁
    refine (absolute_again sourceTree hdir).mono (fun r w₂ h₂ => ?_) fun _ _ => id
    obtain ⟨rfl, rfl⟩ := h₂
    exact (findFiles_lists tree (lists_of_leads tree hleads) hleads.directory).mono
      (fun _ _ h => h.1) fun _ _ h => h.2 hnameable
  rcases hon : (locate output sourceTree).on w with ⟨f | t, w₁⟩
  · exact (hspec.of_error hon).elim
  · exact ⟨t, by rw [hspec.of_ok hon]⟩

end Build

end Recompile
