import Recompile.Proofs.Directory.Exact
import Recompile.Proofs.Store.Recorded
import Recompile.Proofs.Toolchain.Javap

/-!
# Two ways to name a source

A build names a source by the path at which it was found, and a store by the package of a class and
the name of a file, joined to the source tree. If the directories of the package are there the names
are the same text, so the store knows the classes of a source that has changed. Different sources of a
tree have different names.
-/

namespace Recompile

namespace ClassName

variable {package : List String} {simple file : String}

/-- What can stand between the dots of a class name. -/
def IsSegment (segment : String) : Prop :=
  segment ≠ "" ∧ '.' ∉ segment.toList ∧ '/' ∉ segment.toList

instance (segment : String) : Decidable (IsSegment segment) :=
  inferInstanceAs (Decidable (_ ∧ _ ∧ _))

theorem IsSegment.isName {segment : String} (h : IsSegment segment) : Path.IsName segment :=
  .of_no_dot h.1 h.2.1 h.2.2

theorem fields_unfields_segments (h : ∀ segment ∈ package ++ [simple], IsSegment segment) :
    Text.fields '.' (Text.unfields '.' (package ++ [simple])) = package ++ [simple] :=
  Text.fields_unfields '.' _ (by simp) fun segment hsegment => (h segment hsegment).2.1

/-- The source of a class is reached by the names of its package. -/
theorem join_source (h : ∀ segment ∈ package ++ [simple], IsSegment segment)
    (hfile : Path.IsName file) (directory : Path) :
    directory.join (source (Text.unfields '.' (package ++ [simple])) file) =
      (package ++ [file]).foldl Path.push directory := by
  have hfields := fields_unfields_segments h
  have hproper : IsProper (Text.unfields '.' (package ++ [simple])) := by
    intro segment hsegment
    rw [hfields] at hsegment
    exact ⟨(h segment hsegment).1, (h segment hsegment).2.2⟩
  have hnames : ∀ name ∈ package ++ [file], Path.IsName name := by
    intro name hname
    rcases List.mem_append.1 hname with hpackage | hlast
    · exact (h name (List.mem_append_left _ hpackage)).isName
    · rwa [List.mem_singleton.1 hlast]
  rw [Path.join, hproper.source_eq hfile, sourceNames, hfields, List.dropLast_concat]
  exact Path.push_ofParts (by simp) hnames

end ClassName

namespace Build

open Directory Disk

attribute [local irreducible] Action.wp

variable {w w' : World} {output p : Path} {t : Target} {s : Location}

/-- Locating the sources opens the directory of the source tree. -/
theorem opens_of_locate (h : (locate output p).on w = (.ok t, w')) :
    ∃ s, w.disk.resolve w.cwd true (p.absolute w.cwd) = .ok s ∧
      w.disk.find? s = some .directory := by
  have hspec : (locate output p).wp w (fun _ _ => ∃ s,
      w.disk.resolve w.cwd true (p.absolute w.cwd) = .ok s ∧ w.disk.find? s = some .directory)
      fun _ _ => True := by
    unfold locate findSources
    simp only [Action.wp_bind, Action.wp_within, Action.wp_pure]
    refine (absolute_reads output).mono (fun q w₁ h₁ => ?_) fun _ _ _ => trivial
    obtain ⟨rfl, -⟩ := h₁
    refine (absolute_reads p).mono (fun r w₂ h₂ => ?_) fun _ _ _ => trivial
    obtain ⟨rfl, rfl⟩ := h₂
    exact findFiles_quiet.mono (fun _ _ h => h.2.2) fun _ _ _ => trivial
  exact hspec.of_ok h

/-- Which places below the source tree are named by the texts of a build. -/
theorem Located.mem_iff_matches (tree : w.disk.IsTree) (located : Located output p s w t)
    {names : List String} (hne : names ≠ []) (hnames : ∀ name ∈ names, Path.IsName name) :
    (names.foldl Path.push t.sourceTree).text ∈ t.sources ↔ Matches w.disk s "java" names := by
  rw [located.mem, located.tree_eq]
  constructor
  · rintro ⟨file, hfinds, htext⟩
    obtain ⟨names', hmatches, rfl⟩ := (finds_iff_matches tree).1 hfinds
    obtain ⟨bytes, runnable, hfind⟩ := hmatches.file
    obtain ⟨init, stem, hlast, -⟩ := hmatches.extension
    have hpath : names'.foldl Path.push (p.absolute w.cwd) =
        names.foldl Path.push (p.absolute w.cwd) := congrArg Path.mk htext
    have hsame := Path.foldl_push_injective (by simp [hlast]) hne
      (fun _ => tree.isName_of_mem hfind) hnames hpath
    exact hsame ▸ hmatches
  · intro hmatches
    exact ⟨_, (finds_iff_matches tree).2 ⟨names, hmatches, rfl⟩, rfl⟩

/-- No two files below a directory are named by one text. -/
theorem foldl_push_file_injective (tree : w.disk.IsTree) (hdir : w.disk.find? s = some .directory)
    {q : Path} {names names' : List String} (hat : (w.disk.fileAt (s ++ names)).isSome)
    (hat' : (w.disk.fileAt (s ++ names')).isSome)
    (htext : (names.foldl Path.push q).text = (names'.foldl Path.push q).text) : names = names' := by
  have key (names : List String) (hat : (w.disk.fileAt (s ++ names)).isSome) :
      names ≠ [] ∧ ∀ name ∈ names, Path.IsName name := by
    obtain ⟨bytes, hbytes⟩ := Option.isSome_iff_exists.1 hat
    obtain ⟨runnable, hfind⟩ := fileAt_eq_some_iff.1 hbytes
    refine ⟨?_, fun _ => tree.isName_of_mem hfind⟩
    rintro rfl
    rw [List.append_nil, hdir] at hfind
    cases hfind
  exact Path.foldl_push_injective (key names hat).1 (key names' hat').1 (key names hat).2
    (key names' hat').2 (congrArg Path.mk htext)

theorem isName_java {stem : String} (h : '/' ∉ stem.toList) : Path.IsName (stem ++ ".java") :=
  .of_mem (c := 'j') (by simp) (by decide) (by simpa using h)

/-- The name of a source file has the extension if something stands in front of it. -/
theorem matches_java_iff (tree : w.disk.IsTree) {package : List String} {stem : String} :
    Matches w.disk s "java" (package ++ [stem ++ ".java"]) ↔ stem ≠ "" ∧
      ∃ bytes runnable,
        w.disk.find? (s ++ (package ++ [stem ++ ".java"])) = some (.file bytes runnable) := by
  have hjava (stem : String) : stem ++ "." ++ "java" = stem ++ ".java" := String.append_assoc ..
  constructor
  · rintro ⟨-, hfile, init, stem', hlast, hstem, -⟩
    obtain ⟨-, hsame⟩ := List.append_inj' hlast rfl
    have htext := List.singleton_inj.1 hsame
    rw [hjava] at htext
    rw [String.append_left_inj] at htext
    exact ⟨htext ▸ hstem, hfile⟩
  · rintro ⟨hstem, bytes, runnable, hfind⟩
    refine ⟨fun before name after heq => ?_, ⟨bytes, runnable, hfind⟩, package, stem, ?_, hstem,
      by decide⟩
    · exact (tree.directory_of_concat_append hfind heq).1
    · rw [hjava]

/-- The text by which a store names the source of a class is the one that a build takes for the file,
and a build takes it exactly if the file stands in the directories of the package. A store that has
recorded the class finds it by that text. No two files below the tree have one text. -/
theorem source_named_alike (tree : w.disk.IsTree) (hlocate : (locate output p).on w = (.ok t, w'))
    {package : List String} {simple stem : String}
    (hsegments : ∀ segment ∈ package ++ [simple], ClassName.IsSegment segment)
    (hstem : '/' ∉ stem.toList) :
    let className := Text.unfields '.' (package ++ [simple])
    let named := ClassName.source className (stem ++ ".java")
    let source := ((package ++ [stem ++ ".java"]).foldl Path.push t.sourceTree).text
    t.sourceTree = p.absolute w.cwd ∧
    (∃ s, w.disk.resolve w.cwd true t.sourceTree = .ok s ∧
      (source ∈ t.sources ↔ stem ≠ "" ∧ ∃ bytes runnable,
        w.disk.find? (s ++ (package ++ [stem ++ ".java"])) = some (.file bytes runnable)) ∧
      ∀ names names', (w.disk.fileAt (s ++ names)).isSome → (w.disk.fileAt (s ++ names')).isSome →
        (names.foldl Path.push t.sourceTree).text = (names'.foldl Path.push t.sourceTree).text →
          names = names') ∧
    ∀ (store : Store) (earlier later : List ClassFact) (dependencies : Names),
      (∀ other ∈ later, other.className ≠ className) →
        let recorded :=
          store.record t.sourceTree (earlier ++ ⟨className, named, dependencies⟩ :: later)
        recorded.classes[className]? = some source ∧
          ∀ changed : Names, source ∈ changed → className ∈ recorded.classesOf changed := by
  intro className named source
  obtain ⟨s, hopen, hdir⟩ := opens_of_locate hlocate
  have located := located_of_locate tree (leads_of_resolve hopen hdir) hlocate
  have hfile := isName_java hstem
  have hnames : ∀ name ∈ package ++ [stem ++ ".java"], Path.IsName name := by
    intro name hname
    rcases List.mem_append.1 hname with hpackage | hlast
    · exact (hsegments name (List.mem_append_left _ hpackage)).isName
    · rwa [List.mem_singleton.1 hlast]
  have hnamed : (t.sourceTree.join named).text = source :=
    congrArg Path.text (ClassName.join_source hsegments hfile t.sourceTree)
  refine ⟨located.tree_eq, ⟨s, located.tree_eq ▸ hopen, ?_, fun names names' hat hat' htext => ?_⟩,
    fun store earlier later dependencies hlater => ?_⟩
  · rw [located.mem_iff_matches tree (by simp) hnames, matches_java_iff tree]
  · exact foldl_push_file_injective tree hdir hat hat' htext
  · have hlast : (store.record t.sourceTree (earlier ++ ⟨className, named, dependencies⟩ ::
        later)).classes[className]? = some (t.sourceTree.join named).text :=
      Store.getElem?_classes_record_of_last hlater
    rw [hnamed] at hlast
    exact ⟨hlast, fun changed hchanged =>
      (Store.mem_classesOf _ changed className).2 ⟨source, hlast, hchanged⟩⟩

/-- A source in the directory of its package. -/
def packaged : World :=
  .start ⟨[(["src"], .directory), (["src", "p"], .directory),
    (["src", "p", "A.java"], .file .empty false)], by decide⟩ [] ∅

theorem source_named_alike_packaged :
    packaged.disk.IsTree ∧ (∀ segment ∈ ["p"] ++ ["A"], ClassName.IsSegment segment) ∧
      '/' ∉ ("A" : String).toList ∧ ∃ t, (locate ⟨"/out"⟩ ⟨"/src/"⟩).on packaged = (.ok t, packaged) ∧
        "/src/p/A.java" ∈ t.sources ∧
          ((Store.new ⟨"/meta"⟩).record t.sourceTree
            [⟨"p.A", ClassName.source "p.A" "A.java", ∅⟩]).classes["p.A"]? = some "/src/p/A.java" := by
  have tree : packaged.disk.IsTree := isTree_of_isWellFormed (by decide)
  have hsegments : ∀ segment ∈ ["p"] ++ ["A"], ClassName.IsSegment segment := by decide
  have hstem : '/' ∉ ("A" : String).toList := by decide
  have hlocate : (locate ⟨"/out"⟩ ⟨"/src/"⟩).on packaged =
      (.ok ⟨⟨"/out"⟩, ⟨"/src"⟩, .ofList ["/src/p/A.java"]⟩, packaged) := by rfl
  obtain ⟨-, ⟨s, hopen, hmem, -⟩, hrecorded⟩ := source_named_alike tree hlocate hsegments hstem
  have hplace : s = ["src"] := by
    have hsrc : packaged.disk.resolve packaged.cwd true ⟨"/src"⟩ = .ok ["src"] := by decide
    exact Except.ok.inj (hopen.symm.trans hsrc)
  subst hplace
  refine ⟨tree, hsegments, hstem, _, hlocate, ?_, ?_⟩
  · exact hmem.2 ⟨by decide, .empty, false, rfl⟩
  · exact (hrecorded (.new ⟨"/meta"⟩) [] [] ∅ (by simp)).1

end Build

end Recompile
