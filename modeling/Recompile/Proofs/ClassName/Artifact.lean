import Recompile.Proofs.Path.Spelling
import Recompile.Proofs.Staging.Copied
import Recompile.Proofs.Toolchain.Javap

/-!
# The file of a class tells the class

The path to the file of a class spells the name of the class with slashes for dots, and then the
extension. Joined to a directory it leads to a place below that directory. The last part of the path
has a dot and no segment of a class name has one, so the file of one class is never the file of
another or a directory above it: classes share no files and none stands in the way of another. The
file lies in the directory that the source of the class lies in below the source tree.
-/

namespace Recompile

namespace Path

theorem parent_ofParts {before : List String} {name : String}
    (hnames : ∀ other ∈ before ++ [name], IsName other) :
    (ofParts (before ++ [name])).parent = some (ofParts before) := by
  have hname : IsName name := hnames name (by simp)
  have hbefore : ∀ other ∈ before, IsName other := fun other hother =>
    hnames other (List.mem_append_left _ hother)
  rcases List.eq_nil_or_concat before with rfl | ⟨init, last, rfl⟩
  · have hparts : (ofParts [name]).parts = [name] := fields_ofParts (by simp) hnames
    rw [List.nil_append, parent, hparts]
    exact if_neg hname.ne_empty
  · rw [List.concat_eq_append] at hnames hbefore ⊢
    rw [← ofParts_eq_foldl_push (by simp) hnames, ← ofParts_eq_foldl_push (by simp) hbefore]
    simp only [List.foldl_append, List.foldl_cons, List.foldl_nil]
    exact parent_push_push (hbefore last (by simp)) hname

end Path

namespace ClassName

variable {className other : String}

/-- The segments of a class name that name its package. -/
def package (className : String) : List String := (Text.fields '.' className).dropLast

theorem IsProper.text_artifact (h : IsProper className) :
    (artifact className).text = "/".intercalate (Text.fields '.' className) ++ ".class" := by
  have hextension : "." ++ "class" = ".class" := rfl
  rw [h.artifact_eq, artifactNames, Path.ofParts, String.append_assoc, hextension,
    Text.unfields_concat_append, ← fields_eq, Text.unfields_slash]

theorem IsProper.parts_artifact (h : IsProper className) :
    (artifact className).parts = artifactNames className := by
  rw [h.artifact_eq]
  exact Path.fields_ofParts (by simp [artifactNames]) fun _ => h.isName_artifactNames

theorem IsProper.isAbsolute_artifact (h : IsProper className) :
    (artifact className).isAbsolute = false := by
  rw [h.artifact_eq]
  exact Path.not_startsWith_ofParts (by simp [artifactNames]) fun _ => h.isName_artifactNames

/-- The names of the file are taken one by one from wherever the directory leads. -/
theorem IsProper.location_join (h : IsProper className) (directory : Path) (base : Location) :
    (directory.join (artifact className)).location base =
      directory.location base ++ (artifact className).parts := by
  have hnames : ∀ name ∈ artifactNames className, Path.IsName name := fun _ =>
    h.isName_artifactNames
  rw [h.join_artifact, h.parts_artifact, Path.location_eq, Path.location_eq,
    Path.isAbsolute_foldl_push hnames, Path.parts_foldl_push (by simp [artifactNames]) hnames,
    List.foldl_append, Path.foldl_read_trunk, Path.foldl_read_names hnames]

/-- The last name of a file has a dot, so it is no segment of another class. -/
theorem eq_of_isPrefix_artifactNames (h : artifactNames other <+: artifactNames className) :
    other = className := by
  rcases List.prefix_concat_iff.1 h with heq | habove
  · exact artifactNames_injective heq
  · have hlast : (Text.fields '.' other).getLastD "" ++ "." ++ "class" ∈
        Text.fields '.' className :=
      List.mem_of_mem_dropLast (habove.subset (by simp [artifactNames]))
    exact absurd (by simp) (Text.not_mem_of_mem_fields hlast)

theorem IsProper.isName_package (h : IsProper className) :
    ∀ name ∈ package className, Path.IsName name := fun _ hname =>
  h.isName (List.mem_of_mem_dropLast hname)

theorem IsProper.parent_artifact (h : IsProper className) :
    (artifact className).parent = some (Path.ofParts (package className)) := by
  rw [h.artifact_eq]
  exact Path.parent_ofParts fun _ => h.isName_artifactNames

theorem IsProper.source_eq_package_push (h : IsProper className) (file : String) :
    source className file = (Path.ofParts (package className)).push file := by
  have hpackage : (package className).foldl Path.push ⟨""⟩ = Path.ofParts (package className) := by
    by_cases hne : package className = []
    · rw [hne]
      rfl
    · exact Path.ofParts_eq_foldl_push hne h.isName_package
  rw [source_eq_push, ← hpackage, package]

theorem IsProper.parent_source (h : IsProper className) {file : String} (hfile : Path.IsName file) :
    (source className file).parent = some (Path.ofParts (package className)) := by
  rw [h.source_eq hfile]
  refine Path.parent_ofParts fun name hname => ?_
  rcases List.mem_append.1 hname with hpackage | hlast
  · exact h.isName_package name hpackage
  · rwa [List.mem_singleton.1 hlast]

/-- The path to the file of a class is the name of the class with slashes for dots and the extension
behind it. It leads below every directory that it is joined to. No other class has this file or one
above it. Its directory is the one to which a source of the class adds the name of the source file. -/
theorem artifact_faithful (h : IsProper className) :
    (artifact className).text = "/".intercalate (Text.fields '.' className) ++ ".class" ∧
    (artifact className).isAbsolute = false ∧
    (∀ part ∈ (artifact className).parts, Path.IsName part) ∧
    (∀ (directory : Path) (base : Location),
      (directory.join (artifact className)).location base =
        directory.location base ++ (artifact className).parts) ∧
    (∀ other, IsProper other →
      (artifact other = artifact className → other = className) ∧
      ((artifact other).parts <+: (artifact className).parts → other = className)) ∧
    ∃ directory, (artifact className).parent = some directory ∧
      ∀ file, source className file = directory.push file ∧
        (Path.IsName file → (source className file).parent = some directory) := by
  have hdistinct (other : String) (hother : IsProper other)
      (habove : (artifact other).parts <+: (artifact className).parts) : other = className := by
    rw [hother.parts_artifact, h.parts_artifact] at habove
    exact eq_of_isPrefix_artifactNames habove
  refine ⟨h.text_artifact, h.isAbsolute_artifact, fun part hpart => ?_, h.location_join,
    fun other hother => ⟨fun heq => ?_, hdistinct other hother⟩, _, h.parent_artifact,
    fun file => ⟨h.source_eq_package_push file, h.parent_source⟩⟩
  · rw [h.parts_artifact] at hpart
    exact h.isName_artifactNames hpart
  · refine hdistinct other hother ?_
    rw [heq]

theorem artifact_faithful_nested :
    IsProper "com.example.Foo$Bar" ∧
      (artifact "com.example.Foo$Bar").text = "com/example/Foo$Bar.class" ∧
      (source "com.example.Foo$Bar" "Foo.java").parent =
        (artifact "com.example.Foo$Bar").parent := by
  have h : IsProper "com.example.Foo$Bar" := by decide
  obtain ⟨htext, -, -, -, -, directory, hparent, hsource⟩ := artifact_faithful h
  refine ⟨h, ?_, ?_⟩
  · rw [htext]
    decide
  · rw [hparent]
    exact (hsource "Foo.java").2 (by decide)

end ClassName

end Recompile
