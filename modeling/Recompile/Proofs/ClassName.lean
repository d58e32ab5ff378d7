import Recompile.ClassName
import Recompile.Proofs.Path.Push
import Recompile.Proofs.Text.Affix

/-!
# The file of a class with a proper name

If no segment of a class name is empty or has a slash, the file of the class is reached by names
from the class directory.
-/

namespace Recompile

namespace Text

theorem cutLast?_eq_none {c : Char} {separator text : String} (hseparator : separator.toList = [c])
    (h : c ∉ text.toList) : cutLast? separator text = none := by
  unfold cutLast?
  rw [Option.map_eq_none_iff, hseparator, Option.eq_none_iff_forall_not_mem]
  rintro ⟨before, rest⟩ hcut
  obtain ⟨htext, -⟩ := (cutLastOf_eq_some_iff (by simp)).1 hcut
  exact h (by simp [htext])

end Text

namespace Path

theorem ofParts_eq_foldl_push {names : List String} (hne : names ≠ [])
    (hnames : ∀ name ∈ names, IsName name) : names.foldl push ⟨""⟩ = ofParts names := by
  have hparts := parts_foldl_push (p := ⟨""⟩) hne hnames
  have htrunk : trunk ⟨""⟩ = [] := by simp [trunk]
  rw [htrunk, List.nil_append] at hparts
  exact (ofParts_parts _).symm.trans (congrArg ofParts hparts)

/-- Giving an extension to a name that has none. -/
theorem withExtension_ofParts {before : List String} {name : String}
    (hnames : ∀ other ∈ before ++ [name], IsName other) (hdot : '.' ∉ name.toList)
    (extension : String) :
    (ofParts (before ++ [name])).withExtension extension =
      ofParts (before ++ [name ++ "." ++ extension]) := by
  have hname : IsName name := hnames name (by simp)
  have hsplit : (ofParts (before ++ [name])).splitName = some (before, name) :=
    splitName_of_parts hname (fields_ofParts (by simp) hnames)
  have hnone : Text.cutLast? "." name = none := Text.cutLast?_eq_none rfl hdot
  have hstem : splitExtension name = (name, none) := by rw [splitExtension, hnone]
  rw [withExtension, hsplit]
  dsimp only
  rw [hstem]

end Path

namespace ClassName

/-- No segment between the dots of the name is empty or has a slash. -/
def IsProper (className : String) : Prop :=
  ∀ segment ∈ Text.fields '.' className, segment ≠ "" ∧ '/' ∉ segment.toList

instance (className : String) : Decidable (IsProper className) :=
  inferInstanceAs (Decidable (∀ segment ∈ Text.fields '.' className,
    segment ≠ "" ∧ '/' ∉ segment.toList))

variable {className : String}

theorem IsProper.isName (h : IsProper className) {segment : String}
    (hsegment : segment ∈ Text.fields '.' className) : Path.IsName segment := by
  have hdot : '.' ∉ segment.toList := Text.not_mem_of_mem_fields hsegment
  obtain ⟨hne, hslash⟩ := h segment hsegment
  exact .of_no_dot hne hdot hslash

theorem isName_extended {name : String} (h : Path.IsName name) :
    Path.IsName (name ++ "." ++ "class") := by
  have hclass : 'c' ∈ (name ++ "." ++ "class").toList := by simp
  exact .of_mem hclass (by decide) (by simpa using h.no_slash)

/-- The names from the class directory to the file of the class. -/
def artifactNames (className : String) : List String :=
  let segments := Text.fields '.' className
  segments.dropLast ++ [segments.getLastD "" ++ "." ++ "class"]

theorem fields_eq (className : String) : Text.fields '.' className =
    (Text.fields '.' className).dropLast ++ [(Text.fields '.' className).getLastD ""] := by
  have hne := Text.fields_ne_nil '.' className
  rw [List.getLastD_eq_getLast?, List.getLast?_eq_some_getLast hne, Option.getD_some,
    List.dropLast_append_getLast]

theorem IsProper.isName_artifactNames (h : IsProper className) {name : String}
    (hname : name ∈ artifactNames className) : Path.IsName name := by
  have hall := fields_eq className
  simp only [artifactNames, List.mem_append, List.mem_singleton] at hname
  rcases hname with hname | rfl
  · exact h.isName (List.mem_of_mem_dropLast hname)
  · refine isName_extended (h.isName ?_)
    rw [hall]
    simp

theorem IsProper.artifact_eq (h : IsProper className) :
    artifact className = Path.ofParts (artifactNames className) := by
  have hnames : ∀ name ∈ Text.fields '.' className, Path.IsName name := fun _ => h.isName
  have hall := fields_eq className
  have hdot : '.' ∉ ((Text.fields '.' className).getLastD "").toList := by
    have hlast : (Text.fields '.' className).getLastD "" ∈ Text.fields '.' className := by
      rw [hall]
      simp
    exact Text.not_mem_of_mem_fields hlast
  unfold artifact
  rw [Path.ofParts_eq_foldl_push (Text.fields_ne_nil _ _) hnames, hall]
  rw [hall] at hnames
  rw [Path.withExtension_ofParts hnames hdot, artifactNames]

/-- The file of a class is reached by names from the class directory. -/
theorem IsProper.join_artifact (h : IsProper className) (directory : Path) :
    directory.join (artifact className) = (artifactNames className).foldl Path.push directory := by
  rw [Path.join, h.artifact_eq]
  exact Path.push_ofParts (by simp [artifactNames]) fun _ => h.isName_artifactNames

end ClassName

end Recompile
