import Recompile.Proofs.ClassName
import Recompile.Proofs.Text.Spelled
import Recompile.Proofs.Text.Words
import Recompile.Toolchain.Javap

/-!
# Reading back a listing of classes

A listing is made of blocks, one for each class: a header, which names the source file, the line that
declares the class, and a body. The facts of a listing are those of its blocks, in order, whatever
stands in the bodies and before the first block, as long as it is no header.
-/

namespace Recompile

namespace ClassName

variable {className file : String}

/-- The names from the source directory to a source of the package of a class. -/
def sourceNames (className file : String) : List String :=
  (Text.fields '.' className).dropLast ++ [file]

theorem fields_append_dot (package last : String) (hlast : '.' ∉ last.toList) :
    (Text.fields '.' (package ++ "." ++ last)).dropLast = Text.fields '.' package := by
  have hdot : ("." : String).toList = ['.'] := rfl
  rw [Text.fields, Text.fields, String.toList_append, String.toList_append, hdot, List.append_assoc,
    List.singleton_append, List.splitOn_append_cons_self, List.splitOn_eq_singleton hlast,
    List.map_append, List.map_singleton, List.dropLast_concat]

theorem cutLast?_append_dot (package last : String) (hlast : '.' ∉ last.toList) :
    Text.cutLast? "." (package ++ "." ++ last) = some (package, last) := by
  have hdot : ("." : String).toList = ['.'] := rfl
  have hcut : Text.cutLastOf ['.'] (package.toList ++ ['.'] ++ last.toList) =
      some (package.toList, last.toList) :=
    (Text.cutLastOf_eq_some_iff (by simp)).2 ⟨rfl, fun h => hlast ((List.singleton_infix_iff ..).1 h)⟩
  rw [Text.cutLast?, String.toList_append, String.toList_append, hdot, hcut]
  simp

theorem exists_eq_append_dot (h : '.' ∈ className.toList) :
    ∃ package last, className = package ++ "." ++ last ∧ '.' ∉ last.toList := by
  obtain ⟨after, before, hreverse, hafter⟩ :=
    List.eq_append_cons_of_mem (List.mem_reverse.2 h)
  have hdot : ("." : String).toList = ['.'] := rfl
  refine ⟨String.ofList before.reverse, String.ofList after.reverse, ?_, by simpa using hafter⟩
  rw [← String.toList_inj, ← List.reverse_inj, hreverse]
  simp [hdot]

/-- The name of a source file is pushed behind the segments of the package. -/
theorem source_eq_push (className file : String) : source className file =
    ((Text.fields '.' className).dropLast.foldl Path.push ⟨""⟩).push file := by
  by_cases hdot : '.' ∈ className.toList
  · obtain ⟨package, last, rfl, hlast⟩ := exists_eq_append_dot hdot
    rw [source, cutLast?_append_dot package last hlast, fields_append_dot package last hlast]
  · rw [source, Text.cutLast?_eq_none rfl hdot, Text.fields_of_not_mem hdot]
    rfl

/-- A source lies in the directory of its package. -/
theorem IsProper.source_eq (h : IsProper className) (hfile : Path.IsName file) :
    source className file = Path.ofParts (sourceNames className file) := by
  have hnames : ∀ name ∈ sourceNames className file, Path.IsName name := by
    intro name hname
    rcases List.mem_append.1 hname with hpackage | hlast
    · exact h.isName (List.mem_of_mem_dropLast hpackage)
    · rwa [List.mem_singleton.1 hlast]
  rw [← Path.ofParts_eq_foldl_push (by simp [sourceNames]) hnames, source_eq_push, sourceNames,
    List.foldl_append, List.foldl_cons, List.foldl_nil]

end ClassName

namespace Javap

/-- The line in front of the declaration of a class from this source file. -/
def header (file : String) : String := "Compiled from \"" ++ file ++ "\""

/-- The line introduces a class. -/
def IsHeader (line : String) : Prop := ∃ name, line = header (name ++ ".java")

section Header

variable {line file : String}

theorem sourceFile?_eq_some_iff :
    sourceFile? line = some file ↔ line = header file ∧ ∃ name, file = name ++ ".java" := by
  simp only [sourceFile?, Option.bind_eq_bind, Option.bind_eq_some_iff, Text.after?_eq_some_iff,
    Text.before?_eq_some_iff, Option.ite_none_right_eq_some, Option.some.injEq, Text.endsWith_iff]
  constructor
  · rintro ⟨rest, rfl, name, rfl, hjava, rfl⟩
    exact ⟨(String.append_assoc ..).symm, hjava⟩
  · rintro ⟨rfl, hjava⟩
    exact ⟨_, String.append_assoc .., file, rfl, hjava, rfl⟩

theorem sourceFile?_header (name : String) :
    sourceFile? (header (name ++ ".java")) = some (name ++ ".java") :=
  sourceFile?_eq_some_iff.2 ⟨rfl, name, rfl⟩

theorem isSome_sourceFile?_iff : (sourceFile? line).isSome = true ↔ IsHeader line := by
  rw [Option.isSome_iff_exists]
  constructor
  · rintro ⟨file, hfile⟩
    obtain ⟨rfl, name, rfl⟩ := sourceFile?_eq_some_iff.1 hfile
    exact ⟨name, rfl⟩
  · rintro ⟨name, rfl⟩
    exact ⟨_, sourceFile?_header name⟩

instance (line : String) : Decidable (IsHeader line) := decidable_of_iff _ isSome_sourceFile?_iff

theorem sourceFile?_eq_none (h : ¬IsHeader line) : sourceFile? line = none :=
  Option.not_isSome_iff_eq_none.1 (isSome_sourceFile?_iff.not.2 h)

end Header

/-- A word in front of the keyword of a declaration, with the blanks behind it. -/
structure Modifier where
  word : String
  gap : String
  isWord : Text.IsWord word
  ne_class : word ≠ "class"
  ne_interface : word ≠ "interface"
  gap_ne_empty : gap ≠ ""
  isBlanks : Text.IsBlanks gap

/-- The parts of a line that declares a class. -/
structure Declaration where
  indent : String
  modifiers : List Modifier
  keyword : String
  gap : String
  className : String
  /-- What follows the name: type parameters, supertypes, the brace. -/
  rest : String
  isBlanks_indent : Text.IsBlanks indent
  isKeyword : keyword = "class" ∨ keyword = "interface"
  gap_ne_empty : gap ≠ ""
  isBlanks_gap : Text.IsBlanks gap
  isProper : ClassName.IsProper className
  isWord : Text.IsWord className
  no_angle : '<' ∉ className.toList
  rest_head : ∀ c ∈ rest.toList.head?, Text.isBlank c = true ∨ c = '<'

namespace Declaration

/-- The words in front of the keyword as they stand in the line. -/
def modifierText (modifiers : List Modifier) : String :=
  String.join (modifiers.map fun modifier => modifier.word ++ modifier.gap)

def line (d : Declaration) : String :=
  d.indent ++ modifierText d.modifiers ++ d.keyword ++ d.gap ++ d.className ++ d.rest

end Declaration

/-- The lines of a listing about one class. -/
structure Block where
  /-- The source file without its extension. -/
  file : String
  declaration : Declaration
  body : List String
  no_slash : '/' ∉ file.toList
  brace : '{' ∈ declaration.line.toList
  plain : ∀ line ∈ body, ¬IsHeader line

namespace Block

def lines (b : Block) : List String := header (b.file ++ ".java") :: b.declaration.line :: b.body

def fact (b : Block) : ClassFact where
  className := b.declaration.className
  source := Path.ofParts (ClassName.sourceNames b.declaration.className (b.file ++ ".java"))
  dependencies := ∅

end Block

theorem words_gap_append {word gap rest : String} (hword : Text.IsWord word) (hne : gap ≠ "")
    (hgap : Text.IsBlanks gap) : Text.words (word ++ gap ++ rest) = word :: Text.words rest := by
  have hhead : ∀ c ∈ (gap ++ rest).toList.head?, Text.isBlank c = true := by
    intro c hc
    obtain ⟨d, chars, hchars⟩ := List.exists_cons_of_ne_nil (show gap.toList ≠ [] by simpa using hne)
    have hd := hgap d (by simp [hchars])
    rw [String.toList_append, hchars] at hc
    rwa [← Option.some.inj hc]
  rw [String.append_assoc, Text.words_append_of_blank hword hhead, Text.words_blanks_append hgap]

theorem nameAfterKeyword_of_ne {word : String} (hclass : word ≠ "class")
    (hinterface : word ≠ "interface") (rest : List String) :
    nameAfterKeyword (word :: rest) = nameAfterKeyword rest := by
  simp [nameAfterKeyword, hclass, hinterface]

theorem nameAfterKeyword_modifiers (modifiers : List Modifier) (rest : String) :
    nameAfterKeyword (Text.words (Declaration.modifierText modifiers ++ rest)) =
      nameAfterKeyword (Text.words rest) := by
  induction modifiers with
  | nil => simp [Declaration.modifierText]
  | cons modifier modifiers ih =>
    have hfirst : Declaration.modifierText (modifier :: modifiers) ++ rest =
        modifier.word ++ modifier.gap ++ (Declaration.modifierText modifiers ++ rest) := by
      simp [Declaration.modifierText, String.append_assoc]
    rw [hfirst, words_gap_append modifier.isWord modifier.gap_ne_empty modifier.isBlanks,
      nameAfterKeyword_of_ne modifier.ne_class modifier.ne_interface, ih]

theorem Declaration.declaredClass?_line (d : Declaration) (hbrace : '{' ∈ d.line.toList) :
    declaredClass? d.line = some d.className := by
  have hkeyword : Text.IsWord d.keyword := by
    rcases d.isKeyword with h | h <;> rw [h] <;> decide
  have hline : d.line = d.indent ++ (modifierText d.modifiers ++
      (d.keyword ++ d.gap ++ (d.className ++ d.rest))) := by
    simp only [line, String.append_assoc]
  have hname : nameAfterKeyword (Text.words d.line) = some (String.ofList
      (d.className.toList ++ d.rest.toList.takeWhile fun c => !Text.isBlank c)) := by
    rw [hline, Text.words_blanks_append d.isBlanks_indent, nameAfterKeyword_modifiers,
      words_gap_append hkeyword d.gap_ne_empty d.isBlanks_gap,
      Text.words_append_of_isWord d.isWord, nameAfterKeyword,
      if_pos (by simpa using d.isKeyword), List.head?_cons]
  have hcut : (d.className.toList ++ d.rest.toList.takeWhile fun c => !Text.isBlank c).takeWhile
      (· != '<') = d.className.toList := by
    have hstop : (d.rest.toList.takeWhile fun c => !Text.isBlank c).takeWhile (· != '<') = [] := by
      cases hrest : d.rest.toList with
      | nil => rfl
      | cons c chars =>
        rcases d.rest_head c (by rw [hrest]; rfl) with hc | rfl
        · simp [hc]
        · rfl
    rw [List.takeWhile_append_of_pos, hstop, List.append_nil]
    intro c hc
    simpa using ne_of_mem_of_not_mem hc d.no_angle
  rw [declaredClass?, if_pos hbrace, hname, Option.map_some, String.toList_ofList, hcut,
    String.ofList_toList]

theorem factsOfLines_of_not_isHeader {line : String} (h : ¬IsHeader line) (rest : List String) :
    factsOfLines (line :: rest) = factsOfLines rest := by
  cases rest with
  | nil => rfl
  | cons next rest => rw [factsOfLines, sourceFile?_eq_none h]

theorem factsOfLines_append {plain : List String} (h : ∀ line ∈ plain, ¬IsHeader line)
    (rest : List String) : factsOfLines (plain ++ rest) = factsOfLines rest := by
  induction plain with
  | nil => rfl
  | cons line plain ih =>
    rw [List.cons_append, factsOfLines_of_not_isHeader (h line List.mem_cons_self),
      ih fun other hother => h other (List.mem_cons_of_mem line hother)]

theorem factsOfLines_block (b : Block) (rest : List String) :
    factsOfLines (b.lines ++ rest) = b.fact :: factsOfLines rest := by
  have hfile : Path.IsName (b.file ++ ".java") :=
    .of_mem (by simp) (show 'j' ≠ '.' by decide) (by simpa using b.no_slash)
  rw [Block.lines, List.cons_append, List.cons_append, factsOfLines, sourceFile?_header]
  dsimp only
  rw [b.declaration.declaredClass?_line b.brace]
  dsimp only
  rw [b.declaration.isProper.source_eq hfile, factsOfLines_append b.plain, Block.fact]

/-- The facts of a listing are those of its blocks. -/
theorem facts_listing {preamble : List String} (h : ∀ line ∈ preamble, ¬IsHeader line)
    (blocks : List Block) {listing : String}
    (hlisting : Text.Spells (preamble ++ blocks.flatMap Block.lines) listing) :
    facts listing = blocks.map Block.fact := by
  rw [facts, hlisting.lines_eq, factsOfLines_append h]
  clear hlisting
  induction blocks with
  | nil => rfl
  | cons b blocks ih => rw [List.flatMap_cons, factsOfLines_block, ih, List.map_cons]

/-- A class with type parameters in a package, as `javap` shows it. -/
def genericBlock : Block where
  file := "Foo"
  declaration := {
    indent := ""
    modifiers := [⟨"public", " ", by decide, by decide, by decide, by decide, by decide⟩,
      ⟨"final", "\t ", by decide, by decide, by decide, by decide, by decide⟩]
    keyword := "class"
    gap := " "
    className := "com.example.Foo"
    rest := "<T> extends java.util.ArrayList<T> \x7b"
    isBlanks_indent := by decide
    isKeyword := .inl rfl
    gap_ne_empty := by decide
    isBlanks_gap := by decide
    isProper := by decide
    isWord := by decide
    no_angle := by decide
    rest_head := fun c hc => .inr (Option.some.inj hc).symm }
  body := ["  public com.example.Foo();", "\x7d"]
  no_slash := by decide
  brace := by decide
  plain := by decide

/-- An interface outside of all packages, declared on the last line. -/
def bareBlock : Block where
  file := "Bar"
  declaration := {
    indent := "  "
    modifiers := []
    keyword := "interface"
    gap := " "
    className := "Bar"
    rest := " \x7b"
    isBlanks_indent := by decide
    isKeyword := .inr rfl
    gap_ne_empty := by decide
    isBlanks_gap := by decide
    isProper := by decide
    isWord := by decide
    no_angle := by decide
    rest_head := fun c hc => .inl (Option.some.inj hc ▸ by decide) }
  body := []
  no_slash := by decide
  brace := by decide
  plain := by decide

theorem facts_listing_generic :
    facts ("Warning: class not found\r\nCompiled from \"Foo.java\"\r\n" ++
        "public final\t class com.example.Foo<T> extends java.util.ArrayList<T> \x7b\n" ++
        "  public com.example.Foo();\n\x7d\nCompiled from \"Bar.java\"\n  interface Bar \x7b") =
      [⟨"com.example.Foo", ⟨"com/example/Foo.java"⟩, ∅⟩, ⟨"Bar", ⟨"Bar.java"⟩, ∅⟩] :=
  have hwarning : ∀ line ∈ ["Warning: class not found"], ¬IsHeader line := by decide
  facts_listing hwarning [genericBlock, bareBlock] (Text.spells_iff.2 (by decide +kernel))

end Javap

end Recompile
