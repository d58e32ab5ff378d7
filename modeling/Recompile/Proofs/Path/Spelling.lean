import Mathlib.Logic.Relation
import Recompile.Proofs.Build.Sources
import Recompile.Proofs.Path.Absolute

/-!
# One normal form for all spellings

A path is read part by part: a name is taken, `..` takes the last name back, and empty parts and `.`
do nothing. The normal form is what is left in the end, written with single slashes. Parts that leave
no trace can be put in anywhere, so a directory has one normal form however it is spelled, and a build
finds the same store for all spellings of a source tree.
-/

namespace Recompile

theorem Text.unfields_slash (names : List String) : unfields '/' names = "/".intercalate names := by
  have hslash : ("/" : String).toList = ['/'] := rfl
  rw [unfields, ← String.toList_inj, String.toList_ofList, String.toList_intercalate, hslash]

namespace Path

variable {p q : Path} {names base : Location} {parts : List String} {part name : String}

/-- The names that are left when one more part is read. -/
def read (names : List String) (part : String) : List String :=
  if part = "" ∨ part = "." then names
  else if part = ".." then names.dropLast
  else names ++ [part]

/-- The names that are left of the parts, read from left to right. -/
def remaining (parts : List String) : List String := parts.foldl read []

/-- Parts that leave no trace. -/
inductive Idle : List String → Prop
  | empty : Idle [""]
  | here : Idle ["."]
  | back {name : String} : IsName name → Idle [name, ".."]

/-- `q` is `p` with parts put in that leave no trace. -/
def Inserts (p q : Path) : Prop :=
  ∃ before idle after, p.parts = before ++ after ∧ q.parts = before ++ idle ++ after ∧ Idle idle

/-- Paths that come from each other by putting such parts in and taking them out. -/
def Respelled : Path → Path → Prop := Relation.EqvGen Inserts

@[simp] theorem read_empty (names : List String) : read names "" = names := by simp [read]

@[simp] theorem read_here (names : List String) : read names "." = names := by simp [read]

@[simp] theorem read_up (names : List String) : read names ".." = names.dropLast := by simp [read]

theorem read_name (h : IsName name) (names : List String) : read names name = names ++ [name] := by
  simp [read, h.ne_empty, h.ne_here, h.ne_up]

theorem foldl_read_names (h : ∀ name ∈ names, IsName name) (base : List String) :
    names.foldl read base = base ++ names := by
  induction names generalizing base with
  | nil => simp
  | cons name rest ih =>
    rw [List.foldl_cons, read_name (h name List.mem_cons_self),
      ih fun other hother => h other (List.mem_cons_of_mem name hother)]
    simp

theorem Idle.foldl_read {idle : List String} (h : Idle idle) (base : List String) :
    idle.foldl read base = base := by
  cases h with
  | empty => simp
  | here => simp
  | back hname => simp [read_name hname]

/-! ## Steps and parts -/

theorem isAbsolute_iff_parts : p.isAbsolute = true ↔ ∃ rest, rest ≠ [] ∧ p.parts = "" :: rest := by
  have hempty : Text.fields '/' "" = [""] := Text.fields_of_not_mem (by simp)
  rw [isAbsolute, Text.startsWith_slash_iff]
  constructor
  · rintro ⟨rest, hrest⟩
    refine ⟨Text.fields '/' rest, Text.fields_ne_nil '/' rest, ?_⟩
    have hsplit := Text.fields_append_slash "" rest
    rw [String.empty_append, hempty, List.singleton_append] at hsplit
    rw [parts, hrest, hsplit]
  · rintro ⟨rest, hne, hparts⟩
    obtain ⟨next, more, rfl⟩ := List.exists_cons_of_ne_nil hne
    refine ⟨(ofParts (next :: more)).text, ?_⟩
    have htext : p.text = (ofParts ("" :: next :: more)).text := by rw [← hparts, ofParts_parts]
    rw [htext, ← String.toList_inj]
    simp [ofParts, Text.unfields]

theorem foldl_step_filterMap (parts : List String) (base : Location) :
    (parts.filterMap Component.ofPart?).foldl step base = parts.foldl read base := by
  induction parts generalizing base with
  | nil => rfl
  | cons part rest ih =>
    rw [List.foldl_cons, ← ih]
    by_cases hskip : part = "" ∨ part = "."
    · have hnone : Component.ofPart? part = none := by simp [Component.ofPart?, hskip]
      rw [List.filterMap_cons_none hnone, read, if_pos hskip]
    · by_cases hup : part = ".."
      · have hsome : Component.ofPart? part = some .up := by simp [Component.ofPart?, hup]
        rw [List.filterMap_cons_some hsome, List.foldl_cons, read, if_neg hskip, if_pos hup]
        rfl
      · have hsome : Component.ofPart? part = some (.name part) := by
          simp [Component.ofPart?, not_or.1 hskip, hup]
        rw [List.filterMap_cons_some hsome, List.foldl_cons, read, if_neg hskip, if_neg hup]
        rfl

/-- The place that a path leads to is read off its parts, from the root if the path is absolute. -/
theorem location_eq (p : Path) (base : Location) :
    p.location base = p.parts.foldl read (if p.isAbsolute then [] else base) := by
  obtain ⟨first, rest, hparts⟩ := List.exists_cons_of_ne_nil (Text.fields_ne_nil '/' p.text)
  have hparts : p.parts = first :: rest := hparts
  unfold location components
  rw [hparts]
  dsimp only
  rw [List.foldl_append, foldl_step_filterMap, List.foldl_cons]
  congr 1
  cases habsolute : p.isAbsolute with
  | true =>
    obtain ⟨rest', hne, hparts'⟩ := isAbsolute_iff_parts.1 habsolute
    rw [hparts] at hparts'
    obtain ⟨rfl, rfl⟩ := List.cons.inj hparts'
    simp [hne, step]
  | false =>
    have hroot : ¬(first = "" ∧ rest ≠ []) := by
      rintro ⟨rfl, hne⟩
      rw [isAbsolute_iff_parts.2 ⟨rest, hne, hparts⟩] at habsolute
      cases habsolute
    by_cases hhere : first = "."
    · subst hhere
      simp [step]
    · have hstart : (first = "" && !rest.isEmpty) = false := by simpa using hroot
      have hone := foldl_step_filterMap [first] base
      rw [hstart]
      simp only [Bool.false_eq_true, if_false, hhere]
      cases hpart : Component.ofPart? first with
      | none => simpa [hpart] using hone
      | some c => simpa [hpart] using hone

/-! ## Normal forms -/

theorem parts_toPath (h : names.IsProper) (hne : names ≠ []) :
    names.toPath.parts = "" :: names := by
  have hsplit := Text.fields_append_slash "" (Text.unfields '/' names)
  have hempty : Text.fields '/' "" = [""] := Text.fields_of_not_mem (by simp)
  have hnames : Text.fields '/' (Text.unfields '/' names) = names :=
    Text.fields_unfields '/' names hne fun name hname => (h name hname).no_slash
  rwa [String.empty_append, hempty, hnames, List.singleton_append] at hsplit

theorem isAbsolute_toPath (names : Location) : names.toPath.isAbsolute = true :=
  (Text.startsWith_slash_iff _).2 ⟨_, rfl⟩

/-- What is written as a normal form is read back. -/
theorem foldl_read_toPath (h : names.IsProper) (base : List String) :
    names.toPath.parts.foldl read base = base ++ names := by
  by_cases hne : names = []
  · subst hne
    have hroot : (Location.toPath []).parts = ["", ""] := by decide
    simp [hroot]
  · rw [parts_toPath h hne, List.foldl_cons, read_empty, foldl_read_names h]

theorem location_toPath (h : names.IsProper) (base : Location) :
    names.toPath.location base = names := by
  rw [location_eq, foldl_read_toPath h, isAbsolute_toPath]
  simp

/-- The empty part that the trunk may lack leaves no trace. -/
theorem foldl_read_trunk (p : Path) (base : List String) :
    p.trunk.foldl read base = p.parts.foldl read base := by
  rcases p.parts_eq_trunk_or with hparts | hparts
  · rw [hparts]
  · rw [hparts, List.foldl_append, List.foldl_cons, read_empty, List.foldl_nil]

/-- A relative path is read behind the path of the working directory. -/
theorem location_eq_remaining (h : base.IsProper) (p : Path) :
    p.location base = remaining (base.toPath.join p).parts := by
  rw [location_eq, remaining, join]
  cases habsolute : p.isAbsolute with
  | true =>
    have hpush : base.toPath.push p.text = p := if_pos habsolute
    rw [hpush, if_pos rfl]
  | false =>
    rw [parts_push_of_relative habsolute, List.foldl_append, foldl_read_trunk, foldl_read_toPath h,
      List.nil_append, if_neg Bool.false_ne_true, parts]

theorem text_toPath (names : Location) : names.toPath.text = "/" ++ "/".intercalate names := by
  rw [Location.toPath, Text.unfields_slash]

/-- A normal form ends in a slash only if there are no names in it. -/
theorem not_endsWith_toPath (h : names.IsProper) (hne : names ≠ []) :
    Text.endsWith "/" names.toPath.text = false := by
  rw [Location.toPath_eq_foldl_push hne h]
  exact (isOpen_foldl_push_of_ne_nil hne h).not_endsWith

/-! ## Spellings -/

theorem Respelled.foldl_read (h : Respelled p q) (base : List String) :
    q.parts.foldl read base = p.parts.foldl read base := by
  induction h with
  | rel p q hinsert =>
    obtain ⟨before, idle, after, hp, hq, hidle⟩ := hinsert
    rw [hp, hq, List.foldl_append, List.foldl_append, hidle.foldl_read, List.foldl_append]
  | refl p => rfl
  | symm p q _ ih => exact ih.symm
  | trans p q r _ _ ihp ihq => exact ihq.trans ihp

theorem Respelled.absolute_eq (h : Respelled p q) (hroot : q.isAbsolute = p.isAbsolute)
    (base : Location) : q.absolute base = p.absolute base := by
  rw [absolute, absolute, location_eq, location_eq, h.foldl_read, hroot]

theorem on_absolute {w : World} (p : Path) (hdir : w.disk.find? w.cwd = some .directory) :
    (Action.absolute p).on w = (.ok (p.absolute w.cwd), w) := by
  have hspec := Build.absolute_again p hdir
  rcases hon : (Action.absolute p).on w with ⟨f | q, w'⟩
  · exact (hspec.of_error hon).elim
  · obtain ⟨rfl, rfl⟩ := hspec.of_ok hon
    rfl

/-- A build does not tell the spellings of its source tree apart. -/
theorem Respelled.run_eq (h : Respelled p q) (hroot : q.isAbsolute = p.isAbsolute)
    (tools : Toolchain) (storeRoot output : Path) :
    Build.run tools storeRoot output q = Build.run tools storeRoot output p := by
  have habsolute : Action.absolute q = Action.absolute p := by
    unfold Action.absolute
    simp only [hroot, h.absolute_eq hroot]
  unfold Build.run Build.survey Build.locate
  rw [habsolute]

/-- The normal form of a path is what is left of its parts, read behind the working directory if it
is relative. It is its own normal form and that of all spellings of the path, and a build is the same
for all of them. -/
theorem absolute_normal_form {cwd : Location} (hcwd : cwd.IsProper) (p : Path) :
    (∀ w : World, w.cwd = cwd → w.disk.find? cwd = some .directory →
      (Action.absolute p).on w = (.ok (p.absolute cwd), w)) ∧
    (p.absolute cwd).text = "/" ++ "/".intercalate (remaining (cwd.toPath.join p).parts) ∧
    (∀ name ∈ remaining (cwd.toPath.join p).parts, IsName name) ∧
    (Text.endsWith "/" (p.absolute cwd).text = true → (p.absolute cwd).text = "/") ∧
    (∀ other, (p.absolute cwd).absolute other = p.absolute cwd) ∧
    ∀ q, Respelled p q → q.isAbsolute = p.isAbsolute →
      q.absolute cwd = p.absolute cwd ∧ ∀ tools storeRoot output,
        Build.run tools storeRoot output q = Build.run tools storeRoot output p := by
  have hproper : (p.location cwd).IsProper := isProper_location fun _ => hcwd
  rw [← location_eq_remaining hcwd]
  refine ⟨fun w hw hdir => ?_, text_toPath _, hproper, fun hend => ?_, fun other => ?_,
    fun q hq hroot => ⟨hq.absolute_eq hroot cwd, hq.run_eq hroot⟩⟩
  · subst hw
    exact on_absolute p hdir
  · by_cases hne : p.location cwd = []
    · rw [absolute, hne]
      rfl
    · rw [absolute, not_endsWith_toPath hproper hne] at hend
      cases hend
  · rw [absolute, absolute, location_toPath hproper]

theorem absolute_normal_form_home :
    Location.IsProper ["home"] ∧ Respelled ⟨"b"⟩ ⟨"./a/../b"⟩ ∧
      (⟨"./a/../b"⟩ : Path).isAbsolute = (⟨"b"⟩ : Path).isAbsolute ∧
      ((⟨"b"⟩ : Path).absolute ["home"]).text = "/home/b" ∧
      (⟨"./a/../b"⟩ : Path).absolute ["home"] = (⟨"b"⟩ : Path).absolute ["home"] := by
  have hproper : Location.IsProper ["home"] := by decide
  have hhere : Inserts ⟨"b"⟩ ⟨"./b"⟩ := ⟨[], ["."], ["b"], by decide, by decide, .here⟩
  have hback : Inserts ⟨"./b"⟩ ⟨"./a/../b"⟩ :=
    ⟨["."], ["a", ".."], ["b"], by decide, by decide, .back (by decide)⟩
  have hrespelled : Respelled ⟨"b"⟩ ⟨"./a/../b"⟩ := .trans _ _ _ (.rel _ _ hhere) (.rel _ _ hback)
  have hroot : (⟨"./a/../b"⟩ : Path).isAbsolute = (⟨"b"⟩ : Path).isAbsolute := by decide
  obtain ⟨-, htext, -, -, -, hsame⟩ := absolute_normal_form hproper ⟨"b"⟩
  have hnames : remaining ((Location.toPath ["home"]).join ⟨"b"⟩).parts = ["home", "b"] := by decide
  refine ⟨hproper, hrespelled, hroot, ?_, (hsame _ hrespelled hroot).1⟩
  rw [htext, hnames]
  rfl

end Path

end Recompile
