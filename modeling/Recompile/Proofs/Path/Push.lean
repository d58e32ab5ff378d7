import Mathlib.Data.List.Basic
import Mathlib.Tactic.Common
import Recompile.Path.Name

/-!
# Pushing names onto a path

The parts of a path with some names pushed onto it are the parts of the path, without the empty part
that a slash at its end leaves, and then the names.
-/

namespace Recompile

namespace Text

theorem fields_append_slash (a b : String) :
    fields '/' (a ++ "/" ++ b) = fields '/' a ++ fields '/' b := by
  have hslash : ("/" : String).toList = ['/'] := rfl
  simp only [fields, String.toList_append, hslash, List.append_assoc, List.cons_append,
    List.nil_append, List.splitOn_append_cons_self, List.map_append]

theorem fields_of_not_mem {separator : Char} {text : String} (h : separator ∉ text.toList) :
    fields separator text = [text] := by
  simp [fields, List.splitOn_eq_singleton h]

@[simp] theorem fields_ne_nil (separator : Char) (text : String) : fields separator text ≠ [] := by
  simp [fields]

theorem not_mem_of_mem_splitOn {separator : Char} {chars part : List Char}
    (h : part ∈ chars.splitOn separator) : separator ∉ part := by
  induction chars generalizing part with
  | nil => simp_all
  | cons c rest ih =>
    obtain ⟨head, tail, hsplit⟩ := List.exists_cons_of_ne_nil (List.splitOn_ne_nil separator rest)
    rw [List.splitOn_cons_eq_if_modifyHead, hsplit] at h
    rw [hsplit] at ih
    by_cases hc : c = separator
    · simp only [hc, beq_self_eq_true, if_true, List.mem_cons] at h
      rcases h with rfl | h
      · simp
      · exact ih (List.mem_cons.2 h)
    · simp only [beq_iff_eq, hc, if_false, List.modifyHead_cons, List.mem_cons] at h
      rcases h with rfl | h
      · simp only [List.mem_cons, not_or]
        exact ⟨Ne.symm hc, ih List.mem_cons_self⟩
      · exact ih (List.mem_cons_of_mem head h)

theorem not_mem_of_mem_fields {separator : Char} {text part : String}
    (h : part ∈ fields separator text) : separator ∉ part.toList := by
  obtain ⟨chars, hchars, rfl⟩ := List.mem_map.1 h
  rw [String.toList_ofList]
  exact not_mem_of_mem_splitOn hchars

theorem startsWith_slash_iff (text : String) :
    startsWith "/" text = true ↔ ∃ rest, text = "/" ++ rest := by
  have hslash : ("/" : String).toList = ['/'] := rfl
  simp only [startsWith, after?, hslash, Option.isSome_map]
  constructor
  · intro h
    match ht : text.toList with
    | [] => simp [ht, afterOf] at h
    | c :: rest =>
      by_cases hc : '/' = c
      · refine ⟨String.ofList rest, ?_⟩
        rw [← String.toList_inj, String.toList_append, String.toList_ofList, ht, ← hc]
        simp
      · simp [ht, afterOf, hc] at h
  · rintro ⟨rest, rfl⟩
    simp [hslash, afterOf]

theorem endsWith_slash_iff (text : String) :
    endsWith "/" text = true ↔ ∃ rest, text = rest ++ "/" := by
  have hslash : ("/" : String).toList = ['/'] := rfl
  simp only [endsWith, before?, beforeOf, hslash, List.reverse_singleton, Option.isSome_map]
  constructor
  · intro h
    match ht : text.toList.reverse with
    | [] => simp [ht, afterOf] at h
    | c :: rest =>
      by_cases hc : '/' = c
      · refine ⟨String.ofList rest.reverse, ?_⟩
        rw [← String.toList_inj, String.toList_append, String.toList_ofList, hslash, hc]
        rw [List.reverse_eq_cons_iff] at ht
        exact ht
      · simp [ht, afterOf, hc] at h
  · rintro ⟨rest, rfl⟩
    simp [hslash, afterOf]

theorem unfields_concat_append (separator : Char) (parts : List String) (last more : String) :
    unfields separator (parts ++ [last ++ more]) = unfields separator (parts ++ [last]) ++ more := by
  have key (chars : List (List Char)) (a b : List Char) :
      [separator].intercalate (chars ++ [a ++ b]) = [separator].intercalate (chars ++ [a]) ++ b := by
    induction chars with
    | nil => simp
    | cons first rest ih =>
      cases rest with
      | nil => simp [List.intercalate]
      | cons second rest => simpa using ih
  rw [← String.toList_inj]
  simp [unfields, key]

end Text

namespace Path

/-- What can stand as one name in a directory. -/
structure IsName (name : String) : Prop where
  ne_empty : name ≠ ""
  ne_here : name ≠ "."
  ne_up : name ≠ ".."
  no_slash : '/' ∉ name.toList

namespace IsName

variable {name : String}

theorem not_startsWith (h : IsName name) : Text.startsWith "/" name = false := by
  rw [Bool.eq_false_iff]
  intro hstart
  obtain ⟨rest, rfl⟩ := (Text.startsWith_slash_iff name).1 hstart
  exact h.no_slash (by simp)

theorem not_endsWith (h : IsName name) : Text.endsWith "/" name = false := by
  rw [Bool.eq_false_iff]
  intro hend
  obtain ⟨rest, rfl⟩ := (Text.endsWith_slash_iff name).1 hend
  exact h.no_slash (by simp)

/-- Any character but a dot makes a name of what has no slash. -/
theorem of_mem {c : Char} (hc : c ∈ name.toList) (hdot : c ≠ '.') (hslash : '/' ∉ name.toList) :
    IsName name := by
  refine ⟨?_, ?_, ?_, hslash⟩ <;> rintro rfl
  · simp at hc
  · exact hdot (by simpa using hc)
  · exact hdot (by simpa using hc)

theorem of_no_dot (hne : name ≠ "") (hdot : '.' ∉ name.toList) (hslash : '/' ∉ name.toList) :
    IsName name := by
  refine ⟨hne, ?_, ?_, hslash⟩
  · rintro rfl
    exact hdot (by decide)
  · rintro rfl
    exact hdot (by decide)

theorem fields (h : IsName name) : Text.fields '/' name = [name] := Text.fields_of_not_mem h.no_slash

end IsName

instance (name : String) : Decidable (IsName name) :=
  decidable_of_iff (name ≠ "" ∧ name ≠ "." ∧ name ≠ ".." ∧ '/' ∉ name.toList)
    ⟨fun ⟨h₁, h₂, h₃, h₄⟩ => ⟨h₁, h₂, h₃, h₄⟩, fun h => ⟨h.1, h.2, h.3, h.4⟩⟩

/-- The parts of a path that stay in front of a name pushed onto it. -/
def trunk (p : Path) : List String :=
  if p.text = "" then [] else if Text.endsWith "/" p.text then p.parts.dropLast else p.parts

/-- Only an empty part behind a slash at the end is no part of the trunk. -/
theorem parts_eq_trunk_or (p : Path) : p.parts = p.trunk ∨ p.parts = p.trunk ++ [""] := by
  have hempty : Text.fields '/' "" = [""] := Text.fields_of_not_mem (by simp)
  unfold trunk
  split_ifs with htext hend
  · right
    rw [parts, htext, hempty]
    rfl
  · right
    obtain ⟨rest, hrest⟩ := (Text.endsWith_slash_iff p.text).1 hend
    have hsplit := Text.fields_append_slash rest ""
    rw [String.append_empty, hempty, ← hrest] at hsplit
    rw [parts, hsplit, List.dropLast_concat]
  · left
    rfl

/-- A path onto which a name is pushed with a slash between. -/
structure IsOpen (p : Path) : Prop where
  ne_empty : p.text ≠ ""
  not_endsWith : Text.endsWith "/" p.text = false

namespace IsOpen

variable {p : Path}

theorem trunk (h : IsOpen p) : p.trunk = p.parts := by
  simp [Path.trunk, h.ne_empty, h.not_endsWith]

theorem text_push {name : String} (h : IsOpen p) (hname : IsName name) :
    (p.push name).text = p.text ++ "/" ++ name := by
  simp [push, hname.not_startsWith, h.not_endsWith, h.ne_empty]

end IsOpen

section Names

variable {p : Path} {name : String} {names : List String}

/-- A relative path is pushed behind the trunk. -/
theorem parts_push_of_relative {more : String} (hstart : Text.startsWith "/" more = false) :
    (p.push more).parts = p.trunk ++ Text.fields '/' more := by
  by_cases hempty : p.text = ""
  · simp [push, hstart, hempty, trunk, parts]
  by_cases hend : Text.endsWith "/" p.text = true
  · obtain ⟨rest, hrest⟩ := (Text.endsWith_slash_iff p.text).1 hend
    have hparts : p.parts = Text.fields '/' rest ++ [""] := by
      have := Text.fields_append_slash rest ""
      rw [String.append_empty] at this
      rw [parts, hrest, this]
      rfl
    have hpush : p.push more = ⟨p.text ++ more⟩ := by simp [push, hstart, hend]
    rw [parts, hpush, hrest, Text.fields_append_slash, trunk, if_neg hempty, if_pos hend, hparts,
      List.dropLast_concat]
  · have hpush : (p.push more).text = p.text ++ "/" ++ more := by simp [push, hstart, hend, hempty]
    rw [parts, hpush, Text.fields_append_slash, trunk, if_neg hempty, if_neg hend, parts]

theorem parts_push (hname : IsName name) : (p.push name).parts = p.trunk ++ [name] := by
  rw [parts_push_of_relative hname.not_startsWith, hname.fields]

theorem isOpen_push (hname : IsName name) : IsOpen (p.push name) := by
  have hstart := hname.not_startsWith
  have key (rest : String) : IsOpen ⟨rest ++ name⟩ := by
    refine ⟨fun h => hname.ne_empty (String.append_eq_empty_iff.1 h).2, ?_⟩
    rw [Bool.eq_false_iff]
    intro hend
    obtain ⟨more, hmore⟩ := (Text.endsWith_slash_iff _).1 hend
    have hlast : name.toList.getLast? = some '/' := by
      have hlist := congrArg (List.getLast? ∘ String.toList) hmore
      have hne : name.toList ≠ [] := by simpa using hname.ne_empty
      obtain ⟨init, last, hinit⟩ := List.eq_nil_or_concat name.toList |>.resolve_left hne
      simp [hinit] at hlist ⊢
      exact hlist
    exact hname.no_slash (List.mem_of_getLast? hlast)
  unfold push
  simp only [hstart, Bool.false_eq_true, if_false]
  split
  · exact key p.text
  · exact key (p.text ++ "/")

theorem isAbsolute_push (hname : IsName name) : (p.push name).isAbsolute = p.isAbsolute := by
  have hstart := hname.not_startsWith
  by_cases hempty : p.text = ""
  · simp [push, hstart, hempty, isAbsolute]
    rfl
  · have key (rest : String) : isAbsolute ⟨p.text ++ rest⟩ = p.isAbsolute := by
      rw [Bool.eq_iff_iff, isAbsolute, isAbsolute, Text.startsWith_slash_iff,
        Text.startsWith_slash_iff]
      constructor
      · rintro ⟨more, hmore⟩
        have hne : p.text.toList ≠ [] := by simpa using hempty
        obtain ⟨c, chars, hchars⟩ := List.exists_cons_of_ne_nil hne
        have hlist := congrArg String.toList hmore
        simp only [String.toList_append, hchars] at hlist
        refine ⟨String.ofList chars, ?_⟩
        have hc : c = '/' := (List.cons.inj hlist).1
        rw [← String.toList_inj, String.toList_append, String.toList_ofList, hchars, hc]
        simp
      · rintro ⟨more, hmore⟩
        exact ⟨more ++ rest, by rw [hmore, String.append_assoc]⟩
    unfold push
    simp only [hstart, Bool.false_eq_true, if_false]
    split
    · exact key name
    · rw [String.append_assoc]
      exact key ("/" ++ name)

theorem isOpen_foldl_push (h : IsOpen p) (hnames : ∀ name ∈ names, IsName name) :
    IsOpen (names.foldl push p) := by
  induction names generalizing p with
  | nil => exact h
  | cons name rest ih =>
    exact ih (isOpen_push (hnames name List.mem_cons_self)) fun other hother =>
      hnames other (List.mem_cons_of_mem name hother)

theorem isOpen_foldl_push_of_ne_nil (hne : names ≠ []) (hnames : ∀ name ∈ names, IsName name) :
    IsOpen (names.foldl push p) := by
  obtain ⟨name, rest, rfl⟩ := List.exists_cons_of_ne_nil hne
  rw [List.foldl_cons]
  exact isOpen_foldl_push (isOpen_push (hnames name List.mem_cons_self)) fun other hother =>
    hnames other (List.mem_cons_of_mem name hother)

theorem parts_foldl_push_of_isOpen (h : IsOpen p) (hnames : ∀ name ∈ names, IsName name) :
    (names.foldl push p).parts = p.parts ++ names := by
  induction names generalizing p with
  | nil => simp
  | cons name rest ih =>
    have hname := hnames name List.mem_cons_self
    rw [List.foldl_cons, ih (isOpen_push hname) fun other hother =>
      hnames other (List.mem_cons_of_mem name hother), parts_push hname, h.trunk]
    simp

theorem parts_foldl_push (hne : names ≠ []) (hnames : ∀ name ∈ names, IsName name) :
    (names.foldl push p).parts = p.trunk ++ names := by
  obtain ⟨name, rest, rfl⟩ := List.exists_cons_of_ne_nil hne
  have hname := hnames name List.mem_cons_self
  rw [List.foldl_cons, parts_foldl_push_of_isOpen (isOpen_push hname) fun other hother =>
    hnames other (List.mem_cons_of_mem name hother), parts_push hname]
  simp

theorem isAbsolute_foldl_push (hnames : ∀ name ∈ names, IsName name) :
    (names.foldl push p).isAbsolute = p.isAbsolute := by
  induction names generalizing p with
  | nil => rfl
  | cons name rest ih =>
    rw [List.foldl_cons, ih fun other hother => hnames other (List.mem_cons_of_mem name hother),
      isAbsolute_push (hnames name List.mem_cons_self)]

theorem fields_ofParts (hne : names ≠ []) (hnames : ∀ name ∈ names, IsName name) :
    Text.fields '/' (ofParts names).text = names :=
  Text.fields_unfields '/' names hne fun name hname => (hnames name hname).no_slash

theorem not_startsWith_ofParts (hne : names ≠ []) (hnames : ∀ name ∈ names, IsName name) :
    Text.startsWith "/" (ofParts names).text = false := by
  rw [Bool.eq_false_iff]
  intro h
  obtain ⟨rest, hrest⟩ := (Text.startsWith_slash_iff _).1 h
  have hsplit := Text.fields_append_slash "" rest
  rw [String.empty_append, ← hrest, fields_ofParts hne hnames] at hsplit
  have hmem : "" ∈ names := by
    rw [hsplit]
    exact List.mem_append_left _ (by decide)
  exact (hnames "" hmem).ne_empty rfl

/-- Appending a path of names pushes the names one by one. -/
theorem push_ofParts (hne : names ≠ []) (hnames : ∀ name ∈ names, IsName name) :
    p.push (ofParts names).text = names.foldl push p := by
  rw [← ofParts_parts (p.push _), parts_push_of_relative (not_startsWith_ofParts hne hnames),
    fields_ofParts hne hnames, ← parts_foldl_push hne hnames, ofParts_parts]

theorem trimTail_concat {before : List String} (hname : IsName name) :
    trimTail (before ++ [name]) = before ++ [name] := by
  cases before with
  | nil => rfl
  | cons first rest =>
    simp [trimTail, hname.ne_empty, hname.ne_here]

theorem splitName_of_parts {before : List String} (hname : IsName name)
    (h : p.parts = before ++ [name]) : p.splitName = some (before, name) := by
  unfold splitName
  rw [h, trimTail_concat hname]
  simp [hname.ne_empty, hname.ne_here, hname.ne_up]

theorem fileName_push (hname : IsName name) : (p.push name).fileName = some name := by
  rw [fileName, splitName_of_parts hname (parts_push hname)]
  rfl

/-- What is above a name is what it was pushed onto, if that ends in a name as well. -/
theorem parent_push_push {other : String} (hname : IsName name) (hother : IsName other) :
    ((p.push name).push other).parent = some (p.push name) := by
  have hopen : IsOpen (p.push name) := isOpen_push hname
  have hparts : ((p.push name).push other).parts = p.trunk ++ [name] ++ [other] := by
    rw [parts_push hother, hopen.trunk, parts_push hname]
  have hlong : ∀ parts : List String, parts = p.trunk ++ [name] ++ [other] →
      ∃ a b rest, parts = a :: b :: rest := by
    rintro parts rfl
    cases p.trunk with
    | nil => exact ⟨_, _, _, rfl⟩
    | cons a rest =>
      cases rest with
      | nil => exact ⟨_, _, _, rfl⟩
      | cons b more => exact ⟨_, _, _, rfl⟩
  obtain ⟨a, b, rest, hlist⟩ := hlong _ rfl
  have hup : ofParts (trimTail (a :: b :: rest).dropLast) = p.push name := by
    rw [← hlist, List.dropLast_concat, trimTail_concat hname, ← parts_push hname, ofParts_parts]
  unfold parent
  rw [hparts, trimTail_concat hother, hlist]
  dsimp only
  rw [hup, if_neg hopen.ne_empty]

theorem ancestors_foldl_push {other : String} (limit : Nat) (hne : names ≠ [])
    (hnames : ∀ name ∈ names, IsName name) (hother : IsName other) :
    ancestors (limit + 1) ((names.foldl push p).push other) =
      (names.foldl push p).push other :: ancestors limit (names.foldl push p) := by
  obtain ⟨init, last, rfl⟩ : ∃ init last, names = init ++ [last] :=
    ⟨_, _, (List.dropLast_append_getLast hne).symm⟩
  have hlast := hnames last (by simp)
  rw [List.foldl_append, List.foldl_cons, List.foldl_nil, ancestors,
    if_neg (isOpen_push hother).ne_empty, parent_push_push hlast hother]

theorem length_le_trunk (hnames : ∀ name ∈ names, IsName name) :
    names.length ≤ (names.foldl push p).trunk.length := by
  by_cases hne : names = []
  · simp [hne]
  · rw [(isOpen_foldl_push_of_ne_nil hne hnames).trunk, parts_foldl_push hne hnames]
    simp

end Names

end Path

end Recompile
