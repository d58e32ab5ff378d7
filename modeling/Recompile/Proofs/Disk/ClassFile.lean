import Recompile.Proofs.ClassName
import Recompile.Proofs.Disk.Operation

/-!
# Where class files are

Whatever a class is called, the path of its class file below a directory ends in a name with the
extension of class files, or no file can be there at all. So making or deleting a class file changes
only places with such names.
-/

namespace Recompile

namespace Path

variable {p : Path} {name stem : String}

/-- The name has this extension. -/
def HasExtension (extension name : String) : Prop := ∃ stem, name = stem ++ "." ++ extension

theorem hasExtension_of_splitExtension {extension : String}
    (h : (splitExtension name).2 = some extension) : HasExtension extension name := by
  unfold splitExtension at h
  cases hcut : Text.cutLast? "." name with
  | none => simp [hcut] at h
  | some cut =>
    obtain ⟨stem, tail⟩ := cut
    simp only [hcut] at h
    split_ifs at h
    cases h
    unfold Text.cutLast? at hcut
    rw [Option.map_eq_some_iff] at hcut
    obtain ⟨⟨before, rest⟩, hof, heq⟩ := hcut
    have hdot : (".".toList) ≠ [] := by decide
    obtain ⟨htext, -⟩ := (Text.cutLastOf_eq_some_iff hdot).1 hof
    refine ⟨stem, String.toList_injective ?_⟩
    cases heq
    simpa using htext

theorem extension_push (hname : IsName name) : (p.push name).extension = (splitExtension name).2 := by
  rw [extension, fileName_push hname, Option.bind_some]

theorem hasExtension_push {extension : String} (hname : IsName name)
    (h : (p.push name).extension = some extension) : HasExtension extension name :=
  hasExtension_of_splitExtension (extension_push hname ▸ h)

theorem not_hasExtension_class_of_java (h : HasExtension "java" name) : ¬HasExtension "class" name := by
  rintro ⟨stem, rfl⟩
  obtain ⟨stem', heq⟩ := h
  have hlast := congrArg (fun s => s.toList.getLast?) heq
  simp at hlast

theorem parts_of_splitLast {before : List String} (h : p.splitLast = (before, .name name, false)) :
    p.parts = before ++ [name] := by
  unfold splitLast at h
  set ending := p.parts.reverse.dropWhile (· = "") with hending
  cases hlist : ending with
  | nil => simp [hlist] at h
  | cons last rest =>
    simp only [hlist, Prod.mk.injEq, decide_eq_false_iff_not, not_lt] at h
    obtain ⟨hbefore, hcomponent, hlength⟩ := h
    have hwhole : ending = p.parts.reverse := by
      refine (List.dropWhile_suffix _).eq_of_length_le ?_
      rw [← hending, hlist, List.length_reverse]
      exact hlength
    split_ifs at hcomponent
    cases hcomponent
    rw [← hbefore, ← List.reverse_cons, ← hlist, hwhole, List.reverse_reverse]

theorem exists_parts_of_join {q : Path} {before : List String}
    (h : (p.join q).parts = before ++ [name]) : ∃ init, q.parts = init ++ [name] := by
  unfold join at h
  cases hstart : Text.startsWith "/" q.text with
  | true =>
    rw [push, hstart, if_pos rfl] at h
    exact ⟨before, h⟩
  | false =>
    rw [parts_push_of_relative hstart] at h
    change p.trunk ++ q.parts = before ++ [name] at h
    have hne : q.parts ≠ [] := Text.fields_ne_nil '/' q.text
    have hlast := congrArg List.getLast? h
    rw [List.getLast?_append_of_ne_nil _ hne, List.getLast?_concat] at hlast
    exact ⟨q.parts.dropLast, (List.dropLast_append_getLast? _ hlast).symm⟩

/-- Whatever stands before it, the last name has the extension that was put there. -/
theorem hasExtension_withExtension {before : List String} {extension : String}
    (hslash : '/' ∉ extension.toList) (hname : IsName name)
    (h : (p.withExtension extension).parts = before ++ [name]) : HasExtension extension name := by
  unfold withExtension at h
  cases hsplit : p.splitName with
  | none =>
    rw [hsplit] at h
    rw [splitName_of_parts hname h] at hsplit
    cases hsplit
  | some split =>
    obtain ⟨init, last⟩ := split
    simp only [hsplit] at h
    set text := Text.unfields '/' (init ++ [(splitExtension last).1]) with htext
    obtain ⟨fields, field, hfields⟩ : ∃ fields field, Text.fields '/' text = fields ++ [field] := by
      have hne := Text.fields_ne_nil '/' text
      exact ⟨_, _, (List.dropLast_append_getLast hne).symm⟩
    have hparts : (ofParts (init ++ [(splitExtension last).1 ++ "." ++ extension])).parts =
        fields ++ [field ++ "." ++ extension] := by
      have hfree : ∀ part ∈ fields ++ [field], '/' ∉ part.toList := fun part hpart =>
        Text.not_mem_of_mem_fields (hfields ▸ hpart)
      have hdot : '/' ∉ (".".toList) := by decide
      rw [parts, ofParts, String.append_assoc, Text.unfields_concat_append, ← htext,
        ← Text.unfields_fields '/' text, hfields, ← Text.unfields_concat_append,
        Text.fields_unfields]
      · rw [String.append_assoc]
      · simp
      · intro part hpart
        rcases List.mem_append.1 hpart with hpart | hpart
        · exact hfree part (by simp [hpart])
        · rw [List.mem_singleton.1 hpart]
          simpa [hslash] using hfree field (by simp)
    rw [hparts] at h
    obtain ⟨-, heq⟩ := List.append_inj' h rfl
    exact ⟨field, (List.singleton_inj.1 heq).symm⟩

end Path

namespace Disk

variable {d d' : Disk} {cwd k l m : Location} {p directory : Path} {className name : String}

/-- A place whose last name has the extension of class files. -/
def IsClassPlace (l : Location) : Prop := ∃ k name, l = k ++ [name] ∧ Path.HasExtension "class" name

/-- No link stands where a class file may be. -/
def PlainClasses (d : Disk) : Prop := ∀ l, IsClassPlace l → ∀ target, d.find? l ≠ some (.link target)

theorem walk_of_slot {slash : Bool} (h : d.slot cwd p = .ok ⟨k, .name name, slash⟩) :
    ∃ before, p.splitLast = (before, .name name, slash) ∧
      d.walk true Path.linkLimit (p.start cwd) before = .ok k := by
  unfold slot at h
  rcases hsplit : p.splitLast with ⟨before, last, slash'⟩
  rw [hsplit] at h
  simp only [Except.bind_eq_ok_iff] at h
  obtain ⟨-, -, directory, hwalk, -, -, hslot⟩ := h
  cases last with
  | name text =>
    dsimp only at hslot
    split_ifs at hslot
    · cases hslot
    · cases hslot
      exact ⟨before, rfl, hwalk⟩
  | root => cases hslot
  | here => cases hslot
  | up => cases hslot

/-- A path that ends in a name leads to that name, unless it is a link. -/
theorem resolve_of_slot (h : d.slot cwd p = .ok ⟨k, .name name, false⟩) {follow : Bool} {x : Location}
    (hlink : ∀ target, d.find? (k ++ [name]) ≠ some (.link target))
    (hresolve : d.resolve cwd follow p = .ok x) : x = k ++ [name] := by
  obtain ⟨before, hsplit, hwalk⟩ := walk_of_slot h
  obtain ⟨hname, hsize, hdir⟩ := slot_name h
  unfold Disk.resolve at hresolve
  rw [Except.bind_eq_ok_iff] at hresolve
  obtain ⟨-, -, hresolve⟩ := hresolve
  obtain ⟨left, -, happend⟩ := walk_append Path.linkLimit _ before hwalk
  rw [Path.parts_of_splitLast hsplit, happend follow [name] (by simp),
    walk_names (by simpa using hname) ?_, descend_eq_ok_iff] at hresolve
  · exact hresolve.1
  · intro rest hrest hbefore _
    have hrest' := hbefore.eq_of_length_le (List.length_pos_iff.2 hrest)
    rw [hrest']
    exact hlink

/-- The place where an operation on the file of a class acts. -/
theorem isClassPlace_of_slot
    (h : d.slot cwd (directory.join (ClassName.artifact className)) = .ok ⟨k, .name name, false⟩) :
    IsClassPlace (k ++ [name]) := by
  obtain ⟨before, hsplit, -⟩ := walk_of_slot h
  obtain ⟨init, hparts⟩ := Path.exists_parts_of_join (Path.parts_of_splitLast hsplit)
  exact ⟨k, name, rfl,
    Path.hasExtension_withExtension (by decide) (slot_name h).1 hparts⟩

theorem slot_of_createFile {x : Location} (h : d.createFile cwd p = .ok (x, d')) :
    ∃ k name, d.slot cwd p = .ok ⟨k, .name name, false⟩ := by
  unfold createFile at h
  rw [Except.bind_eq_ok_iff] at h
  obtain ⟨⟨k, last, slash⟩, hslot, h⟩ := h
  cases last with
  | name name =>
    cases slash with
    | false => exact ⟨k, name, hslot⟩
    | true => cases h
  | root => cases h
  | here => cases h
  | up => cases h

/-- Making the file of a class puts an empty file where a file or nothing was. -/
theorem createFile_artifact {x : Location} (tree : d.IsTree) (plain : d.PlainClasses)
    (h : d.createFile cwd (directory.join (ClassName.artifact className)) = .ok (x, d')) :
    IsClassPlace x ∧ x ≠ [] ∧ (∀ e, d.find? x = some e → e.isFile = true) ∧
      ∃ runnable, d' = d.put x (.file .empty runnable) ∧ d'.IsTree := by
  obtain ⟨k, name, hslot⟩ := slot_of_createFile h
  obtain ⟨hname, hsize, hdir⟩ := slot_name hslot
  have hplace := isClassPlace_of_slot hslot
  obtain ⟨hresolve, runnable, rfl, hbefore⟩ := createFile_eq_ok h
  obtain rfl := resolve_of_slot hslot (plain _ hplace) hresolve
  refine ⟨hplace, by simp, fun e he => ?_, runnable, rfl, tree.put hdir hname hsize fun hdirectory => ?_⟩
  · rcases hbefore with hnone | ⟨bytes, hfile⟩
    · simp [hnone] at he
    · rw [hfile] at he
      cases he
      rfl
  · rcases hbefore with hnone | ⟨bytes, hfile⟩
    · simp [hnone] at hdirectory
    · simp [hfile] at hdirectory

end Disk

end Recompile
