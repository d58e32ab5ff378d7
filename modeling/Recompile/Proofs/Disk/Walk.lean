import Mathlib.Tactic.Common
import Recompile.Disk.Resolve
import Recompile.Proofs.Path.Push

/-!
# Where paths lead

A path that leads somewhere still leads there after more was put on the disk. A walk over two lists
of parts is a walk over the first and, from where it ends, a walk over the second. Over names without
a link on the way it only goes down.
-/

namespace Recompile

theorem Except.bind_eq_ok_iff {ε α β : Type} {a : Except ε α} {f : α → Except ε β} {b : β} :
    (a >>= f) = .ok b ↔ ∃ x, a = .ok x ∧ f x = .ok b := by
  cases a <;> simp [bind, Except.bind]

namespace Entry

/-- Entries of one kind; a file may hold other bytes. -/
def Alike : Entry → Entry → Prop
  | file .., file .. => True
  | directory, directory => True
  | link target, link target' => target = target'
  | _, _ => False

theorem Alike.refl (e : Entry) : e.Alike e := by
  cases e with
  | file => trivial
  | directory => trivial
  | link target => rfl

theorem Alike.trans {a b c : Entry} (hab : a.Alike b) (hbc : b.Alike c) : a.Alike c := by
  cases a <;> cases b <;> cases c <;> simp_all [Alike]

@[simp] theorem directory_alike_iff {e : Entry} : directory.Alike e ↔ e = directory := by
  constructor
  · intro h
    cases e with
    | file => exact h.elim
    | directory => rfl
    | link => exact h.elim
  · rintro rfl
    exact .refl _

@[simp] theorem link_alike_iff {target : Path} {e : Entry} :
    (link target).Alike e ↔ e = link target := by
  constructor
  · intro h
    cases e with
    | file => exact h.elim
    | directory => exact h.elim
    | link target' => exact congrArg link (Eq.symm h)
  · rintro rfl
    exact .refl _

end Entry

namespace Path

theorem check_eq_ok_iff {p : Path} :
    p.check = .ok () ↔ '\x00' ∉ p.text.toList ∧ p.text ≠ "" ∧ p.text.utf8ByteSize ≤ sizeLimit := by
  unfold check
  split_ifs <;> simp_all

/-- A path is accepted if it is accepted with a name behind it. -/
theorem IsOpen.check_of_push {p : Path} {name : String} (h : p.IsOpen) (hname : IsName name)
    (hcheck : (p.push name).check = .ok ()) : p.check = .ok () := by
  rw [check_eq_ok_iff, h.text_push hname] at hcheck
  obtain ⟨hzero, -, hsize⟩ := hcheck
  simp only [String.toList_append, List.mem_append, not_or, String.utf8ByteSize_append] at hzero hsize
  exact check_eq_ok_iff.2 ⟨hzero.1.1, h.ne_empty, by omega⟩

/-- A path is accepted with a name behind it if that makes it not too long. -/
theorem IsOpen.check_push {p : Path} {name : String} (h : p.IsOpen) (hname : IsName name)
    (hzero : '\x00' ∉ name.toList) (hcheck : p.check = .ok ())
    (hsize : p.text.utf8ByteSize + 1 + name.utf8ByteSize ≤ sizeLimit) :
    (p.push name).check = .ok () := by
  rw [check_eq_ok_iff] at hcheck
  rw [check_eq_ok_iff, h.text_push hname]
  have hslash : "/".utf8ByteSize = 1 := rfl
  simp only [String.toList_append, List.mem_append, not_or, String.utf8ByteSize_append, hslash]
  exact ⟨⟨⟨hcheck.1, by decide⟩, hzero⟩, by simp, hsize⟩

theorem splitLast_of_parts {p : Path} {before : List String} {name : String}
    (h : p.parts = before ++ [name]) (hname : IsName name) :
    p.splitLast = (before, .name name, false) := by
  simp [splitLast, h, hname.ne_empty, hname.ne_here, hname.ne_up]

end Path

namespace Disk

variable {d d' : Disk}

/-- Everything on the one disk is on the other as well, though a file may hold other bytes. -/
def Keeps (d d' : Disk) : Prop :=
  ∀ l e, d.find? l = some e → ∃ e', d'.find? l = some e' ∧ e.Alike e'

namespace Keeps

theorem refl (d : Disk) : Keeps d d := fun _ e h => ⟨e, h, .refl e⟩

theorem trans {d'' : Disk} (h : Keeps d d') (h' : Keeps d' d'') : Keeps d d'' := by
  intro l e he
  obtain ⟨e', he', hee'⟩ := h l e he
  obtain ⟨e'', he'', hee''⟩ := h' l e' he'
  exact ⟨e'', he'', hee'.trans hee''⟩

theorem of_subset (h : ∀ l e, d.find? l = some e → d'.find? l = some e) : Keeps d d' :=
  fun l e he => ⟨e, h l e he, .refl e⟩

theorem directory (h : Keeps d d') {l : Location} (hl : d.find? l = some .directory) :
    d'.find? l = some .directory := by
  obtain ⟨e, he, halike⟩ := h l _ hl
  rwa [← Entry.directory_alike_iff.1 halike]

theorem link (h : Keeps d d') {l : Location} {target : Path}
    (hl : d.find? l = some (.link target)) : d'.find? l = some (.link target) := by
  obtain ⟨e, he, halike⟩ := h l _ hl
  rwa [← Entry.link_alike_iff.1 halike]

theorem isSome (h : Keeps d d') {l : Location} (hl : (d.find? l).isSome) :
    (d'.find? l).isSome := by
  obtain ⟨e, he⟩ := Option.isSome_iff_exists.1 hl
  obtain ⟨e', he', -⟩ := h l e he
  simp [he']

end Keeps

/-- The directories and the links of the one disk are on the other as well. Files may be gone. -/
def KeepsWays (d d' : Disk) : Prop :=
  ∀ l e, d.find? l = some e → e.isFile = false → d'.find? l = some e

theorem KeepsWays.directory (h : KeepsWays d d') {l : Location}
    (hl : d.find? l = some .directory) : d'.find? l = some .directory := h l _ hl rfl

theorem Keeps.ways (h : Keeps d d') : KeepsWays d d' := by
  intro l e he hfile
  cases e with
  | file => cases hfile
  | directory => exact h.directory he
  | link target => exact h.link he

@[simp] theorem checkDirectory_eq_ok_iff {l : Location} :
    d.checkDirectory l = .ok () ↔ d.find? l = some .directory := by
  unfold checkDirectory
  split <;> simp_all

/-! ## One step of a walk -/

section Step

variable {follow : Bool} {jump : Location → List String → Except Fault Location} {l x : Location}
  {part : String} {rest : List String}

/-- A part that goes down: neither empty nor one of the dots. -/
def GoesDown (part : String) : Prop := part ≠ "" ∧ part ≠ "." ∧ part ≠ ".."

theorem part_cases (part : String) : (part = "" ∨ part = ".") ∨ part = ".." ∨ GoesDown part := by
  unfold GoesDown
  tauto

theorem find?_of_walkUntilLink_cons
    (h : d.walkUntilLink follow jump l (part :: rest) = .ok x) : d.find? l = some .directory := by
  rw [← checkDirectory_eq_ok_iff]
  cases hd : d.checkDirectory l with
  | ok u => rfl
  | error fault =>
    rw [walkUntilLink, hd] at h
    cases h

theorem walkUntilLink_skip (hd : d.find? l = some .directory) (hpart : part = "" ∨ part = ".") :
    d.walkUntilLink follow jump l (part :: rest) = d.walkUntilLink follow jump l rest := by
  rw [walkUntilLink, checkDirectory_eq_ok_iff.2 hd]
  simp [hpart]

theorem walkUntilLink_up (hd : d.find? l = some .directory) :
    d.walkUntilLink follow jump l (".." :: rest) = d.walkUntilLink follow jump l.dropLast rest := by
  rw [walkUntilLink, checkDirectory_eq_ok_iff.2 hd]
  simp

theorem walkUntilLink_long (hd : d.find? l = some .directory) (hpart : GoesDown part)
    (hsize : part.utf8ByteSize > Path.nameLimit) :
    d.walkUntilLink follow jump l (part :: rest) = .error .nameTooLong := by
  rw [walkUntilLink, checkDirectory_eq_ok_iff.2 hd]
  simp [hpart.1, hpart.2.1, hpart.2.2, hsize]

theorem walkUntilLink_down (hd : d.find? l = some .directory) (hpart : GoesDown part)
    (hsize : part.utf8ByteSize ≤ Path.nameLimit)
    (hlink : ∀ target, d.find? (l ++ [part]) ≠ some (.link target)) :
    d.walkUntilLink follow jump l (part :: rest) = d.walkUntilLink follow jump (l ++ [part]) rest := by
  rw [walkUntilLink, checkDirectory_eq_ok_iff.2 hd]
  simp only [hpart.1, hpart.2.1, hpart.2.2, Nat.not_lt.2 hsize, decide_false, Bool.or_false,
    Bool.false_eq_true, if_false]

theorem walkUntilLink_link (hd : d.find? l = some .directory) (hpart : GoesDown part)
    (hsize : part.utf8ByteSize ≤ Path.nameLimit) {target : Path}
    (hlink : d.find? (l ++ [part]) = some (.link target)) :
    d.walkUntilLink follow jump l (part :: rest) =
      if rest = [] && !follow then .ok (l ++ [part])
      else jump (target.start l) (target.parts ++ rest) := by
  rw [walkUntilLink, checkDirectory_eq_ok_iff.2 hd]
  simp only [hpart.1, hpart.2.1, hpart.2.2, Nat.not_lt.2 hsize, hlink, decide_false, Bool.or_false,
    Bool.false_eq_true, if_false]

theorem size_of_walkUntilLink_cons (hpart : GoesDown part)
    (h : d.walkUntilLink follow jump l (part :: rest) = .ok x) :
    part.utf8ByteSize ≤ Path.nameLimit := by
  by_contra hsize
  rw [walkUntilLink_long (find?_of_walkUntilLink_cons h) hpart (Nat.not_le.1 hsize)] at h
  cases h

end Step

section Keeps

variable {follow : Bool} {x : Location}

/-- A walk ends where it ended if the directories and links on the way are still there, unless a link
was put where it ends. -/
theorem walkUntilLink_of_ways {jump jump' : Location → List String → Except Fault Location}
    (ways : KeepsWays d d')
    (hlink : ∀ target, d'.find? x = some (.link target) → d.find? x = some (.link target))
    (hjump : ∀ l parts, jump l parts = .ok x → jump' l parts = .ok x) (l : Location)
    (parts : List String) (h : d.walkUntilLink follow jump l parts = .ok x) :
    d'.walkUntilLink follow jump' l parts = .ok x := by
  induction parts generalizing l with
  | nil => exact h
  | cons part rest ih =>
    have hd := find?_of_walkUntilLink_cons h
    have hd' := ways.directory hd
    rcases part_cases part with hskip | rfl | hdown
    · rw [walkUntilLink_skip hd hskip] at h
      rw [walkUntilLink_skip hd' hskip]
      exact ih l h
    · rw [walkUntilLink_up hd] at h
      rw [walkUntilLink_up hd']
      exact ih l.dropLast h
    · have hsize := size_of_walkUntilLink_cons hdown h
      by_cases hl : ∃ target, d.find? (l ++ [part]) = some (.link target)
      · obtain ⟨target, htarget⟩ := hl
        rw [walkUntilLink_link hd hdown hsize htarget] at h
        rw [walkUntilLink_link hd' hdown hsize (ways _ _ htarget rfl)]
        split_ifs at h ⊢
        · exact h
        · exact hjump _ _ h
      · have hplain := not_exists.1 hl
        rw [walkUntilLink_down hd hdown hsize hplain] at h
        rw [walkUntilLink_down hd' hdown hsize]
        · exact ih _ h
        intro target htarget
        cases rest with
        | nil =>
          -- the walk ends here, where no link was put
          simp only [walkUntilLink_nil, Except.ok.injEq] at h
          subst h
          exact hplain target (hlink target htarget)
        | cons next more =>
          -- the walk goes on, so that a directory is here
          have hdir := ways.directory (find?_of_walkUntilLink_cons h)
          rw [htarget] at hdir
          cases hdir

theorem walk_of_ways (ways : KeepsWays d d')
    (hlink : ∀ target, d'.find? x = some (.link target) → d.find? x = some (.link target))
    (links : Nat) (l : Location) (parts : List String) (h : d.walk follow links l parts = .ok x) :
    d'.walk follow links l parts = .ok x := by
  induction links generalizing l parts with
  | zero => exact walkUntilLink_of_ways ways hlink (fun _ _ h => h) l parts h
  | succ links ih => exact walkUntilLink_of_ways ways hlink ih l parts h

theorem resolve_of_ways (ways : KeepsWays d d')
    (hlink : ∀ target, d'.find? x = some (.link target) → d.find? x = some (.link target))
    {cwd : Location} {p : Path} (h : d.resolve cwd follow p = .ok x) :
    d'.resolve cwd follow p = .ok x := by
  unfold resolve at h ⊢
  cases hcheck : p.check with
  | error fault =>
    rw [hcheck] at h
    cases h
  | ok u =>
    rw [hcheck] at h
    exact walk_of_ways ways hlink _ _ _ h

/-- A path that leads to something leads there as well when more is on the disk; so does one that
leads to nothing if no link was put there. -/
theorem resolve_of_keeps (keeps : Keeps d d')
    (hlink : ∀ target, d'.find? x = some (.link target) → (d.find? x).isSome) {cwd : Location}
    {p : Path} (h : d.resolve cwd follow p = .ok x) : d'.resolve cwd follow p = .ok x := by
  refine resolve_of_ways keeps.ways (fun target htarget => ?_) h
  obtain ⟨e, he⟩ := Option.isSome_iff_exists.1 (hlink target htarget)
  obtain ⟨e', he', halike⟩ := keeps _ _ he
  rw [htarget] at he'
  cases he'
  cases e with
  | link target' => rw [he, Entry.link_alike_iff.1 halike]
  | file bytes runnable => exact halike.elim
  | directory => exact halike.elim

end Keeps

section Append

/-- A walk over two lists of parts either gets through the first without a link, or the first link
on the way is met in the first list. -/
theorem walkUntilLink_append {jump : Location → List String → Except Fault Location}
    {x : Location} (l : Location) (parts : List String)
    (h : d.walkUntilLink true jump l parts = .ok x) :
    (∀ follow jump' rest, rest ≠ [] →
      d.walkUntilLink follow jump' l (parts ++ rest) = d.walkUntilLink follow jump' x rest) ∨
    ∃ l' parts', jump l' parts' = .ok x ∧ ∀ follow jump' rest, rest ≠ [] →
      d.walkUntilLink follow jump' l (parts ++ rest) = jump' l' (parts' ++ rest) := by
  induction parts generalizing l with
  | nil =>
    left
    intro follow jump' rest _
    simp only [walkUntilLink_nil, Except.ok.injEq] at h
    rw [h, List.nil_append]
  | cons part more ih =>
    have hd := find?_of_walkUntilLink_cons h
    rcases part_cases part with hskip | rfl | hdown
    · rw [walkUntilLink_skip hd hskip] at h
      simp only [List.cons_append, walkUntilLink_skip hd hskip]
      exact ih l h
    · rw [walkUntilLink_up hd] at h
      simp only [List.cons_append, walkUntilLink_up hd]
      exact ih l.dropLast h
    · have hsize := size_of_walkUntilLink_cons hdown h
      by_cases hl : ∃ target, d.find? (l ++ [part]) = some (.link target)
      · obtain ⟨target, htarget⟩ := hl
        right
        rw [walkUntilLink_link hd hdown hsize htarget, if_neg (by simp)] at h
        refine ⟨_, _, h, fun follow jump' rest hrest => ?_⟩
        rw [List.cons_append, walkUntilLink_link hd hdown hsize htarget, if_neg (by simp [hrest]),
          List.append_assoc]
      · rw [walkUntilLink_down hd hdown hsize (not_exists.1 hl)] at h
        simp only [List.cons_append, walkUntilLink_down hd hdown hsize (not_exists.1 hl)]
        exact ih _ h

/-- A walk over two lists of parts goes on from where the walk over the first ends, with the links
that are left. -/
theorem walk_append {x : Location} (links : Nat) (l : Location) (parts : List String)
    (h : d.walk true links l parts = .ok x) :
    ∃ left ≤ links, ∀ follow rest, rest ≠ [] →
      d.walk follow links l (parts ++ rest) = d.walk follow left x rest := by
  induction links generalizing l parts with
  | zero =>
    refine ⟨0, Nat.le_refl 0, fun follow rest hrest => ?_⟩
    rcases walkUntilLink_append l parts h with hplain | ⟨l', parts', hjump, -⟩
    · exact hplain follow _ rest hrest
    · cases hjump
  | succ links ih =>
    rcases walkUntilLink_append l parts h with hplain | ⟨l', parts', hjump, hrest⟩
    · exact ⟨links + 1, Nat.le_refl _, fun follow rest hne => hplain follow _ rest hne⟩
    · obtain ⟨left, hleft, hwalk⟩ := ih l' parts' hjump
      refine ⟨left, Nat.le_succ_of_le hleft, fun follow rest hne => ?_⟩
      rw [← hwalk follow rest hne]
      exact hrest follow _ rest hne

end Append

/-! ## Names pushed onto a path -/

section Names

variable {follow : Bool} {cwd l s x : Location} {p : Path} {name : String} {names : List String}

theorem GoesDown.of_isName (h : Path.IsName name) : GoesDown name := ⟨h.ne_empty, h.ne_here, h.ne_up⟩

/-- Goes down over names, through directories only. -/
def descend (d : Disk) (l : Location) : List String → Except Fault Location
  | [] => .ok l
  | name :: rest =>
    match d.checkDirectory l with
    | .error fault => .error fault
    | .ok () =>
      if name.utf8ByteSize > Path.nameLimit then .error .nameTooLong
      else d.descend (l ++ [name]) rest

theorem descend_eq_ok_iff :
    d.descend l names = .ok x ↔
      x = l ++ names ∧ ∀ before name after, names = before ++ name :: after →
        d.find? (l ++ before) = some .directory ∧ name.utf8ByteSize ≤ Path.nameLimit := by
  induction names generalizing l with
  | nil => simp [descend, eq_comm]
  | cons name rest ih =>
    unfold descend
    cases hd : d.checkDirectory l with
    | error fault =>
      have hnot : d.find? l ≠ some .directory := by
        rw [Ne, ← checkDirectory_eq_ok_iff, hd]
        simp
      constructor
      · rintro ⟨⟩
      · rintro ⟨-, h⟩
        exact absurd (by simpa using (h [] name rest rfl).1) hnot
    | ok u =>
      rw [checkDirectory_eq_ok_iff] at hd
      dsimp only
      by_cases hsize : name.utf8ByteSize > Path.nameLimit
      · rw [if_pos hsize]
        constructor
        · rintro ⟨⟩
        · rintro ⟨-, h⟩
          exact absurd (h [] name rest rfl).2 (Nat.not_le.2 hsize)
      · rw [if_neg hsize, ih, List.append_assoc, List.singleton_append]
        refine and_congr_right fun _ => ⟨fun h before other after heq => ?_, fun h before other after
          heq => ?_⟩
        · cases before with
          | nil =>
            simp only [List.nil_append, List.cons.injEq] at heq
            rw [List.append_nil, ← heq.1]
            exact ⟨hd, Nat.not_lt.1 hsize⟩
          | cons first before =>
            simp only [List.cons_append, List.cons.injEq] at heq
            simpa [heq.1] using h before other after heq.2
        · simpa using h (name :: before) other after (by rw [heq, List.cons_append])

/-- None of the names on the way down is a link; the last one may be, if it is not followed. -/
def NoLinks (d : Disk) (follow : Bool) (l : Location) (names : List String) : Prop :=
  ∀ rest, rest ≠ [] → rest <+: names → (rest = names → follow = true) → ∀ target,
    d.find? (l ++ rest) ≠ some (.link target)

/-- Over names without a link on the way a walk goes down. -/
theorem walkUntilLink_names {jump : Location → List String → Except Fault Location}
    (hnames : ∀ name ∈ names, Path.IsName name) (hlinks : d.NoLinks follow l names) :
    d.walkUntilLink follow jump l names = d.descend l names := by
  induction names generalizing l with
  | nil => rfl
  | cons name rest ih =>
    have hdown := GoesDown.of_isName (hnames name List.mem_cons_self)
    cases hd : d.checkDirectory l with
    | error fault => rw [walkUntilLink, descend, hd]
    | ok u =>
      have hdir := checkDirectory_eq_ok_iff.1 hd
      rw [descend, hd]
      dsimp only
      by_cases hsize : name.utf8ByteSize > Path.nameLimit
      · rw [if_pos hsize, walkUntilLink_long hdir hdown hsize]
      rw [if_neg hsize]
      have hsize := Nat.not_lt.1 hsize
      by_cases hlast : rest = [] ∧ follow = false
      · -- the last name is not followed, whether it is a link or not
        obtain ⟨rfl, rfl⟩ := hlast
        by_cases hl : ∃ target, d.find? (l ++ [name]) = some (.link target)
        · obtain ⟨target, htarget⟩ := hl
          rw [walkUntilLink_link hdir hdown hsize htarget]
          rfl
        · rw [walkUntilLink_down hdir hdown hsize (not_exists.1 hl)]
          rfl
      · have hlink : ∀ target, d.find? (l ++ [name]) ≠ some (.link target) := by
          refine hlinks [name] (by simp) (by simp) fun heq => ?_
          have hrest : rest = [] := by simpa using heq.symm
          simpa [hrest] using hlast
        rw [walkUntilLink_down hdir hdown hsize hlink]
        refine ih (fun other hother => hnames other (List.mem_cons_of_mem name hother)) ?_
        intro more hne hmore hall target
        have := hlinks (name :: more) (by simp) (by simpa using hmore)
          (fun heq => hall (by simpa using heq)) target
        simpa using this

theorem walk_names (hnames : ∀ name ∈ names, Path.IsName name) (hlinks : d.NoLinks follow l names)
    (links : Nat) : d.walk follow links l names = d.descend l names := by
  cases links <;> exact walkUntilLink_names hnames hlinks

/-- The names that are pushed onto the path go down from the directory `s`. -/
structure Leads (d : Disk) (cwd : Location) (p : Path) (s : Location) : Prop where
  walk : d.walk true Path.linkLimit (p.start cwd) p.trunk = .ok s
  directory : d.find? s = some .directory

theorem leads_iff {s : Location} : Leads d cwd p s ↔
    (d.walk true Path.linkLimit (p.start cwd) p.trunk).toOption = some s ∧
      (d.find? s).any Entry.isDirectory := by
  refine ⟨fun h => by simp [h.walk, h.directory, Except.toOption, Entry.isDirectory], ?_⟩
  rintro ⟨hwalk, hdir⟩
  constructor
  · cases hon : d.walk true Path.linkLimit (p.start cwd) p.trunk with
    | error fault => simp [hon, Except.toOption] at hwalk
    | ok m => simpa [hon, Except.toOption] using hwalk
  · cases hfind : d.find? s with
    | none => simp [hfind] at hdir
    | some e => cases e <;> simp_all [Entry.isDirectory]

instance (d : Disk) (cwd : Location) (p : Path) (s : Location) : Decidable (Leads d cwd p s) :=
  decidable_of_iff _ leads_iff.symm

theorem start_push (hname : Path.IsName name) : (p.push name).start cwd = p.start cwd := by
  simp [Path.start, Path.isAbsolute_push hname]

theorem start_foldl_push (hnames : ∀ name ∈ names, Path.IsName name) :
    (names.foldl Path.push p).start cwd = p.start cwd := by
  simp [Path.start, Path.isAbsolute_foldl_push hnames]

namespace Leads

theorem of_ways (h : Leads d cwd p s) (ways : KeepsWays d d') : Leads d' cwd p s := by
  have hdir := ways.directory h.directory
  exact ⟨walk_of_ways ways (fun _ hlink => by simp [hdir] at hlink) _ _ _ h.walk, hdir⟩

theorem of_keeps (h : Leads d cwd p s) (keeps : Keeps d d') : Leads d' cwd p s :=
  h.of_ways keeps.ways

/-- An open path that leads to a directory. -/
theorem of_resolve (hopen : p.IsOpen) (hresolve : d.resolve cwd true p = .ok s)
    (hdirectory : d.find? s = some .directory) : Leads d cwd p s := by
  refine ⟨?_, hdirectory⟩
  rw [hopen.trunk]
  unfold resolve at hresolve
  cases hcheck : p.check with
  | ok u =>
    rw [hcheck] at hresolve
    exact hresolve
  | error fault =>
    rw [hcheck] at hresolve
    cases hresolve

theorem unique {s' : Location} (h : Leads d cwd p s) (h' : Leads d cwd p s') : s = s' := by
  have := h.walk.symm.trans h'.walk
  exact Except.ok.inj this

theorem walk_append (h : Leads d cwd p s) (hne : names ≠ [])
    (hnames : ∀ name ∈ names, Path.IsName name) (hlinks : d.NoLinks follow s names) :
    d.walk follow Path.linkLimit (p.start cwd) (p.trunk ++ names) = d.descend s names := by
  obtain ⟨left, -, hwalk⟩ := Disk.walk_append _ _ _ h.walk
  rw [hwalk follow names hne, walk_names hnames hlinks]

/-- Where names pushed onto the path lead, if no link is on the way. -/
theorem resolve (h : Leads d cwd p s) (hne : names ≠ [])
    (hnames : ∀ name ∈ names, Path.IsName name) (hlinks : d.NoLinks follow s names) :
    d.resolve cwd follow (names.foldl Path.push p) = (do
      (names.foldl Path.push p).check
      d.descend s names) := by
  unfold Disk.resolve
  rw [start_foldl_push hnames, Path.parts_foldl_push hne hnames, h.walk_append hne hnames hlinks]

theorem push (h : Leads d cwd p s) (hname : Path.IsName name)
    (hsize : name.utf8ByteSize ≤ Path.nameLimit)
    (hdirectory : d.find? (s ++ [name]) = some .directory) :
    Leads d cwd (p.push name) (s ++ [name]) := by
  have hnames : ∀ other ∈ [name], Path.IsName other := by simpa using hname
  have hlinks : d.NoLinks true s [name] := by
    intro rest hne hprefix _ target
    rcases List.prefix_cons_iff.1 hprefix with rfl | ⟨more, rfl, hmore⟩
    · exact absurd rfl hne
    · rw [List.prefix_nil.1 hmore, hdirectory]
      simp
  have hdescend : d.descend s [name] = .ok (s ++ [name]) := by
    simp [descend, checkDirectory_eq_ok_iff.2 h.directory, Nat.not_lt.2 hsize]
  refine ⟨?_, hdirectory⟩
  rw [(Path.isOpen_push hname).trunk, Path.parts_push hname, start_push hname, ← hdescend]
  exact h.walk_append (by simp) hnames hlinks

/-- What leads where after names were pushed, if no link is on the way. -/
theorem foldl_push_iff (h : Leads d cwd p s) (hnames : ∀ name ∈ names, Path.IsName name)
    (hlinks : d.NoLinks true s names) :
    Leads d cwd (names.foldl Path.push p) x ↔
      d.descend s names = .ok x ∧ d.find? x = some .directory := by
  by_cases hne : names = []
  · subst hne
    simp only [List.foldl_nil, descend, Except.ok.injEq]
    constructor
    · intro hx
      exact ⟨h.unique hx, hx.directory⟩
    · rintro ⟨rfl, -⟩
      exact h
  · have hwalk : d.walk true Path.linkLimit ((names.foldl Path.push p).start cwd)
        (names.foldl Path.push p).trunk = d.descend s names := by
      rw [(Path.isOpen_foldl_push_of_ne_nil hne hnames).trunk, Path.parts_foldl_push hne hnames, start_foldl_push hnames,
        h.walk_append hne hnames hlinks]
    constructor
    · intro hx
      exact ⟨hwalk ▸ hx.walk, hx.directory⟩
    · rintro ⟨hx, hdirectory⟩
      exact ⟨hwalk.trans hx, hdirectory⟩

end Leads

/-- The slot of a name that is pushed onto a path that leads to a directory. -/
theorem Leads.slot_push (h : Leads d cwd p s) (hname : Path.IsName name) :
    d.slot cwd (p.push name) = (do
      (p.push name).check
      if name.utf8ByteSize > Path.nameLimit then .error .nameTooLong
      else .ok ⟨s, .name name, false⟩) := by
  have hparts := Path.parts_push (p := p) hname
  unfold Disk.slot
  rw [Path.splitLast_of_parts hparts hname, start_push hname]
  dsimp only
  rw [h.walk]
  cases hcheck : (p.push name).check with
  | error fault => rfl
  | ok u =>
    simp only [bind, Except.bind, checkDirectory_eq_ok_iff.2 h.directory]
    split_ifs <;> rfl

/-- When a name that is pushed onto a path has a slot. -/
theorem slot_push_eq_ok_iff {slot : Slot} (hname : Path.IsName name) :
    d.slot cwd (p.push name) = .ok slot ↔
      (p.push name).check = .ok () ∧ name.utf8ByteSize ≤ Path.nameLimit ∧
        ∃ s, Leads d cwd p s ∧ slot = ⟨s, .name name, false⟩ := by
  have hparts := Path.parts_push (p := p) hname
  unfold Disk.slot
  rw [Path.splitLast_of_parts hparts hname, start_push hname]
  simp only [Except.bind_eq_ok_iff]
  constructor
  · rintro ⟨_, hcheck, s, hwalk, _, hd, hslot⟩
    split_ifs at hslot with hlong
    · cases hslot
    · exact ⟨hcheck, Nat.not_lt.1 hlong, s, ⟨hwalk, checkDirectory_eq_ok_iff.1 hd⟩,
        (Except.ok.inj hslot).symm⟩
  · rintro ⟨hcheck, hsize, s, hleads, rfl⟩
    refine ⟨(), hcheck, s, hleads.walk, (), checkDirectory_eq_ok_iff.2 hleads.directory, ?_⟩
    rw [if_neg (Nat.not_lt.2 hsize)]
    rfl

end Names

end Disk

end Recompile
