import Recompile.Proofs.Disk.Contents
import Recompile.Proofs.Disk.Walk

/-!
# Disks that are trees

On a tree whatever stands at a place stands in a directory and has a proper name there. So nothing
stands below a place where there is no directory, and every operation that puts entries into
directories, or takes away whole subtrees, leaves a tree.
-/

namespace Recompile.Disk

variable {d : Disk} {l m s x : Location} {e : Entry} {name : String} {names rest : List String}

/-- Every entry stands in a directory and has a name that can be one. -/
structure IsTree (d : Disk) : Prop where
  parent : ∀ l name e, d.find? (l ++ [name]) = some e → d.find? l = some .directory
  isName : ∀ l name e, d.find? (l ++ [name]) = some e →
    Path.IsName name ∧ name.utf8ByteSize ≤ Path.nameLimit

/-- Whether every entry stands in a directory and has a name that can be one. -/
def isWellFormed (d : Disk) : Bool :=
  d.entries.all fun e =>
    match e.1.getLast? with
    | none => true
    | some name => (d.find? e.1.dropLast).any Entry.isDirectory && decide (Path.IsName name) &&
        decide (name.utf8ByteSize ≤ Path.nameLimit)

theorem isTree_of_isWellFormed (h : d.isWellFormed = true) : IsTree d := by
  have key (l : Location) (name : String) (e : Entry) (hfind : d.find? (l ++ [name]) = some e) :
      d.find? l = some .directory ∧ Path.IsName name ∧ name.utf8ByteSize ≤ Path.nameLimit := by
    have hmem := (d.find?_eq_some_iff (by simp)).1 hfind
    have hentry := List.all_eq_true.1 h _ hmem
    simp only [List.getLast?_append, List.getLast?_singleton, Option.some_or, List.dropLast_concat,
      Bool.and_eq_true, decide_eq_true_eq] at hentry
    obtain ⟨⟨hdir, hname⟩, hsize⟩ := hentry
    refine ⟨?_, hname, hsize⟩
    cases hparent : d.find? l with
    | none => simp [hparent] at hdir
    | some parent => cases parent <;> simp_all [Entry.isDirectory]
  exact ⟨fun l name e hfind => (key l name e hfind).1, fun l name e hfind => (key l name e hfind).2⟩

namespace IsTree

theorem directory_of_append (tree : IsTree d) (h : d.find? (l ++ rest) = some e)
    (hne : rest ≠ []) : d.find? l = some .directory := by
  induction rest using List.reverseRecOn generalizing e with
  | nil => exact absurd rfl hne
  | append_singleton init last ih =>
    rw [← List.append_assoc] at h
    have hdir := tree.parent _ _ _ h
    by_cases hinit : init = []
    · simpa [hinit] using hdir
    · exact ih hdir hinit

theorem directory_of_concat_append (tree : IsTree d) {before after : List String}
    (h : d.find? (l ++ names) = some e) (hnames : names = before ++ name :: after) :
    d.find? (l ++ before) = some .directory ∧ Path.IsName name ∧
      name.utf8ByteSize ≤ Path.nameLimit := by
  subst hnames
  have hdir : d.find? (l ++ before) = some .directory := by
    rw [← List.append_assoc] at h
    exact tree.directory_of_append h (by simp)
  have hat : ∃ e', d.find? (l ++ before ++ [name]) = some e' := by
    have heq : l ++ (before ++ name :: after) = l ++ before ++ [name] ++ after := by simp
    rw [heq] at h
    by_cases hafter : after = []
    · subst hafter
      exact ⟨e, by simpa using h⟩
    · exact ⟨_, tree.directory_of_append h hafter⟩
  obtain ⟨e', he'⟩ := hat
  exact ⟨hdir, tree.isName _ _ _ he'⟩

/-- What lies above a place in a directory, on the way to it, is there. -/
theorem isSome_of_covers (tree : IsTree d) (hdir : d.find? l = some .directory)
    (hcovers : m.covers (l ++ [name]) = true) (hm : Location.covers (l ++ [name]) m = false) :
    (d.find? m).isSome := by
  rcases Location.covers_concat_iff.1 hcovers with rfl | habove
  · rw [Location.covers_self] at hm
    cases hm
  · obtain ⟨rest, rfl⟩ := Location.covers_iff.1 habove
    by_cases hrest : rest = []
    · rw [hrest, List.append_nil] at hdir
      rw [hdir]
      rfl
    · rw [tree.directory_of_append hdir hrest]
      rfl

theorem isName_of_mem (tree : IsTree d) (h : d.find? (l ++ names) = some e) (hname : name ∈ names) :
    Path.IsName name := by
  obtain ⟨before, after, rfl⟩ := List.append_of_mem hname
  exact (tree.directory_of_concat_append h rfl).2.1

/-- Nothing stands below what is not a directory. -/
theorem find?_append (tree : IsTree d) (h : d.find? l ≠ some .directory) (hne : rest ≠ []) :
    d.find? (l ++ rest) = none := by
  cases hfind : d.find? (l ++ rest) with
  | none => rfl
  | some e => exact absurd (tree.directory_of_append hfind hne) h

/-- Names lead down to whatever stands there. -/
theorem descend_of_find? (tree : IsTree d) (h : d.find? (l ++ names) = some e) :
    d.descend l names = .ok (l ++ names) := by
  rw [descend_eq_ok_iff]
  refine ⟨rfl, fun before name after heq => ?_⟩
  obtain ⟨hdir, -, hsize⟩ := tree.directory_of_concat_append h heq
  exact ⟨hdir, hsize⟩

theorem descend_and_directory_iff (tree : IsTree d) :
    d.descend l names = .ok x ∧ d.find? x = some .directory ↔
      x = l ++ names ∧ d.find? x = some .directory := by
  constructor
  · rintro ⟨hdescend, hdir⟩
    exact ⟨(descend_eq_ok_iff.1 hdescend).1, hdir⟩
  · rintro ⟨rfl, hdir⟩
    exact ⟨tree.descend_of_find? hdir, hdir⟩

/-- Nothing is taken away where there is nothing. -/
theorem erase_of_none (tree : IsTree d) (hne : l ≠ []) (h : d.find? l = none) : d.erase l = d := by
  have hentries : d.entries.filter (fun e => !l.covers e.1) = d.entries := by
    rw [List.filter_eq_self]
    rintro ⟨m, e⟩ hmem
    rw [Bool.not_eq_true']
    by_contra hcovers
    rw [Bool.not_eq_false] at hcovers
    obtain ⟨rest, rfl⟩ := Location.covers_iff.1 hcovers
    have hfind := (d.find?_eq_some_iff (by simp [hne])).2 hmem
    by_cases hrest : rest = []
    · simp [hrest, h] at hfind
    · simp [tree.directory_of_append hfind hrest] at h
  cases d
  simpa [Disk.erase] using hentries

/-! ## What leaves a tree -/

theorem put (tree : IsTree d) (hdir : d.find? l = some .directory) (hname : Path.IsName name)
    (hsize : name.utf8ByteSize ≤ Path.nameLimit)
    (hkeep : d.find? (l ++ [name]) = some .directory → e = .directory) :
    (d.put (l ++ [name]) e).IsTree := by
  have hne : l ++ [name] ≠ [] := by simp
  have hself : l ≠ l ++ [name] := by simp
  constructor
  · intro k other e' h
    rw [find?_put _ hne] at h ⊢
    by_cases hk : k = l ++ [name]
    · subst hk
      rw [if_pos rfl]
      have hlong : l ++ [name] ++ [other] ≠ l ++ [name] := by simp
      rw [if_neg hlong] at h
      rw [hkeep (tree.parent _ _ _ h)]
    · rw [if_neg hk]
      by_cases heq : k ++ [other] = l ++ [name]
      · obtain ⟨rfl, -⟩ := List.append_inj' heq rfl
        exact hdir
      · rw [if_neg heq] at h
        exact tree.parent _ _ _ h
  · intro k other e' h
    rw [find?_put _ hne] at h
    by_cases heq : k ++ [other] = l ++ [name]
    · obtain ⟨rfl, hlast⟩ := List.append_inj' heq rfl
      simp only [List.cons.injEq, and_true] at hlast
      subst hlast
      exact ⟨hname, hsize⟩
    · rw [if_neg heq] at h
      exact tree.isName _ _ _ h

theorem erase (tree : IsTree d) (l : Location) : (d.erase l).IsTree := by
  constructor
  · intro k other e' h
    rw [find?_erase] at h ⊢
    split_ifs at h with hcond
    have hk := tree.parent _ _ _ h
    rw [if_neg]
    · exact hk
    · rintro ⟨-, hcovers⟩
      exact hcond ⟨by simp, Location.covers_append_of_covers hcovers _⟩
  · intro k other e' h
    rw [find?_erase] at h
    split_ifs at h
    exact tree.isName _ _ _ h

theorem clear (tree : IsTree d) (l : Location) : (d.clear l).IsTree := by
  constructor
  · intro k other e' h
    rw [find?_clear] at h ⊢
    split_ifs at h with hcond
    have hk := tree.parent _ _ _ h
    rw [if_neg]
    · exact hk
    · rintro ⟨hcovers, -, -⟩
      refine hcond ⟨Location.covers_append_of_covers hcovers _, ?_, by simp⟩
      rintro rfl
      obtain ⟨more, hmore⟩ := Location.covers_iff.1 hcovers
      simpa using congrArg List.length hmore
  · intro k other e' h
    rw [find?_clear] at h
    split_ifs at h
    exact tree.isName _ _ _ h

theorem move (tree : IsTree d) {source : Location} {k : Location} (hsource : source ≠ [])
    (hst : source.covers (k ++ [name]) = false) (hts : Location.covers (k ++ [name]) source = false)
    (hdir : d.find? k = some .directory) (hname : Path.IsName name)
    (hsize : name.utf8ByteSize ≤ Path.nameLimit) : (d.move source (k ++ [name])).IsTree := by
  have hfind := d.find?_move hsource (by simp) hst hts
  have hsk : source.covers k = false := by
    rw [Bool.eq_false_iff]
    intro h
    rw [Location.covers_append_of_covers h] at hst
    cases hst
  -- below the target, what holds is what holds below the source
  have hbelow (rest : List String) :
      (d.move source (k ++ [name])).find? (k ++ [name] ++ rest) = d.find? (source ++ rest) := by
    rw [hfind, if_neg, if_pos (Location.covers_append _ _), List.drop_left]
    rw [Location.Apart.not_covers ⟨hts, hst⟩ (Location.covers_append _ rest)]
    simp
  have key (l : Location) (other : String) (e : Entry)
      (h : (d.move source (k ++ [name])).find? (l ++ [other]) = some e) :
      (d.move source (k ++ [name])).find? l = some .directory ∧
        Path.IsName other ∧ other.utf8ByteSize ≤ Path.nameLimit := by
    by_cases hcovers : Location.covers (k ++ [name]) (l ++ [other]) = true
    · rcases Location.covers_concat_iff.1 hcovers with heq | hcovers
      · obtain ⟨rfl, hlast⟩ := List.append_inj' heq rfl
        simp only [List.cons.injEq, and_true] at hlast
        subst hlast
        refine ⟨?_, hname, hsize⟩
        rw [hfind, if_neg (by simp [hsk]), if_neg, hdir]
        rw [Location.not_covers_parent]
        exact Bool.false_ne_true
      · obtain ⟨rest, rfl⟩ := Location.covers_iff.1 hcovers
        rw [List.append_assoc, hbelow, ← List.append_assoc] at h
        rw [hbelow]
        exact ⟨tree.parent _ _ _ h, tree.isName _ _ _ h⟩
    · rw [hfind] at h
      split_ifs at h with hs
      refine ⟨?_, tree.isName _ _ _ h⟩
      rw [hfind, if_neg, if_neg]
      · exact tree.parent _ _ _ h
      · exact fun hc => hcovers (Location.covers_append_of_covers hc _)
      · exact fun hc => hs (Location.covers_append_of_covers hc _)
  exact ⟨fun l other e h => (key l other e h).1, fun l other e h => (key l other e h).2⟩

end IsTree

/-! ## Where paths lead on a tree -/

theorem IsTree.directory_dropLast (tree : IsTree d) (h : d.find? l = some e) :
    d.find? l.dropLast = some .directory := by
  rcases List.eq_nil_or_concat l with rfl | ⟨above, last, rfl⟩
  · exact d.find?_nil
  · rw [List.concat_eq_append] at h ⊢
    rw [List.dropLast_concat]
    exact tree.parent _ _ _ h

theorem IsTree.directory_above_of_walkUntilLink (tree : IsTree d) {follow : Bool}
    {jump : Location → List String → Except Fault Location}
    (hjump : ∀ l parts, parts ≠ [] → jump l parts = .ok x → d.find? x.dropLast = some .directory)
    (l : Location) (parts : List String)
    (hl : parts = [] → d.find? l.dropLast = some .directory)
    (h : d.walkUntilLink follow jump l parts = .ok x) : d.find? x.dropLast = some .directory := by
  induction parts generalizing l with
  | nil =>
    cases h
    exact hl rfl
  | cons part rest ih =>
    have hd := find?_of_walkUntilLink_cons h
    have habove := tree.directory_dropLast hd
    rcases part_cases part with hskip | rfl | hdown
    · rw [walkUntilLink_skip hd hskip] at h
      exact ih l (fun _ => habove) h
    · rw [walkUntilLink_up hd] at h
      exact ih l.dropLast (fun _ => tree.directory_dropLast habove) h
    · have hsize := size_of_walkUntilLink_cons hdown h
      by_cases hlink : ∃ target, d.find? (l ++ [part]) = some (.link target)
      · obtain ⟨target, htarget⟩ := hlink
        rw [walkUntilLink_link hd hdown hsize htarget] at h
        split_ifs at h
        · cases h
          rwa [List.dropLast_concat]
        · exact hjump _ _ (by simp [Path.parts]) h
      · rw [walkUntilLink_down hd hdown hsize (not_exists.1 hlink)] at h
        exact ih _ (fun _ => by rwa [List.dropLast_concat]) h

/-- A path leads to a place in a directory. -/
theorem IsTree.directory_above_of_resolve (tree : IsTree d) {cwd : Location} {p : Path}
    {follow : Bool} (h : d.resolve cwd follow p = .ok x) :
    d.find? x.dropLast = some .directory := by
  have hwalk (links : Nat) (l : Location) (parts : List String) (hne : parts ≠ [])
      (h : d.walk follow links l parts = .ok x) : d.find? x.dropLast = some .directory := by
    induction links generalizing l parts with
    | zero =>
      exact tree.directory_above_of_walkUntilLink (fun _ _ _ h => by cases h) l parts
        (fun hnil => absurd hnil hne) h
    | succ links ih =>
      exact tree.directory_above_of_walkUntilLink (fun l parts hne h => ih l parts hne h) l parts
        (fun hnil => absurd hnil hne) h
  unfold resolve at h
  rw [Except.bind_eq_ok_iff] at h
  obtain ⟨-, -, h⟩ := h
  exact hwalk _ _ _ (by simp [Path.parts]) h

end Recompile.Disk
