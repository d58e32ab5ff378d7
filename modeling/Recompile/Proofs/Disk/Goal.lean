import Mathlib.Logic.Relation
import Recompile.Proofs.Disk.Layout

/-!
# Single operations

What the program does to a disk is made of single operations: a tree is taken away one entry at a
time, in any order in which no entry loses its directory; directories are made one at a time; a file
is made empty and then written part by part; a move is one operation. A goal says what a stretch of
them is to achieve. A program that works on some goals one after the other can be stopped between any
two operations.
-/

namespace Recompile.Disk

variable {d d' d'' : Disk} {l m : Location} {name : String}

/-- What some single operations are to achieve. -/
inductive Goal where
  | remove (l : Location)
  | make (l : Location)
  | write (l : Location) (bytes : ByteArray)
  | move (source target : Location)

namespace Goal

/-- One operation on the way to a goal. -/
inductive Op : Goal → Disk → Disk → Prop
  | remove {d : Disk} {l m : Location} (hcovers : l.covers m = true) (hne : m ≠ [])
      (hsome : (d.find? m).isSome) (hleaf : ∀ name, d.find? (m ++ [name]) = none) :
      Op (remove l) d (d.erase m)
  | make {d : Disk} {l k : Location} {name : String}
      (hcovers : Location.covers (k ++ [name]) l = true) (hname : Path.IsName name)
      (hsize : name.utf8ByteSize ≤ Path.nameLimit) (hdir : d.find? k = some .directory)
      (hnone : d.find? (k ++ [name]) = none) : Op (make l) d (d.put (k ++ [name]) .directory)
  | create {d : Disk} {k : Location} {name : String} {bytes : ByteArray} {runnable : Bool}
      (hname : Path.IsName name) (hsize : name.utf8ByteSize ≤ Path.nameLimit)
      (hdir : d.find? k = some .directory) (hnone : d.find? (k ++ [name]) = none) :
      Op (write (k ++ [name]) bytes) d (d.put (k ++ [name]) (.file .empty runnable))
  | write {d : Disk} {l : Location} {bytes old part rest : ByteArray} {runnable : Bool}
      (hfile : d.find? l = some (.file old runnable)) (hpart : bytes = part ++ rest) :
      Op (write l bytes) d (d.put l (.file part runnable))
  | move {d : Disk} {source target : Location} (hsource : (d.find? source).isSome)
      (htarget : d.find? target = none) : Op (move source target) d (d.move source target)

/-- The goal is achieved. -/
def Met : Goal → Disk → Prop
  | remove l, d => d.find? l = none
  | make l, d => d.find? l = some .directory
  | write l bytes, d => ∃ runnable, d.find? l = some (.file bytes runnable)
  | move source _, d => d.find? source = none

/-- Everything that works on the goal happens at or below `l`, or makes directories on the way. -/
def Within (l : Location) : Goal → Prop
  | remove m => l.covers m = true
  | make m => m = l
  | write m _ => l.covers m = true
  | move _ _ => False

end Goal

/-- The program works on the goals one after the other and is stopped somewhere. -/
inductive Stops : List Goal → Disk → Disk → Prop
  | here {goals : List Goal} {d : Disk} : Stops goals d d
  | op {goal : Goal} {goals : List Goal} {d d' d'' : Disk} (first : goal.Op d d')
      (rest : Stops (goal :: goals) d' d'') : Stops (goal :: goals) d d''
  | next {goal : Goal} {goals : List Goal} {d d' : Disk} (met : goal.Met d)
      (rest : Stops goals d d') : Stops (goal :: goals) d d'

/-- The program works on the goals one after the other until all were met. -/
inductive Runs : List Goal → Disk → Disk → Prop
  | done {d : Disk} : Runs [] d d
  | op {goal : Goal} {goals : List Goal} {d d' d'' : Disk} (first : goal.Op d d')
      (rest : Runs (goal :: goals) d' d'') : Runs (goal :: goals) d d''
  | next {goal : Goal} {goals : List Goal} {d d' : Disk} (met : goal.Met d)
      (rest : Runs goals d d') : Runs (goal :: goals) d d'

section Sequences

variable {goal : Goal} {goals more : List Goal}

theorem Stops.append (h : Stops goals d d') : Stops (goals ++ more) d d' := by
  induction h with
  | here => exact .here
  | op first _ ih => exact .op first ih
  | next met _ ih => exact .next met ih

theorem Runs.stops_append (h : Runs goals d d') (h' : Stops more d' d'') :
    Stops (goals ++ more) d d'' := by
  induction h with
  | done => exact h'
  | op first _ ih => exact .op first (ih h')
  | next met _ ih => exact .next met (ih h')

theorem Runs.append (h : Runs goals d d') (h' : Runs more d' d'') : Runs (goals ++ more) d d'' := by
  induction h with
  | done => exact h'
  | op first _ ih => exact .op first (ih h')
  | next met _ ih => exact .next met (ih h')

theorem Runs.stops (h : Runs goals d d') : Stops goals d d' := by
  have happend : Stops (goals ++ []) d d' := h.stops_append .here
  rwa [List.append_nil] at happend

/-- What is stopped was stopped in the first goals, or after it had met all of them. -/
theorem Stops.of_append (h : Stops (goals ++ more) d d'') :
    Stops goals d d'' ∨ ∃ d', Runs goals d d' ∧ Stops more d' d'' := by
  generalize hall : goals ++ more = all at h
  induction h generalizing goals with
  | here => exact .inl .here
  | op first rest ih =>
    cases goals with
    | nil => exact .inr ⟨_, .done, by subst hall; exact .op first rest⟩
    | cons g goals =>
      obtain ⟨rfl, rfl⟩ := List.cons.inj hall
      have hsame : (g :: goals) ++ more = g :: (goals ++ more) := rfl
      rcases ih hsame with hstops | ⟨d', hruns, hstops⟩
      · exact .inl (.op first hstops)
      · exact .inr ⟨d', .op first hruns, hstops⟩
  | next met rest ih =>
    cases goals with
    | nil => exact .inr ⟨_, .done, by subst hall; exact .next met rest⟩
    | cons g goals =>
      cases hall
      rcases ih rfl with hstops | ⟨d', hruns, hstops⟩
      · exact .inl (.next met hstops)
      · exact .inr ⟨d', .next met hruns, hstops⟩

theorem Runs.of_append (h : Runs (goals ++ more) d d'') :
    ∃ d', Runs goals d d' ∧ Runs more d' d'' := by
  generalize hall : goals ++ more = all at h
  induction h generalizing goals with
  | done =>
    obtain ⟨rfl, rfl⟩ := List.append_eq_nil_iff.1 hall
    exact ⟨_, .done, .done⟩
  | op first rest ih =>
    cases goals with
    | nil => exact ⟨_, .done, by subst hall; exact .op first rest⟩
    | cons g goals =>
      obtain ⟨rfl, rfl⟩ := List.cons.inj hall
      have hsame : (g :: goals) ++ more = g :: (goals ++ more) := rfl
      obtain ⟨d', hruns, hmore⟩ := ih hsame
      exact ⟨d', .op first hruns, hmore⟩
  | next met rest ih =>
    cases goals with
    | nil => exact ⟨_, .done, by subst hall; exact .next met rest⟩
    | cons g goals =>
      cases hall
      obtain ⟨d', hruns, hmore⟩ := ih rfl
      exact ⟨d', .next met hruns, hmore⟩

/-- What every operation keeps holds wherever the program is stopped. -/
theorem Stops.invariant {I : Disk → Prop} (h : Stops goals d d')
    (step : ∀ goal ∈ goals, ∀ d d', goal.Op d d' → I d → I d') (init : I d) : I d' := by
  induction h with
  | here => exact init
  | op first _ ih => exact ih step (step _ List.mem_cons_self _ _ first init)
  | next _ _ ih => exact ih (fun goal hgoal => step goal (List.mem_cons_of_mem _ hgoal)) init

/-- What every operation on one goal keeps holds once the goal is met. -/
theorem Runs.of_singleton {I : Disk → Prop} (h : Runs [goal] d d')
    (step : ∀ d d', goal.Op d d' → I d → I d') (init : I d) : I d' ∧ goal.Met d' := by
  generalize hall : [goal] = all at h
  induction h with
  | done => cases hall
  | op first _ ih =>
    cases hall
    exact ih (step _ _ first init) rfl
  | next met rest _ =>
    cases hall
    cases rest
    exact ⟨init, met⟩

theorem runs_of_reflTransGen (h : Relation.ReflTransGen goal.Op d d') (met : goal.Met d') :
    Runs [goal] d d' := by
  induction h using Relation.ReflTransGen.head_induction_on with
  | refl => exact .next met .done
  | head first _ ih => exact .op first ih

theorem stops_of_reflTransGen (h : Relation.ReflTransGen goal.Op d d') : Stops [goal] d d' := by
  induction h using Relation.ReflTransGen.head_induction_on with
  | refl => exact .here
  | head first _ ih => exact .op first ih

end Sequences

/-! ## What single operations keep -/

theorem Goal.Op.tree {goal : Goal} (h : goal.Op d d') (within : goal.Within l) (tree : d.IsTree) :
    d'.IsTree := by
  cases h with
  | remove => exact tree.erase _
  | make hcovers hname hsize hdir hnone => exact tree.put hdir hname hsize fun _ => rfl
  | create hname hsize hdir hnone =>
    exact tree.put hdir hname hsize fun hthere => by
      rw [hnone] at hthere
      cases hthere
  | @write d m bytes old part rest runnable hfile hpart =>
    have hne : m ≠ [] := by
      rintro rfl
      simp at hfile
    obtain ⟨k, name, rfl⟩ := List.eq_nil_or_concat m |>.resolve_left hne
    rw [List.concat_eq_append] at *
    obtain ⟨hname, hsize⟩ := tree.isName k name _ hfile
    refine tree.put (tree.parent k name _ hfile) hname hsize fun hthere => ?_
    rw [hfile] at hthere
    cases hthere
  | move => exact within.elim

theorem Goal.Op.sameOutside {goal : Goal} (h : goal.Op d d') (within : goal.Within l) :
    SameOutside l d d' := by
  cases h with
  | @remove d k m hcovers hne hsome hleaf =>
    refine .of_eq fun x hx => ?_
    rw [find?_erase, if_neg]
    rintro ⟨-, hm⟩
    rw [Location.covers_trans within (Location.covers_trans hcovers hm)] at hx
    cases hx
  | @make d k' k name hcovers hname hsize hdir hnone =>
    intro x hx
    cases within
    rw [find?_put _ (by simp)]
    by_cases heq : x = k ++ [name]
    · subst heq
      exact .inr ⟨hcovers, hnone, by simp⟩
    · exact .inl (by simp [heq])
  | create hname hsize hdir hnone =>
    refine .of_eq fun x hx => ?_
    rw [find?_put _ (by simp), if_neg]
    rintro rfl
    rw [within] at hx
    cases hx
  | @write d m bytes old part rest runnable hfile hpart =>
    have hne : m ≠ [] := by
      rintro rfl
      simp at hfile
    refine .of_eq fun x hx => ?_
    rw [find?_put _ hne, if_neg]
    rintro rfl
    rw [within] at hx
    cases hx
  | move => exact within.elim

/-- Wherever work at one place is stopped, the disk is a tree and the same elsewhere. -/
theorem Stops.sameOutside {goals : List Goal} (h : Stops goals d d') (tree : d.IsTree)
    (within : ∀ goal ∈ goals, goal.Within l) : d'.IsTree ∧ SameOutside l d d' := by
  refine h.invariant (I := fun x => x.IsTree ∧ SameOutside l d x) (fun goal hgoal x y hop hx => ?_)
    ⟨tree, .refl l d⟩
  have hwithin := within goal hgoal
  exact ⟨hop.tree hwithin hx.1, hx.2.trans (hop.sameOutside hwithin)⟩

/-! ## Removing entry by entry -/

theorem erase_erase_of_covers (h : l.covers m = true) : (d.erase m).erase l = d.erase l := by
  have hentries : ((d.erase m).erase l).entries = (d.erase l).entries := by
    simp only [erase, List.filter_filter]
    refine List.filter_congr fun e _ => ?_
    cases hm : m.covers e.1 with
    | false => simp
    | true => simp [Location.covers_trans h hm]
  rcases hleft : (d.erase m).erase l with ⟨entries, nodup⟩
  rcases hright : d.erase l with ⟨entries', nodup'⟩
  rw [hleft, hright] at hentries
  cases hentries
  rfl

theorem Goal.Op.of_covers (h : l.covers m = true) (hop : (Goal.remove m).Op d d') :
    (Goal.remove l).Op d d' := by
  cases hop with
  | remove hcovers hne hsome hleaf => exact .remove (Location.covers_trans h hcovers) hne hsome hleaf

/-- How many entries stand at or below a place. -/
def size (d : Disk) (l : Location) : Nat := (d.entries.filter fun e => l.covers e.1).length

theorem size_child_lt (tree : d.IsTree) (hne : l ≠ []) (h : (d.find? (l ++ [name])).isSome) :
    d.size (l ++ [name]) < d.size l := by
  obtain ⟨e, he⟩ := Option.isSome_iff_exists.1 h
  have hself := (d.find?_eq_some_iff hne).1 (tree.parent l name e he)
  have hmem : (l, Entry.directory) ∈ d.entries.filter fun e => l.covers e.1 :=
    List.mem_filter.2 ⟨hself, by simp⟩
  have hfewer : d.entries.filter (fun e => Location.covers (l ++ [name]) e.1) =
      (d.entries.filter fun e => l.covers e.1).filter
        fun e => Location.covers (l ++ [name]) e.1 := by
    rw [List.filter_filter]
    refine List.filter_congr fun e _ => ?_
    cases hcovers : Location.covers (l ++ [name]) e.1 with
    | false => rfl
    | true => simp [Location.covers_trans (Location.covers_append l [name]) hcovers]
  rw [size, hfewer]
  refine List.length_filter_lt_length_iff_exists.2 ⟨_, hmem, ?_⟩
  simp [Location.not_covers_parent]

theorem size_erase_child_lt (h : (d.find? (l ++ [name])).isSome) :
    (d.erase (l ++ [name])).size l < d.size l := by
  obtain ⟨e, he⟩ := Option.isSome_iff_exists.1 h
  have hchild := (d.find?_eq_some_iff (by simp)).1 he
  have hmem : (l ++ [name], e) ∈ d.entries.filter fun e => l.covers e.1 :=
    List.mem_filter.2 ⟨hchild, Location.covers_append l [name]⟩
  have hfewer : (d.erase (l ++ [name])).entries.filter (fun e => l.covers e.1) =
      (d.entries.filter fun e => l.covers e.1).filter
        fun e => !Location.covers (l ++ [name]) e.1 := by
    simp only [erase, List.filter_filter]
    exact List.filter_congr fun e _ => Bool.and_comm _ _
  rw [size, hfewer]
  exact List.length_filter_lt_length_iff_exists.2 ⟨_, hmem, by simp⟩

/-- A tree can be taken away entry by entry. -/
theorem reflTransGen_erase (tree : d.IsTree) (hne : l ≠ []) :
    Relation.ReflTransGen (Goal.remove l).Op d (d.erase l) := by
  -- on the number of entries: a child goes first with all that is below it
  induction hsize : d.size l using Nat.strong_induction_on generalizing d l with
  | _ n ih =>
    by_cases hchild : ∃ name, (d.find? (l ++ [name])).isSome
    · obtain ⟨name, hsome⟩ := hchild
      have hbelow : l.covers (l ++ [name]) = true := Location.covers_append l [name]
      have hfirst := ih _ (hsize ▸ size_child_lt tree hne hsome) tree (by simp) rfl
      have hrest := ih _ (hsize ▸ size_erase_child_lt hsome) (tree.erase (l ++ [name])) hne rfl
      rw [erase_erase_of_covers hbelow] at hrest
      have hop : ∀ x y, (Goal.remove (l ++ [name])).Op x y → (Goal.remove l).Op x y :=
        fun _ _ => Goal.Op.of_covers hbelow
      exact (Relation.ReflTransGen.mono hop _ _ hfirst).trans hrest
    · have hleaf (name : String) : d.find? (l ++ [name]) = none := by
        have hnot := not_exists.1 hchild name
        simpa using hnot
      cases hfind : d.find? l with
      | none => rw [tree.erase_of_none hne hfind]
      | some e => exact .single (.remove (Location.covers_self l) hne (by simp [hfind]) hleaf)

end Recompile.Disk
