import Mathlib.Data.List.Pairwise
import Recompile.Proofs.Disk.Reach

/-!
# Places that do not overlap

A layout names some places that do not overlap, each with a path that reaches it without going
through one of the places. What happens at and below the places does not move them: the paths still
reach them.
-/

namespace Recompile.Disk

variable {d d' : Disk} {cwd l m : Location} {p : Path}

/-- What is not at or below `l` is as before, except that directories on the way to `l` may be new. -/
def SameOutside (l : Location) (d d' : Disk) : Prop :=
  ∀ m : Location, l.covers m = false → d'.find? m = d.find? m ∨
    m.covers l = true ∧ d.find? m = none ∧ d'.find? m = some .directory

theorem SameOutside.refl (l : Location) (d : Disk) : SameOutside l d d := fun _ _ => .inl rfl

theorem SameOutside.trans {d'' : Disk} (h : SameOutside l d d') (h' : SameOutside l d' d'') :
    SameOutside l d d'' := by
  intro m hm
  rcases h' m hm with h₂ | ⟨hcovers, hnone, hdir⟩
  · rw [h₂]
    exact h m hm
  · rcases h m hm with h₁ | ⟨-, -, hdir'⟩
    · exact .inr ⟨hcovers, h₁ ▸ hnone, hdir⟩
    · rw [hdir'] at hnone
      cases hnone

theorem SameOutside.of_eq (h : ∀ m : Location, l.covers m = false → d'.find? m = d.find? m) :
    SameOutside l d d' := fun m hm => .inl (h m hm)

/-- What is there stays: a place outside that holds something holds the same. -/
theorem SameOutside.eq_of_isSome (h : SameOutside l d d') (hm : l.covers m = false)
    (hsome : (d.find? m).isSome) : d'.find? m = d.find? m := by
  rcases h m hm with hsame | ⟨-, hnone, -⟩
  · exact hsame
  · rw [hnone] at hsome
    cases hsome

/-- Nothing changes at and below a place apart from `l`. -/
theorem SameOutside.eq_of_apart {k : Location} (h : SameOutside l d d') (hapart : Location.Apart l k)
    (hm : k.covers m = true) : d'.find? m = d.find? m := by
  rcases h m (hapart.symm.not_covers hm) with hsame | ⟨hcovers, -, -⟩
  · exact hsame
  · have habove := Location.covers_trans hm hcovers
    rw [hapart.2] at habove
    cases habove

/-- In a directory that is there, nothing on the way is new. -/
theorem SameOutside.eq_of_directory {k : Location} {name : String}
    (h : SameOutside (k ++ [name]) d d') (tree : d.IsTree) (hdir : d.find? k = some .directory)
    (hm : Location.covers (k ++ [name]) m = false) : d'.find? m = d.find? m := by
  rcases h m hm with hsame | ⟨hcovers, hnone, -⟩
  · exact hsame
  · have hsome := tree.isSome_of_covers hdir hcovers hm
    rw [hnone] at hsome
    cases hsome

theorem sameOutside_erase (l : Location) (d : Disk) : SameOutside l d (d.erase l) := by
  refine .of_eq fun m hm => ?_
  rw [find?_erase, if_neg]
  simp [hm]

/-- A path that reaches a place without going through it reaches it whatever happens there. -/
theorem Reaches.of_sameOutside (h : Reaches (d.erase l) cwd p l) (same : SameOutside l d d') :
    Reaches d' cwd p l := by
  have hfind (m : Location) (hm : l.covers m = false) : (d.erase l).find? m = d.find? m := by
    rw [find?_erase, if_neg]
    simp [hm]
  refine h.of_keeps (.of_subset fun m e hm => ?_) fun top htop hne hlink target htarget => ?_
  · rw [find?_erase] at hm
    split_ifs at hm with hcond
    by_cases hnil : m = []
    · subst hnil
      simpa using hm
    · rw [same.eq_of_isSome (by simpa [hnil] using hcond) (by simp [hm]), hm]
  · have hnot : l.covers top = false := by
      rw [Bool.eq_false_iff]
      exact fun hcovers => hne (Location.covers_antisymm htop hcovers)
    rcases same top hnot with hsame | ⟨-, -, hdir⟩
    · exact hlink target (by rw [hfind top hnot, ← hsame, htarget])
    · rw [hdir] at htarget
      cases htarget

/-- The disk without some places. -/
def eraseAll (d : Disk) (places : List Location) : Disk := places.foldl erase d

theorem find?_eraseAll (d : Disk) (places : List Location) (m : Location) :
    (d.eraseAll places).find? m =
      if m ≠ [] ∧ ∃ l ∈ places, l.covers m = true then none else d.find? m := by
  unfold eraseAll
  induction places generalizing d with
  | nil => simp
  | cons l rest ih =>
    rw [List.foldl_cons, ih, find?_erase]
    by_cases hm : m = []
    · simp [hm]
    · by_cases hl : l.covers m = true <;> simp [hm, hl]

instance : Std.Symm Location.Apart := ⟨fun _ _ => Location.Apart.symm⟩

/-- Places that do not overlap, and for each a path that reaches it without going through one of
them. -/
structure Layout (d : Disk) (cwd : Location) (sites : List (Path × Location)) : Prop where
  tree : d.IsTree
  apart : (sites.map Prod.snd).Pairwise Location.Apart
  reaches : ∀ site ∈ sites, (d.eraseAll (sites.map Prod.snd)).Reaches cwd site.1 site.2

namespace Layout

variable {sites : List (Path × Location)} {site : Path × Location}

theorem apart_of_ne (h : Layout d cwd sites) {other : Path × Location} (hsite : site ∈ sites)
    (hother : other ∈ sites) (hne : site.2 ≠ other.2) : Location.Apart site.2 other.2 :=
  h.apart.forall (List.mem_map_of_mem hsite) (List.mem_map_of_mem hother) hne

/-- No place lies above the way to a place. -/
theorem not_covers (h : Layout d cwd sites) (hsite : site ∈ sites) {top : Location}
    (htop : top.covers site.2 = true) (hne : top ≠ site.2) :
    ∀ l ∈ sites.map Prod.snd, l.covers top = false := by
  intro l hl
  obtain ⟨other, hother, rfl⟩ := List.mem_map.1 hl
  rw [Bool.eq_false_iff]
  intro hcovers
  by_cases heq : other.2 = site.2
  · rw [heq] at hcovers
    exact hne (Location.covers_antisymm htop hcovers)
  · have hbetween := Location.covers_trans hcovers htop
    rw [(h.apart_of_ne hother hsite heq).1] at hbetween
    cases hbetween

/-- A path reaches its place whichever of the places are there. -/
theorem reaches_of (h : Layout d cwd sites) (hsite : site ∈ sites)
    (hlow : ∀ m e, (∀ l ∈ sites.map Prod.snd, l.covers m = false) →
      d.find? m = some e → d'.find? m = some e)
    (hup : ∀ m e, d'.find? m = some e → d.find? m = some e) :
    d'.Reaches cwd site.1 site.2 := by
  refine (h.reaches site hsite).of_keeps (.of_subset fun m e hm => ?_) fun top htop hne hlink
    target hfind => hlink target ?_
  · rw [find?_eraseAll] at hm
    by_cases hnil : m = []
    · subst hnil
      simpa using hm
    · split_ifs at hm with hcond
      refine hlow m e (fun l hl => ?_) hm
      rw [Bool.eq_false_iff]
      exact fun hcovers => hcond ⟨hnil, l, hl, hcovers⟩
  · rw [find?_eraseAll, if_neg]
    · exact hup top _ hfind
    · rintro ⟨-, l, hl, hcovers⟩
      rw [h.not_covers hsite htop hne l hl] at hcovers
      cases hcovers

theorem reaches_self (h : Layout d cwd sites) (hsite : site ∈ sites) :
    d.Reaches cwd site.1 site.2 :=
  h.reaches_of hsite (fun _ _ _ => id) fun _ _ => id

theorem reaches_erase (h : Layout d cwd sites) (hsite : site ∈ sites) :
    (d.erase site.2).Reaches cwd site.1 site.2 := by
  refine h.reaches_of hsite (fun m e hm hfind => ?_) fun m e hfind => ?_
  · rw [find?_erase, if_neg, hfind]
    simp [hm site.2 (List.mem_map_of_mem hsite)]
  · rw [find?_erase] at hfind
    split_ifs at hfind
    exact hfind

theorem sublist (h : Layout d cwd sites) {fewer : List (Path × Location)}
    (hsub : fewer.Sublist sites) : Layout d cwd fewer := by
  have hsub' := hsub.map Prod.snd
  refine ⟨h.tree, h.apart.sublist hsub', fun site hsite => ?_⟩
  refine h.reaches_of (hsub.subset hsite) (fun m e hm hfind => ?_) fun m e hfind => ?_
  · rw [find?_eraseAll, if_neg, hfind]
    rintro ⟨-, l, hl, hcovers⟩
    rw [hm l (hsub'.subset hl)] at hcovers
    cases hcovers
  · rw [find?_eraseAll] at hfind
    split_ifs at hfind
    exact hfind

/-- A layout stays one while the directories and links outside of its places stay and no link is
new there. -/
theorem of_ways (h : Layout d cwd sites) (tree : d'.IsTree)
    (ways : ∀ m, (∀ l ∈ sites.map Prod.snd, l.covers m = false) → ∀ e, d.find? m = some e →
      e.isFile = false → d'.find? m = some e)
    (links : ∀ m, (∀ l ∈ sites.map Prod.snd, l.covers m = false) → ∀ target,
      d'.find? m = some (.link target) → d.find? m = some (.link target)) :
    Layout d' cwd sites := by
  refine ⟨tree, h.apart, fun site hsite => ?_⟩
  refine (h.reaches site hsite).of_ways (fun m e hm hfile => ?_) fun top htop hne hlink
    target hfind => ?_
  · rw [find?_eraseAll] at hm ⊢
    split_ifs at hm ⊢ with hcond
    by_cases hnil : m = []
    · subst hnil
      simpa using hm
    refine ways m (fun l hl => ?_) e hm hfile
    rw [Bool.eq_false_iff]
    exact fun hcovers => hcond ⟨hnil, l, hl, hcovers⟩
  · have hnot := h.not_covers hsite htop hne
    have hcond : ¬(top ≠ [] ∧ ∃ l ∈ sites.map Prod.snd, l.covers top = true) := by
      rintro ⟨-, l, hl, hcovers⟩
      rw [hnot l hl] at hcovers
      cases hcovers
    rw [find?_eraseAll, if_neg hcond] at hfind
    refine hlink target ?_
    rw [find?_eraseAll, if_neg hcond, links top hnot target hfind]

/-- A layout stays one when something changes at or below its places. -/
theorem of_same (h : Layout d cwd sites) (tree : d'.IsTree)
    (same : ∀ m, (∀ l ∈ sites.map Prod.snd, l.covers m = false) →
      d'.find? m = d.find? m ∨ d.find? m = none ∧ d'.find? m = some .directory) :
    Layout d' cwd sites := by
  refine h.of_ways tree (fun m hm e hfind _ => ?_) fun m hm target hfind => ?_
  · rcases same m hm with hsame | ⟨hnone, -⟩
    · rw [hsame, hfind]
    · rw [hnone] at hfind
      cases hfind
  · rcases same m hm with hsame | ⟨-, hdir⟩
    · rw [← hsame, hfind]
    · rw [hdir] at hfind
      cases hfind

theorem of_sameOutside (h : Layout d cwd sites) (hsite : site ∈ sites) (tree : d'.IsTree)
    (same : SameOutside site.2 d d') : Layout d' cwd sites :=
  h.of_same tree fun m hm => (same m (hm site.2 (List.mem_map_of_mem hsite))).imp id And.right

end Layout

/-- Normal forms of places that do not overlap, if no link stands above one of them. -/
theorem layout_toPath (tree : d.IsTree) {places : List (Location × String)}
    (hproper : ∀ x ∈ places, Location.IsProper (x.1 ++ [x.2])) (plain : ∀ x ∈ places, d.IsPlain x.1)
    (hapart : (places.map fun x => x.1 ++ [x.2]).Pairwise Location.Apart) :
    Layout d cwd (places.map fun x => (Location.toPath (x.1 ++ [x.2]), x.1 ++ [x.2])) := by
  refine ⟨tree, by simpa [Function.comp_def] using hapart, fun site hsite => ?_⟩
  obtain ⟨x, hx, rfl⟩ := List.mem_map.1 hsite
  refine reaches_toPath (hproper x hx) ((plain x hx).of_subset fun m e hfind => ?_)
  rw [find?_eraseAll] at hfind
  split_ifs at hfind
  exact hfind

end Recompile.Disk
