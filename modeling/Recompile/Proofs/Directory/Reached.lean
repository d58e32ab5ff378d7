import Recompile.Proofs.Directory.Remove
import Recompile.Proofs.Disk.Goal

/-!
# Making and removing at a place that a path reaches

On a tree a removal erases the place, or fails and changes nothing. Making a directory adds only
directories on the way to the place; if it succeeds, all of them are there.
-/

namespace Recompile

/-- The program goes on where it was. On the disk, still a tree, only what is at and below `l` has
changed, except that directories on the way to `l` may be new. -/
structure World.Touched (l : Location) (w w' : World) : Prop extends World.Settled w w' where
  tree : w'.disk.IsTree
  outside : w.disk.SameOutside l w'.disk

namespace Disk

/-- Some directories on the way to `l` were added where nothing was. -/
structure Built (l : Location) (d d' : Disk) : Prop where
  added : ∀ m, d'.find? m = d.find? m ∨
    m.covers l = true ∧ d.find? m = none ∧ d'.find? m = some .directory
  tree : d'.IsTree
  /-- Nothing outside of a directory that was there on the way is listed differently. -/
  erase : ∀ top : Location, top.covers l = true → d.find? top = some .directory →
    d'.erase top = d.erase top
  /-- They were made one at a time. -/
  chain : Relation.ReflTransGen (Goal.make l).Op d d'

namespace Built

variable {l : Location} {d d' d'' : Disk}

theorem refl (tree : d.IsTree) : Built l d d := ⟨fun _ => .inl rfl, tree, fun _ _ _ => rfl, .refl⟩

theorem directoriesAdded (h : Built l d d') : d.DirectoriesAdded d' := fun m =>
  (h.added m).imp id And.right

theorem trans (h : Built l d d') (h' : Built l d' d'') : Built l d d'' := by
  refine ⟨fun m => ?_, h'.tree, fun top htop hdir => ?_, h.chain.trans h'.chain⟩
  · rcases h'.added m with h₂ | ⟨hcovers, hnone, hdir⟩
    · rw [h₂]
      exact h.added m
    · rcases h.added m with h₁ | ⟨-, -, hdir'⟩
      · exact .inr ⟨hcovers, h₁ ▸ hnone, hdir⟩
      · rw [hdir'] at hnone
        cases hnone
  · rw [h'.erase top htop (h.directoriesAdded.keeps.directory hdir), h.erase top htop hdir]

/-- The way to a place goes on below a place above it where no directory is yet. -/
theorem of_above {k : Location} {name : String} (tree : d.IsTree)
    (hk : d.find? k ≠ some .directory) (h : Built k d d') : Built (k ++ [name]) d d' := by
  have hop : ∀ x y, (Goal.make k).Op x y → (Goal.make (k ++ [name])).Op x y := by
    intro x y hop
    cases hop with
    | make hcovers hname hsize hdir hnone =>
      exact .make (Location.covers_append_of_covers hcovers _) hname hsize hdir hnone
  refine ⟨fun m => ?_, h.tree, fun top htop hdir => h.erase top ?_ hdir,
    Relation.ReflTransGen.mono hop _ _ h.chain⟩
  · rcases h.added m with hsame | ⟨hcovers, hnone, hdir⟩
    · exact .inl hsame
    · exact .inr ⟨Location.covers_append_of_covers hcovers _, hnone, hdir⟩
  · rcases Location.covers_concat_iff.1 htop with rfl | hcovers
    · exact absurd (tree.parent _ _ _ hdir) hk
    · exact hcovers

theorem sameOutside (h : Built l d d') : SameOutside l d d' := fun m _ => h.added m

/-- Nothing is added below the place itself. -/
theorem find?_append (h : Built l d d') {rest : List String} (hne : rest ≠ []) :
    d'.find? (l ++ rest) = d.find? (l ++ rest) := by
  rcases h.added (l ++ rest) with hsame | ⟨hcovers, -, -⟩
  · exact hsame
  · have heq := Location.covers_antisymm hcovers (Location.covers_append l rest)
    exact absurd (by simpa using heq) hne

theorem not_link (h : Built l d d') {m : Location} (hm : ∀ target, d.find? m ≠ some (.link target))
    (target : Path) : d'.find? m ≠ some (.link target) := by
  rcases h.added m with hsame | ⟨-, -, hdir⟩
  · rw [hsame]
    exact hm target
  · rw [hdir]
    simp

theorem reaches (h : Built l d d') {cwd m : Location} {p : Path} (hreach : d.Reaches cwd p m) :
    d'.Reaches cwd p m :=
  hreach.of_keeps h.directoriesAdded.keeps fun _ _ _ hlink => h.not_link hlink

end Built

/-- Putting a directory where nothing is. -/
theorem built_put {d : Disk} {k : Location} {name : String} (tree : d.IsTree)
    (hname : Path.IsName name) (hsize : name.utf8ByteSize ≤ Path.nameLimit)
    (hdir : d.find? k = some .directory) (hnone : d.find? (k ++ [name]) = none) :
    Built (k ++ [name]) d (d.put (k ++ [name]) .directory) := by
  refine ⟨fun m => ?_, tree.put hdir hname hsize fun _ => rfl, fun top htop htopdir => ?_,
    .single (.make (Location.covers_self _) hname hsize hdir hnone)⟩
  · rw [find?_put _ (by simp)]
    by_cases hm : m = k ++ [name]
    · subst hm
      exact .inr ⟨Location.covers_self _, hnone, by simp⟩
    · exact .inl (by simp [hm])
  · exact d.erase_put htop _

end Disk

namespace Directory

open Disk

variable {w : World} {p : Path} {l : Location}

/-- Removing a directory that a path reaches. -/
theorem removeTree_reached (tree : w.disk.IsTree) (hreach : (w.disk.erase l).Reaches w.cwd p l)
    (hdir : w.disk.find? l = some .directory) :
    (removeTree p).wp w
      (fun _ w' => w' = { w with disk := w.disk.erase l } ∧ p.check = Except.ok ())
      fun _ w' => w' = w ∧ p.check ≠ .ok () := by
  have hreach' := hreach.of_erase
  unfold removeTree
  simp only [Action.wp_bind, Action.wp_query]
  cases hlook : w.disk.lookAt w.cwd p with
  | error fault =>
    refine ⟨trivial, fun hcheck => ?_⟩
    rw [(hreach'.lookAt_eq_ok_iff tree).2 ⟨hcheck, hdir⟩] at hlook
    cases hlook
  | ok e =>
    obtain ⟨hcheck, hfind⟩ := (hreach'.lookAt_eq_ok_iff tree).1 hlook
    rw [hdir] at hfind
    cases hfind
    have hresolve : w.disk.resolve w.cwd false p = .ok l :=
      hreach'.resolve_of_find? tree hcheck hdir (by simp)
    have hclear : (do return w.disk.clear (← w.disk.resolve w.cwd false p) : Except Fault Disk) =
        .ok (w.disk.clear l) := by
      rw [hresolve]
      rfl
    simp only [Action.wp_bind, Action.wp_change, hclear, Action.wp_attempt,
      hreach.removeDirectory_clear tree hcheck hdir]
    exact ⟨rfl, hcheck⟩

/-- Removing whatever is at the place that a path reaches. -/
theorem removeAny_reached (tree : w.disk.IsTree) (hreach : (w.disk.erase l).Reaches w.cwd p l) :
    (removeAny p).wp w (fun _ w' => w' = { w with disk := w.disk.erase l }) fun _ w' => w' = w := by
  have hreach' := hreach.of_erase
  have hfile (hcheck : p.check = .ok ()) (e : Entry) (hfind : w.disk.find? l = some e)
      (hne : e ≠ .directory) : (Action.change fun d cwd => d.removeFile cwd p).wp w
        (fun _ w' => w' = { w with disk := w.disk.erase l }) fun _ w' => w' = w := by
    have hremove := (hreach'.removeFile_eq_ok_iff tree).2 ⟨hcheck, ⟨e, hfind, hne⟩, rfl⟩
    simp only [Action.wp_change, hremove]
  unfold removeAny
  simp only [Action.wp_bind, Action.wp_ask]
  cases hlook : w.disk.lookAt w.cwd p with
  | error fault =>
    have hgone : fault = .noEntry → w.disk.find? l = none := by
      rintro rfl
      by_contra hfind
      obtain ⟨e, he⟩ := Option.ne_none_iff_exists'.1 hfind
      have hcheck : p.check = .ok () := by
        cases hc : p.check with
        | ok u => rfl
        | error fault =>
          have : w.disk.lookAt w.cwd p = .error fault := by
            unfold lookAt Disk.resolve
            rw [hc]
            rfl
          rw [this] at hlook
          cases hlook
          exact absurd hc hreach'.check_ne_noEntry
      rw [(hreach'.lookAt_eq_ok_iff tree).2 ⟨hcheck, he⟩] at hlook
      cases hlook
    by_cases hfault : fault = .noEntry
    · rw [tree.erase_of_none hreach'.ne_nil (hgone hfault)]
      subst hfault
      rfl
    · cases fault <;> first | exact absurd rfl hfault | rfl
  | ok e =>
    obtain ⟨hcheck, hfind⟩ := (hreach'.lookAt_eq_ok_iff tree).1 hlook
    cases e with
    | directory =>
      exact (removeTree_reached tree hreach hfind).mono (fun _ _ h => h.1) fun _ _ h => h.1
    | file => exact hfile hcheck _ hfind (by simp)
    | link => exact hfile hcheck _ hfind (by simp)

/-- An answer to making the directory at a place is accepted if the directory is there. -/
theorem existing_reached (answer : Except Fault Unit) (tree : w.disk.IsTree)
    (hreach : w.disk.Reaches w.cwd p l) (hlink : ∀ target, w.disk.find? l ≠ some (.link target))
    (hanswer : answer = .ok () → w.disk.find? l = some .directory ∧ p.check = .ok ()) :
    (createFirst.existing p answer).wp w
      (fun _ w' => w' = w ∧ w.disk.find? l = some .directory ∧ p.check = .ok ())
      fun _ w' => w' = w := by
  refine (existing_quiet p answer).mono (fun _ w' h => ⟨h.1, ?_⟩) fun _ _ h => h
  rcases h.2 with hok | hdir
  · exact hanswer hok
  · exact ((hreach.isDirectory_iff tree hlink).1 hdir).symm

/-- What making the directory `p` at `l` comes to: some directories on the way are added, and if it
succeeds the directory is there. -/
def Makes (make : Action Unit) (w : World) (p : Path) (l : Location) : Prop :=
  make.wp w
    (fun _ w' => w.Steady w' ∧ Built l w.disk w'.disk ∧ w'.disk.find? l = some .directory ∧
      p.check = .ok ())
    fun _ w' => w.Steady w' ∧ Built l w.disk w'.disk

/-- The attempt itself, once everything above was tried. -/
theorem makes_attempt (tree : w.disk.IsTree) (hreach : w.disk.Reaches w.cwd p l)
    (hlink : ∀ target, w.disk.find? l ≠ some (.link target)) :
    Makes (do createFirst.existing p (← Action.attempt fun d cwd => d.makeDirectory cwd p)) w p l := by
  unfold Makes
  simp only [Action.wp_bind, Action.wp_attempt]
  cases hmake : w.disk.makeDirectory w.cwd p with
  | ok d =>
    obtain ⟨hcheck, hnone, ⟨k, name, rfl, hname, hsize, hdir⟩, rfl⟩ :=
      (hreach.makeDirectory_eq_ok_iff tree).1 hmake
    refine (existing_quiet p (.ok ())).mono (fun _ w' h => ?_) fun _ w' h => ?_
    · rw [h.1]
      exact ⟨⟨rfl, rfl, rfl⟩, built_put tree hname hsize hdir hnone, by simp [find?_put], hcheck⟩
    · rw [h]
      exact ⟨⟨rfl, rfl, rfl⟩, built_put tree hname hsize hdir hnone⟩
  | error fault =>
    refine (existing_reached (.error fault) tree hreach hlink (by simp)).mono (fun _ w' h => ?_)
      fun _ w' h => ?_
    · rw [h.1]
      exact ⟨.refl w, .refl tree, h.2⟩
    · rw [h]
      exact ⟨.refl w, .refl tree⟩

theorem makes_createFirst_cons {above : List Path} {q : Path} {k : Location} {name : String}
    (tree : w.disk.IsTree) (hreach : w.disk.Reaches w.cwd p (k ++ [name]))
    (hlink : ∀ target, w.disk.find? (k ++ [name]) ≠ some (.link target))
    (habove : w.disk.find? k ≠ some .directory → Makes (createFirst above) w q k) :
    Makes (createFirst (p :: above)) w p (k ++ [name]) := by
  have hfirst := makes_attempt tree hreach hlink
  unfold Makes at hfirst ⊢
  unfold createFirst
  simp only [Action.wp_bind, Action.wp_attempt] at hfirst ⊢
  cases hmake : w.disk.makeDirectory w.cwd p with
  | ok d =>
    rw [hmake] at hfirst
    exact hfirst
  | error fault =>
    rw [hmake] at hfirst
    by_cases hfault : fault = .noEntry
    · subst hfault
      have hk : w.disk.find? k ≠ some .directory := fun hdir =>
        hreach.makeDirectory_ne_noEntry tree rfl hdir hmake
      have hmiss (w₁ : World) (hsteady : w.Steady w₁) (hbuilt : Built k w.disk w₁.disk) :
          Built (k ++ [name]) w.disk w₁.disk := hbuilt.of_above tree hk
      have hmakes := habove hk
      unfold Makes at hmakes
      simp only [Action.wp_bind]
      refine hmakes.mono (fun _ w₁ h => ?_) fun _ w₁ h => ⟨h.1, hmiss w₁ h.1 h.2⟩
      obtain ⟨hsteady, hbuilt, -⟩ := h
      have hreach₁ : w₁.disk.Reaches w₁.cwd p (k ++ [name]) := by
        rw [hsteady.cwd]
        exact hbuilt.reaches hreach
      have hagain := makes_attempt hbuilt.tree hreach₁ (hbuilt.not_link hlink)
      unfold Makes at hagain
      simp only [Action.wp_bind] at hagain
      have hfail (w₂ : World) (h : w₁.Steady w₂ ∧ Built (k ++ [name]) w₁.disk w₂.disk) :
          w.Steady w₂ ∧ Built (k ++ [name]) w.disk w₂.disk :=
        ⟨hsteady.trans h.1, (hmiss w₁ hsteady hbuilt).trans h.2⟩
      refine hagain.mono (fun _ _ h => h.mono (fun _ w₂ h => ?_) fun _ => hfail) fun _ => hfail
      exact ⟨hsteady.trans h.1, (hmiss w₁ hsteady hbuilt).trans h.2.1, h.2.2⟩
    · cases fault <;> first | exact absurd rfl hfault | exact hfirst

section Above

attribute [local irreducible] Action.wp

/-- Making the directory at a place that a path reaches, and what is missing above it. -/
theorem makes_createFirst {base : Path} {s : Location} (names : List String) (last : String)
    (limit : Nat) (hlimit : names.length ≤ limit) (tree : w.disk.IsTree)
    (hleads : Leads w.disk w.cwd base s) (hnames : ∀ name ∈ names, Path.IsName name)
    (hlast : Path.IsName last) (hplain : w.disk.NoLinks true s names)
    (hlink : ∀ target, w.disk.find? (s ++ names ++ [last]) ≠ some (.link target)) :
    Makes (createFirst (Path.ancestors (limit + 1) ((names.foldl Path.push base).push last))) w
      ((names.foldl Path.push base).push last) (s ++ names ++ [last]) := by
  have hreach : w.disk.Reaches w.cwd ((names.foldl Path.push base).push last)
      (s ++ names ++ [last]) := ⟨base, s, names, last, hleads, hnames, hlast, rfl, rfl, hplain⟩
  induction names using List.reverseRecOn generalizing limit last with
  | nil =>
    rw [Path.ancestors, if_neg hreach.isOpen.ne_empty]
    refine makes_createFirst_cons (q := base) tree hreach hlink fun hmissing => ?_
    rw [List.append_nil] at hmissing
    exact absurd hleads.directory hmissing
  | append_singleton init prev ih =>
    have hprev := hnames prev (by simp)
    have hinit : ∀ name ∈ init, Path.IsName name := fun name hname => hnames name (by simp [hname])
    have hplain' : w.disk.NoLinks true s init := fun rest hrest hbefore _ =>
      hplain rest hrest (hbefore.trans (List.prefix_append _ _)) fun _ => rfl
    have hlink' : ∀ target, w.disk.find? (s ++ init ++ [prev]) ≠ some (.link target) := by
      rw [List.append_assoc]
      exact hplain _ (by simp) (List.prefix_refl _) fun _ => rfl
    obtain ⟨limit, rfl⟩ : ∃ n, limit = n + 1 :=
      ⟨limit - 1, by simp only [List.length_append, List.length_singleton] at hlimit; omega⟩
    rw [Path.ancestors_foldl_push _ (by simp) hnames hlast]
    refine makes_createFirst_cons (q := (init ++ [prev]).foldl Path.push base) tree hreach hlink
      fun _ => ?_
    rw [← List.append_assoc, List.foldl_append]
    refine ih prev limit ?_ hinit hprev hplain' hlink'
      ⟨base, s, init, prev, hleads, hinit, hprev, rfl, rfl, hplain'⟩
    simp only [List.length_append, List.length_singleton] at hlimit
    omega

theorem makes_create (tree : w.disk.IsTree) (hreach : w.disk.Reaches w.cwd p l)
    (hlink : ∀ target, w.disk.find? l ≠ some (.link target)) : Makes (create p) w p l := by
  obtain ⟨base, s, names, last, hleads, hnames, hlast, rfl, rfl, hplain⟩ := hreach
  unfold create Path.selfAndAbove
  rw [Path.parts_push hlast, List.length_append, List.length_singleton]
  exact makes_createFirst names last _ (Path.length_le_trunk hnames) tree hleads hnames hlast hplain hlink

end Above

end Directory

end Recompile
