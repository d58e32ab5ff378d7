import Recompile.Proofs.Directory.Find
import Recompile.Proofs.Directory.Reached

/-!
# Cleaning a directory

Cleaning a directory touches that directory only. If it succeeds, the directory is there and nothing
is in it.
-/

namespace Recompile

namespace World

variable {l : Location} {w : World}

theorem Touched.refl (tree : w.disk.IsTree) : Touched l w w := ⟨.refl w, tree, .refl l w.disk⟩

theorem Touched.trans {w₁ w₂ w₃ : World} (h : Touched l w₁ w₂) (h' : Touched l w₂ w₃) :
    Touched l w₁ w₃ := ⟨h.toSettled.trans h'.toSettled, h'.tree, h.outside.trans h'.outside⟩

theorem Touched.congr {w₁ w₂ w₁' w₂' : World} (h : Touched l w₁ w₂) (h₁ : w₁'.view = w₁.view)
    (h₂ : w₂'.view = w₂.view) : Touched l w₁' w₂' := by
  simp only [World.view, View.mk.injEq] at h₁ h₂
  refine ⟨⟨?_, ?_⟩, ?_, ?_⟩
  · rw [h₁.2.1, h₂.2.1, h.cwd]
  · rw [h₁.2.2, h₂.2.2, h.environment]
  · rw [h₂.1]
    exact h.tree
  · rw [h₁.1, h₂.1]
    exact h.outside

theorem Bounded.touched {w' : World} (h : Bounded l w w') (tree : w.disk.IsTree) :
    Touched l w w' := by
  refine ⟨h.toSettled, h.tree tree, .of_eq fun m hm => h.find? fun hcovers => ?_⟩
  rw [hm] at hcovers
  cases hcovers

end World

namespace Disk.Reaches

variable {d : Disk} {cwd l : Location} {p : Path}

theorem look_eq_ok {e : Entry} (h : Reaches d cwd p l)
    (hlink : ∀ target, d.find? l ≠ some (.link target)) (hlook : d.look cwd p = .ok e) :
    p.check = .ok () ∧ d.find? l = some e := by
  unfold look at hlook
  rw [Except.bind_eq_ok_iff] at hlook
  obtain ⟨x, hresolve, hfind⟩ := hlook
  obtain ⟨rfl, hcheck⟩ := h.resolve_eq_ok (fun _ => hlink) hresolve
  refine ⟨hcheck, ?_⟩
  cases hx : d.find? x with
  | none =>
    rw [hx] at hfind
    cases hfind
  | some e' =>
    rw [hx] at hfind
    exact congrArg some (Except.ok.inj hfind)

/-- What cannot be found because there is no entry is not there. -/
theorem find?_of_look_noEntry (tree : d.IsTree) (h : Reaches d cwd p l)
    (hlink : ∀ target, d.find? l ≠ some (.link target)) (hlook : d.look cwd p = .error .noEntry) :
    d.find? l = none := by
  by_contra hfind
  obtain ⟨e, he⟩ := Option.ne_none_iff_exists'.1 hfind
  cases hcheck : p.check with
  | ok u =>
    have hresolve : d.resolve cwd true p = .ok l :=
      h.resolve_of_find? tree hcheck he fun _ target htarget => hlink target (htarget ▸ he)
    have hok : d.look cwd p = .ok e := by
      unfold look
      rw [hresolve]
      simp [bind, Except.bind, he]
    rw [hok] at hlook
    cases hlook
  | error fault =>
    have herror : d.look cwd p = .error fault := by
      unfold look Disk.resolve
      rw [hcheck]
      rfl
    rw [herror] at hlook
    cases hlook
    exact h.check_ne_noEntry hcheck

end Disk.Reaches

namespace Directory

open Disk World

variable {w : World} {p : Path} {l : Location}

/-- The directory is there and nothing is in it but what has these names. -/
def HoldsOnly (d : Disk) (l : Location) (names : List String) : Prop :=
  d.find? l = some .directory ∧ ∀ name ∉ names, d.find? (l ++ [name]) = none

theorem HoldsOnly.none_below {d : Disk} (h : HoldsOnly d l []) (tree : d.IsTree) {m : Location}
    (hm : l.covers m = true) (hne : m ≠ l) : d.find? m = none := by
  obtain ⟨rest, rfl⟩ := Location.covers_iff.1 hm
  cases rest with
  | nil => simp at hne
  | cons name rest =>
    have hnone := h.2 name (by simp)
    by_cases hrest : rest = []
    · rw [hrest, hnone]
    · have hbelow := tree.find?_append (by simp [hnone] : d.find? (l ++ [name]) ≠ _) hrest
      simpa using hbelow

theorem removeEntries_reached (hreach : (w.disk.erase l).Reaches w.cwd p l) (entries : List (String × Entry))
    (hnames : ∀ e ∈ entries, Path.IsName e.1) {w₁ : World} (htouched : w.Touched l w₁)
    (hholds : HoldsOnly w₁.disk l (entries.map Prod.fst)) :
    (entries.forM fun e => Action.within (.removing (p.push e.1)) (removeAny (p.push e.1))).wp w₁
      (fun _ w' => w.Touched l w' ∧ HoldsOnly w'.disk l [])
      fun _ w' => w.Touched l w' ∧ w'.disk.find? l = some .directory := by
  induction entries generalizing w₁ with
  | nil => exact ⟨htouched, hholds⟩
  | cons e rest ih =>
    have hname := hnames e List.mem_cons_self
    have hcovers : Location.covers (l ++ [e.1]) l = false := Location.not_covers_parent l e.1
    have hself : (w₁.disk.erase (l ++ [e.1])).find? l = some .directory := by
      rw [find?_erase, if_neg (by simp [hcovers]), hholds.1]
    have hbelow : w₁.Touched l { w₁ with disk := w₁.disk.erase (l ++ [e.1]) } := by
      refine ⟨⟨rfl, rfl⟩, htouched.tree.erase _, .of_eq fun m hm => ?_⟩
      rw [find?_erase, if_neg]
      rintro ⟨-, habove⟩
      rw [Location.covers_trans (Location.covers_append l [e.1]) habove] at hm
      cases hm
    have hreach₁ : (w₁.disk.erase (l ++ [e.1])).Reaches w₁.cwd (p.push e.1) (l ++ [e.1]) := by
      rw [htouched.cwd]
      have := hreach.of_sameOutside (htouched.trans hbelow).outside
      exact this.push hname (by simp [hself])
    rw [List.forM, Action.wp_bind, Action.wp_within]
    refine (removeAny_reached htouched.tree hreach₁).mono (fun _ w₂ h => ?_) fun _ w₂ h => ?_
    · subst h
      refine ih (fun other hother => hnames other (List.mem_cons_of_mem e hother))
        (htouched.trans hbelow) ⟨hself, fun name hrest => ?_⟩
      rw [find?_erase]
      split_ifs with hcond
      · rfl
      · refine hholds.2 name ?_
        simp only [List.map_cons, List.mem_cons, not_or]
        refine ⟨?_, hrest⟩
        rintro rfl
        simp at hcond
    · subst h
      exact ⟨htouched, hholds.1⟩

/-- Cleaning the directory that a path reaches. -/
theorem clean_reached (tree : w.disk.IsTree) (hreach : (w.disk.erase l).Reaches w.cwd p l)
    (hlink : ∀ target, w.disk.find? l ≠ some (.link target)) :
    (clean p).wp w
      (fun _ w' => w.Touched l w' ∧ HoldsOnly w'.disk l [] ∧ p.check = Except.ok ())
      fun _ w' => w.Touched l w' ∧ ∀ target, w'.disk.find? l ≠ some (Entry.link target) := by
  have hself := hreach.of_sameOutside (.refl l w.disk)
  have hnothing : w.Touched l w ∧ ∀ target, w.disk.find? l ≠ some (Entry.link target) :=
    ⟨.refl tree, hlink⟩
  unfold clean
  simp only [Action.wp_bind, Action.wp_ask]
  cases hlook : w.disk.look w.cwd p with
  | ok e =>
    obtain ⟨hcheck, hfind⟩ := hself.look_eq_ok hlink hlook
    cases e with
    | file => exact hnothing
    | link => exact hnothing
    | directory =>
      simp only [Action.wp_bind, Action.wp_within, Action.wp_query]
      cases hread : w.disk.readDirectory w.cwd p with
      | error fault => exact hnothing
      | ok entries =>
        obtain ⟨x, hx, -, rfl⟩ := readDirectory_eq_ok_iff.1 hread
        obtain ⟨rfl, -⟩ := hself.resolve_eq_ok (fun _ => hlink) hx
        have hholds : HoldsOnly w.disk x ((w.disk.children x).map Prod.fst) := by
          refine ⟨hfind, fun name hname => ?_⟩
          rw [Option.eq_none_iff_forall_not_mem]
          exact fun e he => hname (List.mem_map_of_mem (w.disk.mem_children_iff.2 he))
        have hremove := removeEntries_reached hreach (w.disk.children x)
          (fun e he => isName_of_readDirectory tree hread he) (.refl tree) hholds
        refine hremove.mono (fun _ w' h => ⟨h.1, h.2, hcheck⟩) fun _ w' h => ⟨h.1, ?_⟩
        simp [h.2]
  | error fault =>
    by_cases hfault : fault = .noEntry
    · subst hfault
      have hnone := hself.find?_of_look_noEntry tree hlink hlook
      rw [Action.wp_within]
      refine (makes_create tree hself hlink).mono (fun _ w' h => ?_) fun _ w' h => ?_
      · obtain ⟨hsteady, hbuilt, hdir, hcheck⟩ := h
        refine ⟨⟨hsteady.settled, hbuilt.tree, hbuilt.sameOutside⟩, ⟨hdir, fun name _ => ?_⟩, hcheck⟩
        rw [hbuilt.find?_append (by simp), tree.find?_append (by simp [hnone]) (by simp)]
      · exact ⟨⟨h.1.settled, h.2.tree, h.2.sameOutside⟩, h.2.not_link hlink⟩
    · cases fault <;> first | exact absurd rfl hfault | exact hnothing

end Directory

end Recompile
