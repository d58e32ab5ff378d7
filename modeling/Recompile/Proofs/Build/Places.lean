import Recompile.Proofs.Build.Survey
import Recompile.Proofs.Directory.Clean
import Recompile.Proofs.Directory.Scratch
import Recompile.Proofs.Store.Save

/-!
# The places of a build

A build keeps a store, which it stages beside the store, and works in scratch directories. These
places are laid out if none of them overlaps another and each is reached by its path without going
through one of them; more places, such as the output directory, may be laid out with them. A change
at some of the places keeps the layout.
-/

namespace Recompile

namespace World

/-- Only what is at some places has changed, except that directories on the way to one of them may
be new. -/
structure Altered (places : List Location) (w w' : World) : Prop extends Settled w w' where
  tree : w'.disk.IsTree
  outside : ∀ m : Location, (∀ l ∈ places, l.covers m = false) →
    w'.disk.find? m = w.disk.find? m ∨
      (∃ l ∈ places, m.covers l = true) ∧ w.disk.find? m = none ∧ w'.disk.find? m = some .directory

namespace Altered

variable {places more : List Location} {w w' : World}

theorem refl (tree : w.disk.IsTree) : Altered places w w := ⟨.refl w, tree, fun _ _ => .inl rfl⟩

theorem trans {w₁ w₂ w₃ : World} (h : Altered places w₁ w₂) (h' : Altered places w₂ w₃) :
    Altered places w₁ w₃ := by
  refine ⟨h.toSettled.trans h'.toSettled, h'.tree, fun m hm => ?_⟩
  rcases h'.outside m hm with h₂ | ⟨habove, hnone, hdir⟩
  · rw [h₂]
    exact h.outside m hm
  · rcases h.outside m hm with h₁ | ⟨-, -, hdir'⟩
    · exact .inr ⟨habove, h₁ ▸ hnone, hdir⟩
    · rw [hdir'] at hnone
      cases hnone

theorem mono (h : Altered places w w') (hsub : places ⊆ more) : Altered more w w' := by
  refine ⟨h.toSettled, h.tree, fun m hm => ?_⟩
  refine (h.outside m fun l hl => hm l (hsub hl)).imp id fun ⟨⟨l, hl, hcovers⟩, hnew⟩ => ?_
  exact ⟨⟨l, hsub hl, hcovers⟩, hnew⟩

theorem congr {w₁ w₁' : World} (h : Altered places w w₁) (hview : w₁'.view = w₁.view) :
    Altered places w w₁' := by
  simp only [World.view, View.mk.injEq] at hview
  obtain ⟨hdisk, hcwd, henvironment⟩ := hview
  refine ⟨⟨hcwd.trans h.cwd, henvironment.trans h.environment⟩, ?_, ?_⟩ <;> rw [hdisk]
  · exact h.tree
  · exact h.outside

theorem of_touched {l : Location} (h : w.Touched l w') (hl : l ∈ places) : Altered places w w' := by
  refine ⟨h.toSettled, h.tree, fun m hm => ?_⟩
  exact (h.outside m (hm l hl)).imp id fun hnew => ⟨⟨l, hl, hnew.1⟩, hnew.2⟩

/-- Nothing changes at and below a place apart from all of them. -/
theorem eq_of_apart (h : Altered places w w') {k m : Location}
    (hapart : ∀ l ∈ places, Location.Apart l k) (hm : k.covers m = true) :
    w'.disk.find? m = w.disk.find? m := by
  rcases h.outside m fun l hl => (hapart l hl).symm.not_covers hm with hsame | ⟨⟨l, hl, hcovers⟩, -⟩
  · exact hsame
  · have habove := Location.covers_trans hm hcovers
    rw [(hapart l hl).2] at habove
    cases habove

/-- A layout of which these are places stays one. -/
theorem layout {sites : List (Path × Location)} (h : Altered places w w')
    (layout : Disk.Layout w.disk w.cwd sites) (hplaces : places ⊆ sites.map Prod.snd) :
    Disk.Layout w'.disk w'.cwd sites := by
  rw [h.cwd]
  refine layout.of_same h.tree fun m hm => ?_
  exact (h.outside m fun l hl => hm l (hplaces hl)).imp id And.right

end Altered

end World

namespace Build

open Directory Disk World

/-- The paths that a build goes by on its own account, and the places that they reach. -/
structure Places where
  storeAt : Path
  temporary : Path
  /-- The directory in which the store is. -/
  above : Location
  name : String
  tmp : Location

namespace Places

variable (p : Places)

def store : Location := p.above ++ [p.name]

def beside : Location := p.above ++ [Store.besideName p.name]

/-- The place of the scratch directory with the `n`-th name. -/
def scratch (n : Nat) : Location := p.tmp ++ [scratchName n]

/-- The places, with some more of them, and with the scratch directories that have some given
names. -/
def sites (more : List (Path × Location)) (names : List String) : List (Path × Location) :=
  Store.sites p.storeAt p.above p.name ++
    (more ++ names.map fun name => (p.temporary.push name, p.tmp ++ [name]))

end Places

/-- The places where saving a store changes something. -/
def Places.saving (p : Places) : List Location := [p.store, p.beside]

/-- Names of scratch directories, none of them twice. -/
structure ScratchNames (names : List String) : Prop where
  nodup : names.Nodup
  scratch : ∀ name ∈ names, ∃ n, name = scratchName n

theorem ScratchNames.nil : ScratchNames [] := ⟨.nil, by simp⟩

theorem ScratchNames.singleton (n : Nat) : ScratchNames [scratchName n] := ⟨by simp, by simp⟩

/-- The places do not overlap, and no path goes through one of them on its way to another. -/
structure LaidOut (p : Places) (more : List (Path × Location)) (w : World) : Prop where
  layout : ∀ names, ScratchNames names → Layout w.disk w.cwd (p.sites more names)
  temporary : temporaryFor w.cwd w.environment = p.temporary

variable {p : Places} {more : List (Path × Location)} {names : List String} {w w' : World}

section Sites

theorem mem_sites_store : (p.storeAt, p.store) ∈ p.sites more names := by
  simp [Places.sites, Store.sites, Places.store]

theorem mem_sites_beside : (Store.stagingDirectory p.storeAt, p.beside) ∈ p.sites more names := by
  simp [Places.sites, Store.sites, Places.beside]

theorem mem_sites_more {site : Path × Location} (h : site ∈ more) : site ∈ p.sites more names := by
  simp [Places.sites, h]

theorem mem_sites_scratch {n : Nat} (hn : scratchName n ∈ names) :
    (p.temporary.push (scratchName n), p.scratch n) ∈ p.sites more names := by
  simp [Places.sites, Places.scratch, hn]

end Sites

namespace LaidOut

theorem of_quiet (h : LaidOut p more w) (hquiet : w.Quiet w') : LaidOut p more w' := by
  refine ⟨fun names hnames => ?_, ?_⟩
  · rw [hquiet.disk, hquiet.cwd]
    exact h.layout names hnames
  · rw [hquiet.cwd, hquiet.environment, h.temporary]

theorem sublist {fewer : List (Path × Location)} (h : LaidOut p more w) (hsub : fewer.Sublist more) :
    LaidOut p fewer w := by
  refine ⟨fun names hnames => (h.layout names hnames).sublist ?_, h.temporary⟩
  exact (List.Sublist.refl _).append (hsub.append (.refl _))

theorem tree (h : LaidOut p more w) : w.disk.IsTree := (h.layout [] .nil).tree

theorem store_layout (h : LaidOut p more w) :
    Layout w.disk w.cwd (Store.sites p.storeAt p.above p.name) :=
  (h.layout [] .nil).sublist (List.sublist_append_left _ _)

theorem reaches_store (h : LaidOut p more w) :
    (w.disk.erase p.store).Reaches w.cwd p.storeAt p.store :=
  (h.layout [] .nil).reaches_erase mem_sites_store

theorem reaches_more {site : Path × Location} (h : LaidOut p more w) (hsite : site ∈ more) :
    (w.disk.erase site.2).Reaches w.cwd site.1 site.2 :=
  (h.layout [] .nil).reaches_erase (mem_sites_more hsite)

theorem reaches_scratch (h : LaidOut p more w) (n : Nat) :
    (w.disk.erase (p.scratch n)).Reaches w.cwd (p.temporary.push (scratchName n)) (p.scratch n) := by
  have hreach := (h.layout _ (.singleton n)).reaches_erase (mem_sites_scratch List.mem_cons_self)
  dsimp only at hreach
  exact hreach

theorem apart_scratch (h : LaidOut p more w) (n : Nat) {site : Path × Location}
    (hsite : site ∈ p.sites more []) : Location.Apart (p.scratch n) site.2 := by
  have hpairwise := (h.layout _ (.singleton n)).apart
  have hsplit : p.sites more [scratchName n] =
      p.sites more [] ++ [(p.temporary.push (scratchName n), p.scratch n)] := by
    simp [Places.sites, Places.scratch]
  rw [hsplit, List.map_append, List.pairwise_append] at hpairwise
  exact (hpairwise.2.2 site.2 (List.mem_map_of_mem hsite) _ (by simp)).symm

theorem apart_more (h : LaidOut p more w) {site : Path × Location} (hsite : site ∈ more) :
    Location.Apart site.2 p.store ∧ Location.Apart site.2 p.beside := by
  have hpairwise := (h.layout [] .nil).apart
  rw [Places.sites, List.map_append, List.pairwise_append] at hpairwise
  have hmore : site.2 ∈ (more ++ ([] : List String).map fun name =>
      (p.temporary.push name, p.tmp ++ [name])).map Prod.snd :=
    List.mem_map_of_mem (List.mem_append_left _ hsite)
  exact ⟨(hpairwise.2.2 _ (by simp [Store.sites, Places.store]) _ hmore).symm,
    (hpairwise.2.2 _ (by simp [Store.sites, Places.beside]) _ hmore).symm⟩

/-- The directory for temporary files is the one above the scratch places. -/
theorem eq_scratch {q : Path} {l : Location} (h : LaidOut p more w)
    (htemporary : Temporary w.disk w.cwd w.environment q l) (hcheck : q.check = .ok ())
    (hsize : ∀ k name, l = k ++ [name] → name.utf8ByteSize ≤ Path.nameLimit) :
    ∃ n, q = p.temporary.push (scratchName n) ∧ l = p.scratch n := by
  obtain ⟨k, n, hleads, rfl, rfl⟩ := htemporary
  refine ⟨n, by rw [h.temporary], ?_⟩
  have hslot := hleads.slot_push (isName_scratchName n)
  rw [hcheck, if_neg (Nat.not_lt.2 (hsize k _ rfl))] at hslot
  have hreach := (h.reaches_scratch n).of_erase
  rw [← h.temporary] at hreach
  obtain ⟨-, k', name, hk, -, -, -, heq⟩ := (hreach.slot_eq_ok_iff h.tree).1 hslot
  cases heq
  exact hk.symm

end LaidOut

section Saving

variable {w₁ : World}

theorem altered_store (h : w.Touched p.store w₁) : w.Altered p.saving w₁ :=
  .of_touched h (by simp [Places.saving])

theorem altered_beside (h : w.Touched p.beside w₁) : w.Altered p.saving w₁ :=
  .of_touched h (by simp [Places.saving])

theorem altered_of_saved {files : String → Option ByteArray}
    (h : Store.Saved p.above p.name files w w₁) : w.Altered p.saving w₁ := by
  refine ⟨h.toSettled, h.tree, fun m hm => ?_⟩
  have hplaces := h.outside m (hm p.store (by simp [Places.saving]))
    (hm p.beside (by simp [Places.saving]))
  exact hplaces.imp id fun hnew => ⟨⟨p.beside, by simp [Places.saving], hnew.1⟩, hnew.2⟩

end Saving

/-- Normal forms of places that do not overlap are laid out if no link stands above one of them. -/
theorem laidOut_toPath {above tmp : Location} {name : String} (more : List (Location × String))
    (tree : w.disk.IsTree) (plain : ∀ l ∈ above :: tmp :: more.map Prod.fst, w.disk.IsPlain l)
    (htemporary : temporaryFor w.cwd w.environment = tmp.toPath) (hne : tmp ≠ [])
    (hstore : (above ++ [name]).IsProper) (htmp : tmp.IsProper)
    (hmore : ∀ x ∈ more, Location.IsProper (x.1 ++ [x.2]))
    (hapart : ((above ++ [name]) :: (above ++ [Store.besideName name]) :: tmp ::
      more.map fun x => x.1 ++ [x.2]).Pairwise Location.Apart) :
    LaidOut ⟨(above ++ [name]).toPath, tmp.toPath, above, name, tmp⟩
      (more.map fun x => (Location.toPath (x.1 ++ [x.2]), x.1 ++ [x.2])) w := by
  refine ⟨fun names hnames => ?_, htemporary⟩
  have hname (n : String) (hn : n ∈ names) : Path.IsName n := by
    obtain ⟨i, rfl⟩ := hnames.scratch n hn
    exact isName_scratchName i
  have hbeside : (above ++ [Store.besideName name]).IsProper := by
    intro part hpart
    rcases List.mem_append.1 hpart with hpart | hpart
    · exact hstore part (List.mem_append_left _ hpart)
    · rw [List.mem_singleton.1 hpart]
      exact Store.isName_besideName (hstore name (by simp))
  have hscratch (n : String) (hn : n ∈ names) : Location.IsProper (tmp ++ [n]) := by
    intro part hpart
    rcases List.mem_append.1 hpart with hpart | hpart
    · exact htmp part hpart
    · rw [List.mem_singleton.1 hpart]
      exact hname n hn
  set places : List (Location × String) :=
    (above, name) :: (above, Store.besideName name) :: (more ++ names.map fun n => (tmp, n))
    with hplaces
  have hsites : Places.sites ⟨(above ++ [name]).toPath, tmp.toPath, above, name, tmp⟩
      (more.map fun x => (Location.toPath (x.1 ++ [x.2]), x.1 ++ [x.2])) names =
        places.map fun x => (Location.toPath (x.1 ++ [x.2]), x.1 ++ [x.2]) := by
    have hpush : ∀ n ∈ names, tmp.toPath.push n = Location.toPath (tmp ++ [n]) := fun n hn =>
      (Location.toPath_push hne (hscratch n hn)).symm
    simp [hplaces, Places.sites, Store.sites, Store.stagingDirectory_toPath]
    exact hpush
  rw [hsites]
  refine layout_toPath tree (fun x hx => ?_) (fun x hx => ?_) ?_
  · simp only [hplaces, List.mem_cons, List.mem_append, List.mem_map] at hx
    rcases hx with rfl | rfl | hx | ⟨n, hn, rfl⟩
    · exact hstore
    · exact hbeside
    · exact hmore x hx
    · exact hscratch n hn
  · simp only [hplaces, List.mem_cons, List.mem_append, List.mem_map] at hx
    rcases hx with rfl | rfl | hx | ⟨n, hn, rfl⟩
    · exact plain above (by simp)
    · exact plain above (by simp)
    · exact plain x.1 (by simpa using .inr (.inr ⟨x.2, hx⟩))
    · exact plain tmp (by simp)
  · have hbelow (k : Location) (hk : Location.Apart k tmp) (n : String) :
        Location.Apart k (tmp ++ [n]) := hk.append [n]
    have hscratches : (names.map fun n => tmp ++ [n]).Pairwise Location.Apart := by
      rw [List.pairwise_map]
      exact hnames.nodup.imp fun hne' => ⟨Location.covers_sibling hne', Location.covers_sibling hne'.symm⟩
    simp only [List.pairwise_cons, List.forall_mem_cons] at hapart
    obtain ⟨⟨hstore₁, hstore₂, hstore₃⟩, ⟨hbeside₁, hbeside₂⟩, htmp', hmore'⟩ := hapart
    simp only [hplaces, List.map_cons, List.map_append, List.map_map, List.pairwise_cons,
      List.pairwise_append, List.forall_mem_cons, List.forall_mem_append]
    refine ⟨⟨hstore₁, hstore₃, ?_⟩, ⟨hbeside₂, ?_⟩, hmore', hscratches, fun k hk => ?_⟩
    all_goals
      intro l hl
      obtain ⟨n, -, rfl⟩ := List.mem_map.1 hl
    · exact hbelow _ hstore₂ n
    · exact hbelow _ hbeside₁ n
    · exact hbelow _ (htmp' k hk).symm n

end Build

end Recompile
