import Recompile.Proofs.Build.Contained
import Recompile.Proofs.Build.Visible
import Recompile.Proofs.Staging.Published

/-!
# What a build with a store publishes

A build with a store that has compiled has deleted the files of the stale classes from the output
directory and put there the files of the classes that the examiner reported, as they are in the
destination. Saving the store before does not touch the output directory, nor does discarding the
workspace after, as long as these places lie apart from it.
-/

namespace Recompile

theorem Location.Apart.not_covers_of_between {k l m : Location} (h : Location.Apart k l)
    (hm : m.covers k = true ∨ k.covers m = true) : l.covers m = false := by
  rcases hm with hm | hm
  · rw [Bool.eq_false_iff]
    intro hl
    have hcovers := Location.covers_trans hl hm
    rw [h.2] at hcovers
    cases hcovers
  · exact h.not_covers hm

theorem Staging.Stands.extends {w w₁ : World} {a b : Location} (h : Staging.Stands w a b w₁) :
    w.disk.Extends w₁.disk := by
  intro m e hm
  rw [← h.rest, Disk.find?_erase, Disk.find?_erase] at hm
  split_ifs at hm
  exact hm

namespace Build

open Directory Disk Staging World

attribute [local irreducible] Action.wp scratchName

variable {tools : Toolchain} {p : Places} {w w₁ w₂ : World} {o a b : Location} {ws : Workspace}
  {storeRoot output sourceTree : Path} {s : Store} {deletes copies : List String}

/-- The output path opens a directory that overlaps none of the places of a build, and that does not
depend on what is at the store. -/
structure OpensOutside (p : Places) (output : Path) (o : Location) (w : World) : Prop where
  opens : ((w.disk.erase p.store).erase p.beside).Opens w.cwd output o
  store : Location.Apart o p.store
  beside : Location.Apart o p.beside
  scratch : ∀ n, w.disk.find? (p.scratch n) = none → Location.Apart o (p.scratch n)

/-- An output directory that is laid out with the places of a build lies outside of them. -/
theorem OpensOutside.of_laidOut (h : LaidOut p [(output, o)] w)
    (links : ∀ m : Location, o.covers m = true → ∀ target, w.disk.find? m ≠ some (.link target)) :
    OpensOutside p output o w := by
  have hmem : (output, o) ∈ [(output, o)] := List.mem_singleton_self _
  obtain ⟨hstore, hbeside⟩ := h.apart_more hmem
  have hreach : (((w.disk.erase p.store).erase p.beside).erase o).Reaches w.cwd output o :=
    (h.layout [] .nil).reaches (output, o) (mem_sites_more hmem)
  have hlinks (m : Location) (hm : o.covers m = true) (target : Path) :
      ((w.disk.erase p.store).erase p.beside).find? m ≠ some (.link target) := by
    rw [find?_erase_erase _ (hstore.not_covers hm) (hbeside.not_covers hm)]
    exact links m hm target
  exact ⟨⟨(h.tree.erase _).erase _, fun _ _ hnames => hreach.of_erase.foldl_push hnames hlinks, hlinks⟩,
    hstore, hbeside, fun n _ => (h.apart_scratch n (mem_sites_more hmem)).symm⟩

theorem OpensOutside.of_quiet (h : OpensOutside p output o w) (hquiet : w.Quiet w₁) :
    OpensOutside p output o w₁ := by
  refine ⟨?_, h.store, h.beside, fun n => ?_⟩
  · rw [hquiet.disk, hquiet.cwd]
    exact h.opens
  · rw [hquiet.disk]
    exact h.scratch n

/-- Saving a store keeps the output directory open. -/
theorem OpensOutside.saved (h : OpensOutside p output o w) (hcwd : w₁.cwd = w.cwd)
    (hextends : w.disk.Extends w₁.disk)
    (hlinks : ∀ m : Location, m.covers o = true ∨ o.covers m = true → ∀ target,
      w₁.disk.find? m = some (.link target) → w.disk.find? m = some (.link target))
    (haltered : w₁.Altered p.saving w₂) : w₂.disk.Opens w₂.cwd output o := by
  rw [haltered.cwd, hcwd]
  refine h.opens.of_ways haltered.tree (fun m e hm _ => ?_) fun m hm target hlink => ?_
  · by_cases hnil : m = []
    · subst hnil
      simpa using hm
    rw [find?_erase, find?_erase] at hm
    split_ifs at hm with hbeside hstore
    simp only [hnil, ne_eq, not_false_eq_true, true_and, Bool.not_eq_true] at hbeside hstore
    have hm₁ := hextends m e hm
    rcases haltered.outside m (by simp [Places.saving, hbeside, hstore]) with hsame | ⟨-, hnone, -⟩
    · rw [hsame, hm₁]
    · rw [hm₁] at hnone
      cases hnone
  · have hstore := h.store.not_covers_of_between hm
    have hbeside := h.beside.not_covers_of_between hm
    rw [find?_erase_erase _ hstore hbeside]
    rcases haltered.outside m (by simp [Places.saving, hbeside, hstore]) with hsame | ⟨-, -, hdir⟩
    · exact hlinks m hm target (hsame ▸ hlink)
    · rw [hdir] at hlink
      cases hlink

/-- A workspace stands apart from the output directory. -/
theorem OpensOutside.apart_of_stands (h : OpensOutside p output o w) (laidOut : LaidOut p [] w)
    (placed : Placed w ws a b) (hstands : Stands w a b w₁) :
    Location.Apart o a ∧ Location.Apart o b := by
  obtain ⟨i, j, hi, hj, -, -, -⟩ := laidOut.layout_of_stands placed hstands
  have habsent {x : Location} (hne : x ≠ []) (hx : a.covers x = true ∨ b.covers x = true) :
      w.disk.find? x = none := by
    rw [← hstands.rest]
    exact find?_erase_erase_of_covers _ hne hx
  have ha := habsent placed.classpath.reaches.ne_nil (.inl (Location.covers_self a))
  have hb := habsent placed.destination.reaches.ne_nil (.inr (Location.covers_self b))
  exact ⟨hi ▸ h.scratch i (hi ▸ ha), hj ▸ h.scratch j (hj ▸ hb)⟩

/-- Nothing is created in the output directory until what was compiled is published. -/
theorem OpensOutside.fileAt_of_stands (h : OpensOutside p output o w) (laidOut : LaidOut p [] w)
    (placed : Placed w ws a b) (hstands : Stands w a b w₁) (names : List String) :
    w₁.disk.fileAt (o ++ names) = w.disk.fileAt (o ++ names) := by
  obtain ⟨hapart_a, hapart_b⟩ := h.apart_of_stands laidOut placed hstands
  have hbelow := Location.covers_append o names
  rw [fileAt, fileAt, hstands.find?_eq (hapart_a.not_covers hbelow) (hapart_b.not_covers hbelow)]

/-- The normal form of a place apart from the places of a build, on a disk without links. -/
theorem opensOutside_toPath (tree : w.disk.IsTree)
    (links : ∀ l target, w.disk.find? l ≠ some (.link target)) (ho : o.IsProper) (hne : o ≠ [])
    (hstore : Location.Apart o p.store) (hbeside : Location.Apart o p.beside)
    (htmp : Location.Apart o p.tmp) : OpensOutside p o.toPath o w := by
  refine ⟨?_, hstore, hbeside, fun n _ => htmp.append [scratchName n]⟩
  refine opens_toPath ((tree.erase _).erase _) (fun l target hlink => ?_) ho hne
  rw [find?_erase, find?_erase] at hlink
  split_ifs at hlink
  exact links l target hlink

/-- Saving a store, deleting the files of some classes and publishing those of others. -/
def saveAndPublish (s : Store) (destination output : Path) (deletes copies : List String) :
    Action Unit := do
  Action.phase "save" s.save
  Action.phase "publish" do
    deleteClassFiles output deletes
    copyClassFiles destination output copies

section Commit

variable (laidOut : LaidOut p [] w) (houtside : OpensOutside p output o w)
  (placed : Placed w ws a b) (hstands : Stands w a b w₁) (hdirectory : s.directory = p.storeAt)
include laidOut houtside placed hstands hdirectory

theorem saveAndPublish_published (hdeletes : ∀ className ∈ deletes, ClassName.IsProper className)
    (hcopies : ∀ className ∈ copies, ClassName.IsProper className) :
    (saveAndPublish s ws.destination output deletes copies).wp w₁
      (fun _ w₃ => PublishedFrom b o (· ∈ deletes) (· ∈ copies) w₁.disk w₃.disk ∧
        Layout w₃.disk w₃.cwd [(ws.classpath, a), (ws.destination, b)] ∧
        w₃.disk.find? a = some .directory ∧ w₃.disk.find? b = some .directory)
      fun _ _ => True := by
  obtain ⟨hapart_a, hapart_b⟩ := houtside.apart_of_stands laidOut placed hstands
  obtain ⟨i, j, hi, hj, hclasspath, hdestination, layout₁⟩ := laidOut.layout_of_stands placed hstands
  have hsaving (n : Nat) : ∀ l ∈ p.saving, Location.Apart l (p.scratch n) := by
    have hstore := (laidOut.apart_scratch n mem_sites_store).symm
    have hbeside := (laidOut.apart_scratch n mem_sites_beside).symm
    simpa [Places.saving] using ⟨hstore, hbeside⟩
  have hsaving_o : ∀ l ∈ p.saving, Location.Apart l o := by
    simpa [Places.saving] using ⟨houtside.store.symm, houtside.beside.symm⟩
  have hsaving_a : ∀ l ∈ p.saving, Location.Apart l a := hi ▸ hsaving i
  have hsaving_b : ∀ l ∈ p.saving, Location.Apart l b := hj ▸ hsaving j
  unfold saveAndPublish
  rw [Action.wp_bind, Action.wp_phase]
  refine (save_altered (layout₁.sublist (List.sublist_append_left _ _)) hdirectory).mono
    (fun _ w₂ h₂ => ?_) fun _ _ _ => trivial
  have haltered := h₂.1.congr (quiet_traced w₂ "save").view
  generalize w₂.traced "save" = w₂ at haltered ⊢
  have hplaces : p.saving ⊆ (p.sites [] [scratchName i, scratchName j]).map Prod.snd := by
    intro l hl
    simp only [Places.saving, List.mem_cons, List.not_mem_nil, or_false] at hl
    rcases hl with rfl | rfl
    · exact List.mem_map_of_mem mem_sites_store
    · exact List.mem_map_of_mem mem_sites_beside
  have hsub : [(ws.classpath, a), (ws.destination, b)].Sublist
      (p.sites [] [scratchName i, scratchName j]) := by
    rw [hclasspath, hdestination, hi, hj]
    exact List.sublist_append_right _ _
  have layout₂ := (haltered.layout layout₁ hplaces).sublist hsub
  have ha₂ : w₂.disk.find? a = some .directory :=
    (haltered.eq_of_apart hsaving_a (Location.covers_self a)).trans hstands.classpath
  have hb₂ : w₂.disk.find? b = some .directory :=
    (haltered.eq_of_apart hsaving_b (Location.covers_self b)).trans hstands.destination
  have hleads : Leads w₂.disk w₂.cwd ws.destination b := by
    have hreach := layout₂.reaches_self (List.mem_cons_of_mem _ List.mem_cons_self)
    exact .of_resolve hreach.isOpen
      (hreach.resolve_of_find? layout₂.tree placed.destination_check hb₂ (by simp)) hb₂
  have hopens := houtside.saved hstands.cwd hstands.extends
    (fun m hm target hlink => (hstands.find?_eq (hapart_a.not_covers_of_between hm)
      (hapart_b.not_covers_of_between hm)).symm.trans hlink) haltered
  rw [Action.wp_phase]
  refine (publish_from hopens hleads hapart_b hdeletes hcopies).mono (fun _ w₃ h₃ => ?_)
    fun _ _ _ => trivial
  obtain ⟨hedited, hpublished⟩ := h₃
  refine ⟨hpublished.of_eq (fun names => ?_) fun names => ?_, ?_, hedited.ways _ _ ha₂ rfl,
    hedited.ways _ _ hb₂ rfl⟩
  · rw [fileAt, fileAt, haltered.eq_of_apart hsaving_b (Location.covers_append b names)]
  · rw [fileAt, fileAt, haltered.eq_of_apart hsaving_o (Location.covers_append o names)]
  · have hlayout := layout₂.of_ways hedited.tree (fun m _ e hm hfile => hedited.ways m e hm hfile)
      fun m _ target hm => hedited.links m target hm
    rw [← hedited.cwd] at hlayout
    exact hlayout

/-- Carrying out what was made ready publishes it. -/
theorem commit_published {stale produced : Names} {count : Nat}
    (hstale : ∀ className ∈ stale.toList, ClassName.IsProper className)
    (hproduced : ∀ className ∈ produced.toList, ClassName.IsProper className) :
    (commit output (.compiled ws s stale produced count)).wp w₁
      (fun _ w' => PublishedFrom b o (· ∈ stale.toList) (· ∈ produced.toList) w₁.disk w'.disk)
      fun _ _ => True := by
  obtain ⟨hapart_a, hapart_b⟩ := houtside.apart_of_stands laidOut placed hstands
  have hpublish := saveAndPublish_published laidOut houtside placed hstands hdirectory hstale
    hproduced
  have hfail (f : Failure) (w : World) : ws.discard.wp w (fun _ _ => True) fun _ _ => True :=
    Action.wp_of_forall (fun _ _ => trivial) fun _ _ => trivial
  unfold saveAndPublish at hpublish
  rw [Action.wp_bind] at hpublish
  rw [commit, Action.wp_finishing, Action.wp_bind]
  refine hpublish.mono (fun _ w₂ h₂ => ?_) fun f w₂ _ => hfail f w₂
  rw [Action.wp_bind]
  refine h₂.mono (fun _ w₃ h₃ => ?_) fun f w₃ _ => hfail f w₃
  obtain ⟨hpublished, layout₃, ha₃, hb₃⟩ := h₃
  rw [log, Action.wp_bind, Action.wp_log, Action.wp_pure]
  generalize (⟨.info, "incjc::build", "incremental build done"⟩ : Log.Event) = event
  refine (discard_laidOut (w := { w₃ with log := w₃.log ++ [event] }) layout₃ ha₃ hb₃
    placed.classpath_check placed.destination_check).mono (fun _ w' h' => ?_) fun _ _ => False.elim
  subst h'
  refine hpublished.of_after fun names => ?_
  have hbelow := Location.covers_append o names
  rw [fileAt, fileAt, find?_erase_erase _ (hapart_a.not_covers hbelow) (hapart_b.not_covers hbelow)]

end Commit

section Run

variable {n : Nat} {w' : World}

theorem newSource_compiled : (match (run oneClass ⟨"/meta"⟩ ⟨"/out"⟩ ⟨"/src"⟩).on newSource with
    | (.ok outcome, _) => outcome == .compiled 1
    | (.error _, _) => false) = true := by
  rw [newSource_hasEmptyStore.on_run_by (by decide) rfl oneClass_staysInside]
  decide +kernel

end Run

end Build

end Recompile
