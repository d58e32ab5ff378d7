import Recompile.Proofs.Build.Clear

/-!
# A build writes only where it may

However a build ends, it has changed something only in the output directory, at its store and where
the store is staged, and made directories that were missing above these. The scratch directories are
gone again. Where the store is staged nothing is left once it was saved.
-/

namespace Recompile.Build

open Directory Disk Staging World

attribute [local irreducible] Action.wp scratchName

variable {p : Places} {o : Path × Location} {w w₁ w₂ : World} {tools : Toolchain} {t : Target}
  {ws : Workspace} {a b : Location}

/-- The places where a build leaves something. -/
def Places.lasting (p : Places) (out : Location) : List Location := out :: p.saving

section Lasting

theorem saving_subset (out : Location) : p.saving ⊆ p.lasting out := List.subset_cons_self _ _

theorem altered_out {out : Location} (h : w.Touched out w₁) : w.Altered (p.lasting out) w₁ :=
  .of_touched h List.mem_cons_self

theorem lasting_subset (names : List String) :
    p.lasting o.2 ⊆ (p.sites [o] names).map Prod.snd := by
  intro l hl
  simp only [Places.lasting, Places.saving, List.mem_cons, List.not_mem_nil, or_false] at hl
  rcases hl with rfl | rfl | rfl
  · exact List.mem_map_of_mem (mem_sites_more List.mem_cons_self)
  · exact List.mem_map_of_mem mem_sites_store
  · exact List.mem_map_of_mem mem_sites_beside

theorem LaidOut.apart_lasting (h : LaidOut p [o] w) (n : Nat) :
    ∀ l ∈ p.lasting o.2, Location.Apart l (p.scratch n) := by
  intro l hl
  obtain ⟨site, hsite, rfl⟩ := List.mem_map.1 (lasting_subset [] hl)
  exact (h.apart_scratch n hsite).symm

theorem LaidOut.altered (h : LaidOut p [o] w) (haltered : w.Altered (p.lasting o.2) w₁) :
    LaidOut p [o] w₁ := by
  refine ⟨fun names hnames => haltered.layout (h.layout names hnames) (lasting_subset names), ?_⟩
  rw [haltered.cwd, haltered.environment, h.temporary]

end Lasting

/-! ## The store in its place -/

/-- A complete store is in its place, and nothing is where it was staged. -/
structure InPlace (p : Places) (d : Disk) : Prop where
  holds : ∃ s : Store, d.Holds p.store s.contents
  gone : ∀ m : Location, p.beside.covers m = true → d.find? m = none

/-- At the store and where it is staged nothing has changed. -/
def StoreKept (p : Places) (d d' : Disk) : Prop :=
  ∀ m : Location, p.store.covers m = true ∨ p.beside.covers m = true → d'.find? m = d.find? m

theorem InPlace.kept {d d' : Disk} (h : InPlace p d) (hkept : StoreKept p d d') : InPlace p d' := by
  obtain ⟨⟨s, hholds⟩, hgone⟩ := h
  refine ⟨⟨s, hholds.congr fun m hm => hkept m (.inl hm)⟩, fun m hm => ?_⟩
  rw [hkept m (.inr hm), hgone m hm]

theorem inPlace_of_saved {s : Store} (h : Store.Saved p.above p.name s.contents w w₁) :
    InPlace p w₁.disk := ⟨⟨s, h.holds⟩, h.gone⟩

theorem LaidOut.storeKept_of_touched (h : LaidOut p [o] w) (htouched : w₁.Touched o.2 w₂) :
    StoreKept p w₁.disk w₂.disk := by
  obtain ⟨hstore, hbeside⟩ := h.apart_more (List.mem_singleton_self o)
  rintro m (hm | hm)
  · exact htouched.outside.eq_of_apart hstore hm
  · exact htouched.outside.eq_of_apart hbeside hm

/-- What an outcome says of the disk. A build that has compiled has saved the store. A build that
finds nothing to compile has saved it too, or has changed nothing at all. -/
def Settles (p : Places) (w : World) : Outcome → World → Prop
  | .noSources, w' => w'.view = w.view
  | .upToDate, w' => InPlace p w'.disk ∨ w'.view = w.view
  | .compiled _, w' => InPlace p w'.disk
  | .compileFailed, w' => StoreKept p w.disk w'.disk

/-- What a build comes to on the disk. -/
structure Contained (p : Places) (o : Path × Location) (w : World) (result : Except Failure Outcome)
    (w' : World) : Prop where
  altered : w.Altered (p.lasting o.2) w'
  settles : ∀ outcome, result = .ok outcome → Settles p w outcome w'

theorem contained_error {f : Failure} (h : w.Altered (p.lasting o.2) w₁) :
    Contained p o w (.error f) w₁ := ⟨h, by simp⟩

theorem contained_ok (outcome : Outcome) (h : w.Altered (p.lasting o.2) w₁)
    (hsettles : Settles p w outcome w₁) : Contained p o w (.ok outcome) w₁ :=
  ⟨h, fun _ heq => Except.ok.inj heq ▸ hsettles⟩

theorem save_altered {s : Store} (layout : Layout w.disk w.cwd (Store.sites p.storeAt p.above p.name))
    (hdirectory : s.directory = p.storeAt) :
    s.save.wp w (fun _ w' => w.Altered p.saving w' ∧ InPlace p w'.disk)
      fun _ w' => w.Altered p.saving w' := by
  rw [← hdirectory] at layout
  refine (Store.save_saves s layout).mono (fun _ w' h' => ?_) fun _ w' h' => altered_beside h'
  exact ⟨altered_of_saved h'.1, inPlace_of_saved h'.1⟩

/-! ## Publishing -/

section Publish

/-- No link is in the output directory, which the output path reaches. -/
structure Publishable (o : Path × Location) (w : World) : Prop where
  reaches : (w.disk.erase o.2).Reaches w.cwd o.1 o.2
  tree : w.disk.IsTree
  not_link : ∀ m : Location, o.2.covers m = true → ∀ target, w.disk.find? m ≠ some (.link target)

theorem Publishable.filled (h : Publishable o w) (hfilled : Filled o.2 w w₁) :
    Publishable o w₁ := by
  refine ⟨?_, hfilled.tree, hfilled.not_link⟩
  rw [hfilled.cwd]
  refine h.reaches.of_ways (fun m e hfind _ => ?_) fun top htop hne hlink target hfind => ?_
  · rw [find?_erase] at hfind ⊢
    split_ifs at hfind ⊢ with hcond
    by_cases hnil : m = []
    · subst hnil
      simpa using hfind
    have hm : o.2.covers m = false := by simpa [hnil] using hcond
    rw [hfilled.outside.eq_of_isSome hm (by simp [hfind]), hfind]
  · have hnot : o.2.covers top = false := by
      rw [Bool.eq_false_iff]
      exact fun hcovers => hne (Location.covers_antisymm htop hcovers)
    rw [find?_erase, if_neg (by simp [hnot])] at hfind
    rcases hfilled.outside top hnot with hsame | ⟨-, -, hdir⟩
    · refine hlink target ?_
      rw [find?_erase, if_neg (by simp [hnot]), ← hsame, hfind]
    · rw [hdir] at hfind
      cases hfind

theorem publishable {names : List String} (layout : Layout w.disk w.cwd (p.sites [o] names))
    (hlink : ∀ m : Location, o.2.covers m = true → ∀ target, w.disk.find? m ≠ some (.link target)) :
    Publishable o w :=
  ⟨layout.reaches_erase (mem_sites_more List.mem_cons_self), layout.tree, hlink⟩

theorem deleteClassFiles_published (h : Publishable o w) {classes : List String}
    (hproper : ∀ className ∈ classes, ClassName.IsProper className) :
    (deleteClassFiles o.1 classes).wp w (fun _ w' => w.Touched o.2 w' ∧ Publishable o w')
      fun _ w' => w.Touched o.2 w' :=
  (deleteClassFiles_filled classes hproper h.reaches (.refl h.tree h.not_link)).mono
    (fun _ _ h' => ⟨h'.toTouched, h.filled h'⟩) fun _ _ h' => h'.toTouched

theorem copyClassFiles_published (h : Publishable o w) (source : Path) {classes : List String}
    (hproper : ∀ className ∈ classes, ClassName.IsProper className) :
    (copyClassFiles source o.1 classes).wp w (fun _ w' => w.Touched o.2 w')
      fun _ w' => w.Touched o.2 w' :=
  (copyClassFiles_filled source classes hproper h.reaches (.refl h.tree h.not_link)).mono
    (fun _ _ h' => h'.toTouched) fun _ _ h' => h'.toTouched

/-- Saving a store and then changing the output directory. -/
theorem save_publish_altered {names : List String} {s : Store} {publish : Action Unit}
    (h : LaidOut p [o] w) (layout : Layout w₁.disk w₁.cwd (p.sites [o] names))
    (hlink : ∀ m : Location, o.2.covers m = true → ∀ target, w₁.disk.find? m ≠ some (.link target))
    (hdirectory : s.directory = p.storeAt)
    (hpublish : ∀ w, Publishable o w →
      publish.wp w (fun _ w' => w.Touched o.2 w') fun _ w' => w.Touched o.2 w') :
    (Action.phase "save" s.save).wp w₁
      (fun _ w₂ => publish.wp w₂
        (fun _ w' => w₁.Altered (p.lasting o.2) w' ∧ InPlace p w'.disk)
        fun _ w' => w₁.Altered (p.lasting o.2) w')
      fun _ w' => w₁.Altered (p.lasting o.2) w' := by
  rw [Action.wp_phase]
  refine (save_altered (layout.sublist (List.sublist_append_left _ _)) hdirectory).mono
    (fun _ w₂ h₂ => ?_) fun _ w₂ h₂ =>
      (h₂.mono (saving_subset o.2)).congr (quiet_traced w₂ _).view
  obtain ⟨hsaving, hinPlace⟩ := h₂
  replace hsaving := hsaving.congr (quiet_traced w₂ "save").view
  have hinPlace' : InPlace p (w₂.traced "save").disk := hinPlace
  have haltered := hsaving.mono (saving_subset o.2)
  obtain ⟨hstore, hbeside⟩ := h.apart_more (List.mem_singleton_self o)
  have hlink₂ (m : Location) (hm : o.2.covers m = true) (target : Path) :
      (w₂.traced "save").disk.find? m ≠ some (.link target) := by
    rw [hsaving.eq_of_apart (by simp [Places.saving, hstore.symm, hbeside.symm]) hm]
    exact hlink m hm target
  refine (hpublish _ (publishable (haltered.layout layout (lasting_subset _)) hlink₂)).mono
    (fun _ w₃ h₃ => ⟨haltered.trans (altered_out h₃), ?_⟩)
    fun _ w₃ h₃ => haltered.trans (altered_out h₃)
  exact hinPlace'.kept (h.storeKept_of_touched h₃)

end Publish

/-! ## With a workspace -/

/-- Discarding a workspace brings back what was where it stood, whatever has happened elsewhere. -/
theorem discard_altered (h : LaidOut p [o] w) (placed : Placed w ws a b)
    (hstands : Stands w a b w₁) (haltered : w₁.Altered (p.lasting o.2) w₂) :
    ws.discard.wp w₂
      (fun _ w₃ => w.Altered (p.lasting o.2) w₃ ∧ StoreKept p w₂.disk w₃.disk) fun _ _ => False := by
  obtain ⟨i, j, ha, hb, hclasspath, hdestination, layout₁⟩ := h.layout_of_stands placed hstands
  have layout₂ := haltered.layout layout₁ (lasting_subset _)
  have hlasting (l : Location) (hl : l ∈ p.lasting o.2) : Location.Apart l a ∧ Location.Apart l b :=
    ⟨ha ▸ h.apart_lasting i l hl, hb ▸ h.apart_lasting j l hl⟩
  have hbelow (x : Location) (hx : ∀ l ∈ p.lasting o.2, Location.Apart l x)
      (hdir : w₁.disk.find? x = some .directory) : w₂.disk.find? x = some .directory :=
    (haltered.eq_of_apart hx (Location.covers_self x)).trans hdir
  have hsub : [(ws.classpath, a), (ws.destination, b)].Sublist
      (p.sites [o] [scratchName i, scratchName j]) := by
    rw [hclasspath, hdestination, ha, hb]
    exact (List.sublist_append_right [o] _).trans (List.sublist_append_right _ _)
  refine (discard_laidOut (layout₂.sublist hsub)
    (hbelow a (fun l hl => (hlasting l hl).1) hstands.classpath)
    (hbelow b (fun l hl => (hlasting l hl).2) hstands.destination)
    placed.classpath_check placed.destination_check).mono (fun _ w₃ h₃ => ?_) fun _ _ => id
  subst h₃
  refine ⟨⟨hstands.toSettled.trans ⟨haltered.cwd, haltered.environment⟩,
    (layout₂.tree.erase a).erase b, fun m hm => ?_⟩, ?_⟩
  · rw [← hstands.rest]
    by_cases hm' : a.covers m = true ∨ b.covers m = true
    · have hne : m ≠ [] := by
        rintro rfl
        simp [ha, hb, Places.scratch] at hm'
      rw [find?_erase_erase_of_covers _ hne hm', find?_erase_erase_of_covers _ hne hm']
      exact .inl rfl
    · simp only [not_or, Bool.not_eq_true] at hm'
      rw [find?_erase_erase _ hm'.1 hm'.2, find?_erase_erase _ hm'.1 hm'.2]
      exact haltered.outside m hm
  · rintro m (hm | hm)
    · have hstore := hlasting p.store (by simp [Places.lasting, Places.saving])
      exact find?_erase_erase _ (hstore.1.not_covers hm) (hstore.2.not_covers hm)
    · have hbeside := hlasting p.beside (by simp [Places.lasting, Places.saving])
      exact find?_erase_erase _ (hbeside.1.not_covers hm) (hbeside.2.not_covers hm)

/-! ## With a store -/

/-- What is ready is about the store in its place and about classes with proper names. -/
def Committable (p : Places) : Ready → Prop
  | .pruned s stale => s.directory = p.storeAt ∧
      ∀ className ∈ stale.toList, ClassName.IsProper className
  | .compiled _ s stale produced _ => s.directory = p.storeAt ∧
      (∀ className ∈ stale.toList, ClassName.IsProper className) ∧
      ∀ className ∈ produced.toList, ClassName.IsProper className
  | _ => True

theorem committable_of_readied {P : ClassFact → Prop} {store : Store} {changes : Changes}
    {affected : Names} {ready : Ready} {sourceTree : Path}
    (hP : ∀ fact, P fact → ClassName.IsProper fact.className)
    (hdirectory : store.directory = p.storeAt) (hproper : HasProperClasses store)
    (h : Readied (∀ fact ∈ ·, P fact) sourceTree store changes (plan store changes affected) ready) :
    Committable p ready := by
  cases ready with
  | nothing => trivial
  | rejected => trivial
  | pruned s stale =>
    obtain ⟨-, rfl, rfl⟩ := h
    exact ⟨hdirectory, proper_of_stale hproper⟩
  | compiled ws s stale produced count =>
    obtain ⟨rfl, facts, hfacts, rfl, rfl⟩ := h
    exact ⟨hdirectory, proper_of_stale hproper,
      proper_of_produced fun fact hfact => hP fact (hfacts fact hfact)⟩

/-- Carrying out what was made ready. -/
theorem commit_contained {ready : Ready} (h : LaidOut p [o] w)
    (hlink : ∀ m : Location, o.2.covers m = true → ∀ target, w.disk.find? m ≠ some (.link target))
    (hprepared : Prepared w ready w₁) (hcommittable : Committable p ready) :
    (commit o.1 ready).wp w₁ (fun outcome => Contained p o w (.ok outcome))
      fun f => Contained p o w (.error f) := by
  have unchanged (w₂ : World) (hview : w₂.view = w.view) : w.Altered (p.lasting o.2) w₂ :=
    (Altered.refl h.tree).congr hview
  cases ready with
  | nothing =>
    rw [commit, Action.wp_bind, Action.wp_print, Action.wp_pure]
    exact contained_ok .upToDate (unchanged _ hprepared) (Or.inr hprepared)
  | rejected =>
    refine (Action.wp_pure _).2 (contained_ok .compileFailed (unchanged _ hprepared) fun m _ => ?_)
    rw [show w₁.disk = w.disk from congrArg View.disk hprepared]
  | pruned s stale =>
    obtain ⟨hdirectory, hstale⟩ := hcommittable
    have haltered := unchanged _ hprepared
    have hlink₁ : ∀ m : Location, o.2.covers m = true →
        ∀ target, w₁.disk.find? m ≠ some (.link target) := by
      rw [show w₁.disk = w.disk from congrArg View.disk hprepared]
      exact hlink
    have hcommit := save_publish_altered h
      (haltered.layout (h.layout [] .nil) (lasting_subset [])) hlink₁ hdirectory fun w hw =>
        (deleteClassFiles_published hw hstale).mono (fun _ _ h' => h'.1) fun _ _ => id
    rw [commit]
    simp only [Action.wp_bind]
    refine hcommit.mono (fun _ w₂ h₂ => h₂.mono (fun _ w₃ h₃ => ?_) fun _ w₃ h₃ => ?_)
      fun _ w₂ h₂ => contained_error (haltered.trans h₂)
    · rw [Action.wp_print, Action.wp_pure]
      exact contained_ok .upToDate ((haltered.trans h₃.1).congr rfl) (Or.inl h₃.2)
    · exact contained_error (haltered.trans h₃)
  | compiled ws s stale produced count =>
    obtain ⟨hdirectory, hstale, hproduced⟩ := hcommittable
    obtain ⟨a, b, placed, hstands⟩ := hprepared
    obtain ⟨i, j, ha, hb, -, -, layout⟩ := h.layout_of_stands placed hstands
    have hlink₁ (m : Location) (hm : o.2.covers m = true) (target : Path) :
        w₁.disk.find? m ≠ some (.link target) := by
      have hapart (x : Location) (n : Nat) (hx : x = p.scratch n) : x.covers m = false := by
        rw [hx]
        exact (h.apart_lasting n o.2 List.mem_cons_self).not_covers hm
      rw [hstands.find?_eq (hapart a i ha) (hapart b j hb)]
      exact hlink m hm target
    have hpublish (w : World) (hw : Publishable o w) :
        (do
          deleteClassFiles o.1 stale.toList
          copyClassFiles ws.destination o.1 produced.toList).wp w (fun _ => w.Touched o.2)
          fun _ => w.Touched o.2 := by
      rw [Action.wp_bind]
      refine (deleteClassFiles_published hw hstale).mono (fun _ w₁ h₁ => ?_) fun _ _ => id
      exact (copyClassFiles_published h₁.2 ws.destination hproduced).mono
        (fun _ _ h₂ => h₁.1.trans h₂) fun _ _ h₂ => h₁.1.trans h₂
    have hcommit := save_publish_altered h layout hlink₁ hdirectory hpublish
    have hdiscard (w₂ : World) (haltered : w₁.Altered (p.lasting o.2) w₂) :=
      discard_altered h placed hstands haltered
    have hfail (f : Failure) (w₂ : World) (h₂ : w₁.Altered (p.lasting o.2) w₂) :
        ws.discard.wp w₂ (fun _ w₃ => Contained p o w (.error f) w₃)
          fun f w₃ => Contained p o w (.error f) w₃ :=
      (hdiscard w₂ h₂).mono (fun _ _ h₃ => contained_error h₃.1) fun _ _ => False.elim
    rw [commit, Action.wp_finishing, Action.wp_bind]
    refine hcommit.mono (fun _ w₂ h₂ => ?_) fun f w₂ => hfail f w₂
    rw [Action.wp_bind, Action.wp_phase]
    refine h₂.mono (fun _ w₃ h₃ => ?_) fun f w₃ h₃ =>
      hfail f _ (h₃.congr (quiet_traced w₃ "publish").view)
    rw [log, Action.wp_bind, Action.wp_log, Action.wp_pure]
    refine (hdiscard _ ?_).mono (fun _ w₄ h₄ => ?_) fun _ _ => False.elim
    · exact h₃.1.congr rfl
    · exact contained_ok (.compiled count) h₄.1 (InPlace.kept h₃.2 h₄.2)

/-! ## Without a store -/

theorem recordAll_contained (inside : tools.StaysInside) {digests : Table} (h : LaidOut p [o] w)
    (hdir : w.disk.find? o.2 = some .directory) (houtput : t.output = o.1) :
    (recordAll tools t digests p.storeAt).wp w
      (fun _ w' => w.Altered (p.lasting o.2) w' ∧ InPlace p w'.disk)
      fun _ w' => w.Altered (p.lasting o.2) w' := by
  unfold recordAll
  simp only [Action.wp_bind]
  refine (Store.reset_reached h.tree h.reaches_store).mono (fun _ w₁ h₁ => ?_) fun _ w₁ h₁ =>
    (altered_store h₁.1).mono (saving_subset o.2)
  have haltered₁ := (altered_store h₁.1.toTouched).mono (saving_subset o.2)
  have laidOut₁ := h.altered haltered₁
  have hdir₁ : w₁.disk.find? o.2 = some .directory := by
    rw [h₁.1.outside.eq_of_apart (h.apart_more (List.mem_singleton_self o)).1.symm
      (Location.covers_self o.2), hdir]
  have hreach := (laidOut₁.reaches_more (List.mem_singleton_self o)).of_erase
  rw [← houtput] at hreach
  refine (recordClasses_reached inside (.new p.storeAt) t.sourceTree digests laidOut₁.tree hreach
    (by simp [hdir₁])).mono (fun recorded w₂ h₂ => ?_) fun _ w₂ h₂ =>
      haltered₁.trans (altered_out h₂)
  have haltered₂ := haltered₁.trans (altered_out h₂.1)
  rw [Action.wp_phase]
  refine (save_altered (h.altered haltered₂).store_layout h₂.2).mono (fun _ w₃ h₃ => ?_)
    fun _ w₃ h₃ => ?_
  · exact ⟨(haltered₂.trans (h₃.1.mono (saving_subset o.2))).congr rfl, h₃.2⟩
  · exact (haltered₂.trans (h₃.mono (saving_subset o.2))).congr rfl

theorem full_contained (inside : tools.StaysInside) (h : LaidOut p [o] w)
    (hlink : ∀ target, w.disk.find? o.2 ≠ some (.link target)) (houtput : t.output = o.1) :
    (full tools t p.storeAt).wp w (fun outcome => Contained p o w (.ok outcome))
      fun f => Contained p o w (.error f) := by
  have hreach := h.reaches_more (List.mem_singleton_self o)
  rw [← houtput] at hreach
  unfold full
  rw [Action.wp_bind]
  refine (compileAll_reached inside h.tree hreach hlink).mono (fun digests w₁ h₁ => ?_)
    fun _ w₁ h₁ => contained_error (altered_out h₁)
  have haltered : w.Altered (p.lasting o.2) w₁ := altered_out h₁.1
  cases digests with
  | none =>
    exact (Action.wp_pure _).2
      (contained_ok .compileFailed haltered (h.storeKept_of_touched h₁.1))
  | some digests =>
    dsimp only
    rw [Action.wp_bind]
    refine (recordAll_contained inside (h.altered haltered) h₁.2 houtput).mono (fun _ w₂ h₂ => ?_)
      fun _ w₂ h₂ => contained_error (haltered.trans h₂)
    rw [log, Action.wp_bind, Action.wp_log, Action.wp_pure]
    exact contained_ok (.compiled _) ((haltered.trans h₂.1).congr rfl) h₂.2

/-! ## A whole build -/

theorem Contained.of_quiet {result : Except Failure Outcome} (hquiet : w.Quiet w₁)
    (h : Contained p o w₁ result w₂) (tree : w.disk.IsTree) : Contained p o w result w₂ := by
  refine ⟨((Altered.refl tree).congr hquiet.view).trans h.altered, fun outcome heq => ?_⟩
  have hsettles := h.settles outcome heq
  cases outcome with
  | noSources => exact Eq.trans hsettles hquiet.view
  | upToDate => exact Or.imp_right (fun hview => Eq.trans hview hquiet.view) hsettles
  | compiled => exact hsettles
  | compileFailed =>
    have hkept : StoreKept p w₁.disk w₂.disk := hsettles
    rwa [hquiet.disk] at hkept

/-- However a build ends, something has changed only in the output directory, at the store and where
the store is staged, and directories above these may be new. What is at or below any place apart from
these three, such as the directory for temporary files or the target of a link, is as before. A build
that has compiled leaves a complete store and nothing where it was staged. Cleaning removes what is in
the output directory, the links as links. -/
theorem run_contained {storeRoot output sourceTree : Path} {out : Location} {w' : World}
    {result : Except Failure Outcome} (inside : tools.StaysInside)
    (reports : Reports tools fun fact => ClassName.IsProper fact.className)
    (laidOut : LaidOut p [(output.absolute w.cwd, out)] w)
    (hstore : storeFor storeRoot sourceTree w.cwd = p.storeAt)
    (hlink : ∀ target, w.disk.find? out ≠ some (.link target))
    (hlinks : Store.isAt w.disk w.cwd p.storeAt = true →
      ∀ m : Location, out.covers m = true → ∀ target, w.disk.find? m ≠ some (.link target))
    (hproper : ∀ store w₁, (Store.load p.storeAt).on w = (.ok store, w₁) → HasProperClasses store)
    (hrun : (run tools storeRoot output sourceTree).on w = (result, w')) :
    w.Altered (p.lasting out) w' ∧
      (∀ k : Location, (∀ l ∈ p.lasting out, Location.Apart l k) →
        ∀ m : Location, k.covers m = true → w'.disk.find? m = w.disk.find? m) ∧
      (∀ outcome, result = .ok outcome → Settles p w outcome w') ∧
      ∀ w₁, (Directory.clean (output.absolute w.cwd)).on w = (.ok (), w₁) →
        w.Touched out w₁ ∧ HoldsOnly w₁.disk out [] := by
  set o : Path × Location := (output.absolute w.cwd, out) with ho
  have hmem := List.mem_singleton_self o
  suffices hcontained : Contained p o w result w' by
    refine ⟨hcontained.altered, fun k hk m hm => hcontained.altered.eq_of_apart hk hm,
      hcontained.settles, fun w₁ hclean => ?_⟩
    have h := (clean_reached laidOut.tree (laidOut.reaches_more hmem) hlink).of_ok hclean
    exact ⟨h.1, h.2.1⟩
  have hspec : (run tools storeRoot output sourceTree).wp w
      (fun outcome => Contained p o w (.ok outcome)) fun f => Contained p o w (.error f) := by
    refine run_wp (fun f => contained_error (.refl laidOut.tree)) (fun t _ _ w₁ hquiet => ?_)
      (fun t hlocate _ _ w₁ hquiet => ?_) fun t hlocate hat w₁ hquiet => ?_
    · exact contained_ok .noSources ((Altered.refl laidOut.tree).congr hquiet.view) hquiet.view
    · have hfull := full_contained inside (laidOut.of_quiet hquiet) (hquiet.disk ▸ hlink)
        (locate_quiet.of_ok hlocate).2.1
      rw [hstore]
      exact hfull.mono (fun _ _ h => h.of_quiet hquiet laidOut.tree) fun _ _ h =>
        h.of_quiet hquiet laidOut.tree
    · rw [hstore] at hat ⊢
      refine ((prepare_prepared inside laidOut.tree hquiet.view hproper).and
        (prepare_readied reports)).mono (fun ready w₂ h₂ => ?_) fun f w₂ h₂ =>
          contained_error ((Altered.refl laidOut.tree).congr h₂.1)
      obtain ⟨hprepared, store, table, affected, c, hreadied⟩ := h₂
      obtain ⟨_, hload⟩ := (Store.load_blind p.storeAt).answers hquiet.view c.load
      rw [(locate_quiet.of_ok hlocate).2.1]
      have hcommittable : Committable p ready :=
        committable_of_readied (fun _ => id) c.directory_eq (hproper store _ hload) hreadied
      exact commit_contained (o := o) laidOut (hlinks hat) hprepared hcommittable
  cases result with
  | ok outcome => exact hspec.of_ok hrun
  | error f => exact hspec.of_error hrun

theorem newSource_ne_link (l : Location) (target : Path) :
    newSource.disk.find? l ≠ some (.link target) := find?_ne_link (by decide) l target

theorem storeFor_newSource :
    storeFor ⟨"/meta"⟩ ⟨"/src"⟩ newSource.cwd = newSourcePlaces.storeAt :=
  newSource_hasEmptyStore.storeFor_eq.trans toPath_sourceStore.symm

theorem newSource_laidOut :
    LaidOut newSourcePlaces [(Path.absolute ⟨"/out"⟩ newSource.cwd, ["out"])] newSource := by
  have habsolute : Path.absolute ⟨"/out"⟩ newSource.cwd = Location.toPath ["out"] := by decide
  have hne := Store.besideName_ne sourceKey
  rw [habsolute]
  refine laidOut_toPath [([], "out")] newSource_tree (fun _ _ top _ => newSource_ne_link top)
    (by decide) (by simp) ?_ (by decide) (by decide) ?_
  · exact isProper_sourceStore
  · simp [Location.Apart, Location.covers, List.isPrefixOf, hne, hne.symm]

theorem rejecting_reports (P : ClassFact → Prop) : Reports rejecting P :=
  fun _ _ => (Action.wp_pure _).2 (by simp)

theorem run_contained_newSource :
    ∃ w', (run rejecting ⟨"/meta"⟩ ⟨"/out"⟩ ⟨"/src"⟩).on newSource = (.ok .compileFailed, w') ∧
      newSource.Altered (newSourcePlaces.lasting ["out"]) w' ∧
      (∀ m : Location, Location.covers ["tmp"] m = true →
        w'.disk.find? m = newSource.disk.find? m) ∧
      StoreKept newSourcePlaces newSource.disk w'.disk := by
  have hrejected := newSource_rejected
  rcases hrun : (run rejecting ⟨"/meta"⟩ ⟨"/out"⟩ ⟨"/src"⟩).on newSource with ⟨f | outcome, w'⟩
  · rw [hrun] at hrejected
    cases hrejected
  simp only [hrun, Bool.and_eq_true, beq_iff_eq] at hrejected
  obtain ⟨rfl, -⟩ := hrejected
  have hproper : ∀ store w₁, (Store.load newSourcePlaces.storeAt).on newSource = (.ok store, w₁) →
      HasProperClasses store := by
    rw [← storeFor_newSource]
    exact fun _ _ => newSource_hasProperClasses
  obtain ⟨haltered, hapart, hsettles, -⟩ := run_contained rejecting_staysInside
    (rejecting_reports _) newSource_laidOut storeFor_newSource (newSource_ne_link _)
    (fun _ m _ => newSource_ne_link m) hproper hrun
  refine ⟨w', rfl, haltered, hapart ["tmp"] ?_, hsettles _ rfl⟩
  simp [Places.lasting, Places.saving, Places.store, Places.beside, newSourcePlaces, Location.Apart,
    Location.covers, List.isPrefixOf]

/-- A compiler and an examiner for one class. -/
def oneClass : Toolchain := .writing ["A.class"] [⟨"A", ⟨"A.java"⟩, ∅⟩]

theorem oneClass_staysInside : oneClass.StaysInside :=
  Toolchain.writing_staysInside _ (by decide)

theorem oneClass_reports : Reports oneClass fun fact => ClassName.IsProper fact.className :=
  fun _ _ => (Action.wp_pure _).2 (by decide)

/-- The build that publishes where it stages, and the one whose path to the metadata goes up. -/
theorem staged_and_made_above :
    (match (run oneClass ⟨"/meta"⟩ (Location.toPath ["meta", Store.besideName sourceKey])
        ⟨"/src"⟩).on newSource with
      | (.ok outcome, w') => outcome == .compiled 1 &&
          (w'.disk.find? ["meta", Store.besideName sourceKey]).isSome
      | (.error _, _) => false) = true ∧
    (((run unexamined ⟨"/x/../meta"⟩ ⟨"/out"⟩ ⟨"/src"⟩).on newSource).2.disk.find? ["x"]).isSome := by
  constructor
  · have houtput : Location.toPath ["meta", Store.besideName sourceKey] =
        ⟨"/meta/.incjc-meta-56c9e1c4b5360a5b089004396ed37fe3a20f7c4f5954072098039789ba3ab68a.tmp"⟩ := by
      decide +kernel
    rw [newSource_hasEmptyStore.on_run_by (by decide) rfl oneClass_staysInside, houtput]
    decide +kernel
  · have hstore : storeFor ⟨"/x/../meta"⟩ ⟨"/src"⟩ newSource.cwd =
        Path.push ⟨"/x/../meta"⟩ sourceKey := storeFor_source _
    have hat : Store.isAt newSource.disk newSource.cwd
        (Path.push ⟨"/x/../meta"⟩ sourceKey) = false := by decide +kernel
    rw [on_run_of_not_isAt hstore hat]
    decide +kernel

/-- An output directory in the place where the store is staged: what the build publishes is left
there. A path to the metadata that goes up from a directory that is not there: the build makes that
directory, which lies above none of the places. -/
theorem not_contained_staging :
    (oneClass.StaysInside ∧ Reports oneClass (fun fact => ClassName.IsProper fact.className) ∧
      [["meta", Store.besideName sourceKey], ["src"], ["meta", sourceKey], ["tmp"]].Pairwise
        Location.Apart ∧
      ∃ w', (run oneClass ⟨"/meta"⟩ (Location.toPath ["meta", Store.besideName sourceKey])
          ⟨"/src"⟩).on newSource = (.ok (.compiled 1), w') ∧
        (w'.disk.find? ["meta", Store.besideName sourceKey]).isSome) ∧
      unexamined.StaysInside ∧
      [["x"], ["out"], ["src"], ["meta", sourceKey], ["meta", Store.besideName sourceKey],
        ["tmp"]].Pairwise Location.Apart ∧
      newSource.disk.find? ["x"] = none ∧
      (((run unexamined ⟨"/x/../meta"⟩ ⟨"/out"⟩ ⟨"/src"⟩).on newSource).2.disk.find? ["x"]).isSome := by
  have hne := Store.besideName_ne sourceKey
  obtain ⟨hstaged, habove⟩ := staged_and_made_above
  rcases hrun : (run oneClass ⟨"/meta"⟩ (Location.toPath ["meta", Store.besideName sourceKey])
    ⟨"/src"⟩).on newSource with ⟨f | outcome, w'⟩
  · rw [hrun] at hstaged
    cases hstaged
  simp only [hrun, Bool.and_eq_true, beq_iff_eq] at hstaged
  refine ⟨⟨oneClass_staysInside, oneClass_reports, ?_, w', by rw [hstaged.1], hstaged.2⟩,
    unexamined_staysInside, ?_, ?_, habove⟩
  · simp [Location.Apart, Location.covers, List.isPrefixOf, hne, hne.symm]
  · simp [Location.Apart, Location.covers, List.isPrefixOf, hne, hne.symm]
  · simp [Disk.find?, newSource, World.start, List.lookup_cons]

end Recompile.Build
