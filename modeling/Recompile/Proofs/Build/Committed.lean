import Recompile.Proofs.Build.Drifting

/-!
# Builds that save and publish

A build with a store saves the new store and then publishes class files; a build without one empties
the output directory, compiles into it and saves a store. Wherever the output directory is, what is
neither at the places of the build nor free to come and go stays as it is.
-/

namespace Recompile

namespace Build

open Directory Disk Staging World

attribute [local irreducible] Action.wp scratchName

variable {free spare : Location → Prop} {p : Places} {w w₁ w₂ : World} {tools : Toolchain}
  {t : Target} {output : Path} {out : Location} {s : Store} {d d' : Disk}

/-! ## Saving and publishing -/

/-- A store was saved at its place, and what is there and where it was staged has only drifted
since. -/
structure Filed (free : Location → Prop) (p : Places) (s : Store) (d : Disk) : Prop where
  saved : ∃ before : Disk, before.IsTree ∧ before.Holds p.store s.contents ∧
    (∀ m : Location, p.beside.covers m = true → before.find? m = none) ∧
    ∀ m : Location, p.store.covers m = true ∨ p.beside.covers m = true → Drifts free m before d
  checks : ∀ table ∈ Store.tableNames, (p.storeAt.push table).check = .ok ()

theorem Filed.drift (h : Filed free p s d)
    (hdrifts : ∀ m : Location, p.store.covers m = true ∨ p.beside.covers m = true →
      Drifts free m d d') : Filed free p s d' := by
  obtain ⟨⟨before, tree, hholds, hgone, hsince⟩, hchecks⟩ := h
  exact ⟨⟨before, tree, hholds, hgone, fun m hm => (hsince m hm).trans (hdrifts m hm)⟩, hchecks⟩

theorem save_filed (layout : Layout w.disk w.cwd (Store.sites p.storeAt p.above p.name))
    (plain : w.disk.PlainClasses) (hdirectory : s.directory = p.storeAt) :
    s.save.wp w
      (fun _ w' => w.Drifted free p.saving w' ∧ w'.disk.PlainClasses ∧ Filed free p s w'.disk)
      fun _ w' => w.Drifted free p.saving w' := by
  rw [← hdirectory] at layout
  refine (Store.save_saves s layout).mono (fun _ w' h => ?_) fun _ w' h =>
    .of_altered (altered_beside h)
  obtain ⟨hsaved, hchecks⟩ := h
  have hdrifted : w.Drifted free p.saving w' := .of_altered (altered_of_saved hsaved)
  refine ⟨hdrifted, hdrifted.plainClasses plain fun l hl m hm target hlink => ?_,
    ⟨w'.disk, hsaved.tree, hsaved.holds, hsaved.gone, fun _ _ => .inl rfl⟩, hdirectory ▸ hchecks⟩
  simp only [Places.saving, List.mem_cons, List.not_mem_nil, or_false] at hl
  rcases hl with rfl | rfl
  · obtain ⟨-, hentry⟩ | ⟨name, bytes, runnable, -, -, hentry⟩ :=
      hsaved.holds.eq_of_find? hsaved.tree hm hlink
    · cases hentry
    · cases hentry
  · have hgone := hsaved.gone m hm
    rw [hlink] at hgone
    cases hgone

/-- Saving a store and then letting class files come and go. -/
theorem save_publish_drifted {publish : Action Unit}
    (layout : Layout w.disk w.cwd (Store.sites p.storeAt p.above p.name))
    (plain : w.disk.PlainClasses) (hdirectory : s.directory = p.storeAt)
    (hpublish : ∀ w, w.disk.IsTree → w.disk.PlainClasses →
      publish.wp w (fun _ => w.Drifted free []) fun _ => w.Drifted free []) :
    (Action.phase "save" s.save).wp w
      (fun _ w₁ => publish.wp w₁
        (fun _ w' => w.Drifted free p.saving w' ∧ Filed free p s w'.disk)
        fun _ w' => w.Drifted free p.saving w')
      fun _ w' => w.Drifted free p.saving w' := by
  rw [Action.wp_phase]
  refine (save_filed layout plain hdirectory).mono (fun _ w₁ h₁ => ?_) fun _ w₁ h₁ =>
    h₁.congr (quiet_traced w₁ _).view
  obtain ⟨hdrifted, plain₁, hfiled⟩ := h₁
  have hdrifted₁ := hdrifted.congr (quiet_traced w₁ "save").view
  refine (hpublish (w₁.traced "save") hdrifted₁.tree plain₁).mono (fun _ w₂ h₂ => ?_) fun _ w₂ h₂ => ?_
  · exact ⟨hdrifted₁.trans (h₂.mono (List.nil_subset _)),
      hfiled.drift fun m _ => h₂.outside m (by simp)⟩
  · exact hdrifted₁.trans (h₂.mono (List.nil_subset _))

/-! ## With a store -/

/-- How the build ends if what is ready can be carried out. -/
def Ready.outcome : Ready → Outcome
  | .rejected => .compileFailed
  | .compiled _ _ _ _ count => .compiled count
  | _ => .upToDate

/-- What carrying out what is ready comes to. -/
structure Committed (free : Location → Prop) (p : Places) (w : World) (ready : Ready)
    (outcome : Outcome) (w' : World) : Prop where
  drifted : w.Drifted free p.saving w'
  outcome : outcome = ready.outcome
  filed : ∀ s, ready.store? = some s → Filed free p s w'.disk

theorem commit_committed (hfree : ∀ m, IsClassPlace m → free m) {ready : Ready}
    (laidOut : LaidOut p [] w) (plain : w.disk.PlainClasses) (h : Underway free p w ready w₁)
    (hdirectory : ∀ s, ready.store? = some s → s.directory = p.storeAt) :
    (commit output ready).wp w₁ (fun outcome => Committed free p w ready outcome)
      fun _ w' => w.Drifted free p.saving w' := by
  cases ready with
  | nothing =>
    rw [commit, Action.wp_bind, Action.wp_print, Action.wp_pure]
    exact ⟨.of_view laidOut.tree h, rfl, by simp [Ready.store?]⟩
  | rejected =>
    exact (Action.wp_pure _).2 ⟨h.mono (List.nil_subset _), rfl, by simp [Ready.store?]⟩
  | pruned s stale =>
    have hdisk : w₁.disk = w.disk := congrArg View.disk h
    have hcwd : w₁.cwd = w.cwd := congrArg View.cwd h
    have hpublish (w : World) (hw : w.disk.IsTree) (hplain : w.disk.PlainClasses) :
        (deleteClassFiles output stale.toList).wp w (fun _ => w.Drifted free [])
          fun _ => w.Drifted free [] := deleteClassFiles_drifted hfree stale.toList hw hplain
    have hcommit := save_publish_drifted (s := s) (hdisk ▸ hcwd ▸ laidOut.store_layout)
      (hdisk ▸ plain) (hdirectory s rfl) hpublish
    have hbefore : w.Drifted free p.saving w₁ := .of_view laidOut.tree h
    rw [commit]
    simp only [Action.wp_bind]
    refine hcommit.mono (fun _ w₂ h₂ => h₂.mono (fun _ w₃ h₃ => ?_) fun _ w₃ h₃ => ?_)
      fun _ w₂ h₂ => hbefore.trans h₂
    · rw [Action.wp_print, Action.wp_pure]
      refine ⟨(hbefore.trans h₃.1).congr rfl, rfl, fun s' hs' => ?_⟩
      cases hs'
      exact h₃.2
    · exact hbefore.trans h₃
  | compiled ws s stale produced count =>
    obtain ⟨i, j, rfl, vacant, busy, plain₁⟩ := h
    have hpublish (w : World) (hw : w.disk.IsTree) (hplain : w.disk.PlainClasses) :
        (do
          deleteClassFiles output stale.toList
          copyClassFiles (p.workspace i j).destination output produced.toList).wp w
          (fun _ => w.Drifted free []) fun _ => w.Drifted free [] := by
      rw [Action.wp_bind]
      refine (deleteClassFiles_drifted hfree stale.toList hw hplain).mono (fun _ w₁ h₁ => ?_)
        fun _ _ => id
      exact (copyClassFiles_drifted hfree produced.toList h₁.tree
        (h₁.plainClasses_of_nil hplain)).mono (fun _ _ h₂ => h₁.trans h₂) fun _ _ h₂ => h₁.trans h₂
    have layout₁ := (busy.layout vacant laidOut (List.nil_subset _)).sublist
      (List.sublist_append_left _ _)
    have hcommit := save_publish_drifted layout₁ plain₁ (hdirectory s rfl) hpublish
    have hscratch (n : ℕ) (m : Location) (hm : p.store.covers m = true ∨ p.beside.covers m = true) :
        (p.scratch n).covers m = false := by
      rcases hm with hm | hm
      · exact (laidOut.apart_saving n _ (by simp [Places.saving])).not_covers hm
      · exact (laidOut.apart_saving n _ (by simp [Places.saving])).not_covers hm
    have hdiscard (w₂ : World) (h₂ : w₁.Drifted free p.saving w₂) :
        (p.workspace i j).discard.wp w₂
          (fun _ w₃ => w.Drifted free p.saving w₃ ∧
            (Filed free p s w₂.disk → Filed free p s w₃.disk))
          fun _ _ => False := by
      have busy₂ := busy.trans h₂ fun l hl =>
        ⟨laidOut.apart_saving i l hl, laidOut.apart_saving j l hl⟩
      refine (busy₂.discard vacant laidOut (by simp)).mono (fun _ w₃ h₃ => ?_) fun _ _ => id
      refine ⟨h₃.1.mono (by simp), fun hfiled => hfiled.drift fun m hm => ?_⟩
      exact .inl (h₃.2.2 m (hscratch i m hm) (hscratch j m hm))
    have hfail (w₂ : World) (h₂ : w₁.Drifted free p.saving w₂) :
        (p.workspace i j).discard.wp w₂ (fun _ w₃ => w.Drifted free p.saving w₃)
          fun _ w₃ => w.Drifted free p.saving w₃ :=
      (hdiscard w₂ h₂).mono (fun _ _ h₃ => h₃.1) fun _ _ => False.elim
    rw [commit, Action.wp_finishing, Action.wp_bind]
    refine hcommit.mono (fun _ w₂ h₂ => ?_) fun _ w₂ => hfail w₂
    rw [Action.wp_bind, Action.wp_phase]
    refine h₂.mono (fun _ w₃ h₃ => ?_) fun _ w₃ h₃ => hfail _ (h₃.congr (quiet_traced w₃ "publish").view)
    rw [log, Action.wp_bind, Action.wp_log, Action.wp_pure]
    refine (hdiscard _ ?_).mono (fun _ w₄ h₄ => ⟨h₄.1, rfl, fun s' hs' => ?_⟩) fun _ _ => False.elim
    · exact h₃.1.congr rfl
    · cases hs'
      exact h₄.2 h₃.2

theorem prepare_underway (hfree : ∀ m, IsClassPlace m → free m) (drifts : tools.Drifts free spare)
    (laidOut : LaidOut p [] w) (plain : w.disk.PlainClasses) :
    (prepare tools t p.storeAt).wp w (Underway free p w) fun _ => w.Drifted free [] := by
  have quiet (w' : World) (h : w.Quiet w') : w.Drifted free [] w' := .of_view laidOut.tree h.view
  refine prepare_wp (fun _ w' h _ => quiet w' h) (fun _ _ _ _ _ h _ _ => h.view)
    (fun _ _ _ _ _ h _ _ => h.view) fun store table affected c w₁ hquiet _ => ?_
  have before := quiet w₁ hquiet
  have hsame {ready : Ready} {w' : World} (h : Underway free p w₁ ready w') :
      Underway free p w ready w' := by
    cases ready with
    | nothing => exact Eq.trans h hquiet.view
    | pruned => exact Eq.trans h hquiet.view
    | rejected => exact before.trans h
    | compiled =>
      obtain ⟨i, j, hws, vacant, busy, plain'⟩ := h
      refine ⟨i, j, hws, ⟨vacant.ne, ?_, ?_, vacant.classpath_check, vacant.destination_check⟩,
        ⟨(before.mono (List.nil_subset _)).trans busy.drifted, busy.classpath, busy.destination⟩,
        plain'⟩
      · rw [← hquiet.disk, vacant.classpath]
      · rw [← hquiet.disk, vacant.destination]
  have laidOut₁ := laidOut.of_quiet hquiet
  rw [Action.wp_bind, Action.wp_phase]
  refine (stage_busy hfree laidOut₁ (hquiet.disk ▸ plain) _).mono (fun ws w₂ h₂ => ?_)
    fun _ w₂ h₂ => (before.trans h₂).congr (quiet_traced w₂ _).view
  obtain ⟨i, j, rfl, vacant, busy, plain₂⟩ := h₂
  have busy₂ : Busy free p [] i j w₁ (w₂.traced "stage") :=
    ⟨busy.drifted.congr (quiet_traced w₂ _).view, busy.classpath, busy.destination⟩
  rw [Action.wp_undoing]
  refine (compileIn_underway drifts laidOut₁ vacant busy₂ plain₂ store _ _).mono
    (fun _ _ h => hsame h) fun _ w₃ h₃ => ?_
  exact (h₃.give_up vacant laidOut₁).mono (fun _ _ h₄ => before.trans h₄) fun _ _ => False.elim

/-! ## Without a store -/

/-- The output directory was emptied. -/
structure Emptied (out : Location) (w w' : World) : Prop extends World.Touched out w w' where
  empty : HoldsOnly w'.disk out []

theorem Emptied.fileAt_eq_none (h : Emptied out w w₁) {m : Location} (hm : out.covers m = true) :
    w₁.disk.fileAt m = none := by
  by_cases heq : m = out
  · rw [fileAt, heq, h.empty.1]
  · rw [fileAt, h.empty.none_below h.tree hm heq]

/-- In the output directory, at the store and where the store is staged anything has changed,
elsewhere something has drifted. At a place in the output directory that is spared it has, too. -/
structure Remade (free spare : Location → Prop) (p : Places) (out : Location) (w w' : World) : Prop
    extends Drifted free (out :: p.saving) w w' where
  spared : ∀ m, spare m → (∀ l ∈ p.saving, l.covers m = false) → Drifts free m w.disk w'.disk

namespace Remade

theorem trans (h : Remade free spare p out w w₁) (h' : Remade free spare p out w₁ w₂) :
    Remade free spare p out w w₂ :=
  ⟨h.toDrifted.trans h'.toDrifted, fun m hm hout => (h.spared m hm hout).trans (h'.spared m hm hout)⟩

theorem of_drifted (h : w.Drifted free p.saving w₁) : Remade free spare p out w w₁ :=
  ⟨h.mono (List.subset_cons_self _ _), fun m _ hout => h.outside m hout⟩

theorem of_worked (h : w.Worked free spare out w₁) : Remade free spare p out w w₁ :=
  ⟨h.toDrifted.mono (by simp), fun m hm _ => h.spared m hm⟩

theorem layout (h : Remade free spare p out w w₁)
    (layout : Layout w.disk w.cwd (Store.sites p.storeAt p.above p.name ++ [(output, out)])) :
    Layout w₁.disk w₁.cwd (Store.sites p.storeAt p.above p.name ++ [(output, out)]) :=
  h.toDrifted.layout layout
    (by simp [Store.sites, Places.saving, Places.store, Places.beside])

end Remade

variable {P : ClassFact → Prop}

theorem compileAll_remade (drifts : tools.Drifts free spare)
    (layout : Layout w.disk w.cwd (Store.sites p.storeAt p.above p.name ++ [(t.output, out)]))
    (hlink : ∀ target, w.disk.find? out ≠ some (.link target)) (plain : w.disk.PlainClasses) :
    (compileAll tools t).wp w
      (fun digests w' => ∃ w₁ all, Emptied out w w₁ ∧
        Changes.IsDigest w₁.disk w₁.cwd t.sources.toList all ∧ Remade free spare p out w₁ w' ∧
        w'.disk.find? out = some .directory ∧ w'.disk.PlainClasses ∧ t.output.check = Except.ok () ∧
        ∀ table, digests = some table → table = (Changes.between all ∅).changed)
      fun _ w' => w.Drifted free [out] w' := by
  have hreach := layout.reaches_erase Store.last_mem_sites
  have drifted {w' : World} (h : w.Touched out w') : w.Drifted free [out] w' :=
    .of_altered (.of_touched h (List.mem_singleton_self _))
  unfold compileAll
  rw [Action.wp_bind]
  refine (clean_reached layout.tree hreach hlink).mono (fun _ w₁ h₁ => ?_) fun _ _ h => drifted h.1
  obtain ⟨htouched, hempty, hcheck⟩ := h₁
  have plain₁ : w₁.disk.PlainClasses := (drifted htouched).plainClasses plain fun l hl m hm target => by
    rw [List.mem_singleton] at hl
    subst hl
    by_cases hml : m = l
    · rw [hml, hempty.1]
      simp
    · rw [hempty.none_below htouched.tree hm hml]
      simp
  rw [Action.wp_bind, Action.wp_phase]
  refine (Changes.detect_reads t.sources ∅).mono (fun changes w₂ h₂ => ?_) fun _ w₂ h => ?_
  · obtain ⟨hquiet, all, hall, rfl⟩ := h₂
    have hquiet₂ := hquiet.trans (quiet_traced w₂ "detect")
    have layout₂ := ((drifted htouched).congr hquiet₂.view).layout layout (by simp)
    have hdir : (w₂.traced "detect").disk.find? out = some .directory := hquiet₂.disk ▸ hempty.1
    have hresolve : (w₂.traced "detect").disk.resolve (w₂.traced "detect").cwd true t.output = .ok out :=
      (layout₂.reaches_self Store.last_mem_sites).resolve_of_find? layout₂.tree hcheck hdir (by simp)
    have hremade (w₃ : World) (h : (w₂.traced "detect").Worked free spare out w₃) :
        Remade free spare p out w₁ w₃ := .of_worked (h.of_view htouched.tree hquiet₂.view)
    rw [Action.wp_bind]
    refine (compile_worked drifts layout₂.tree (hquiet₂.disk ▸ plain₁) t.sources.toList t.output
      hresolve hdir).mono (fun accepted w₃ h₃ => ?_) fun _ w₃ h₃ => ?_
    · cases accepted with
      | false =>
        exact (Action.wp_pure _).2 ⟨w₁, all, ⟨htouched, hempty⟩, hall, hremade w₃ h₃, h₃.directory,
          h₃.plain, hcheck, by simp⟩
      | true =>
        exact (Action.wp_pure _).2 ⟨w₁, all, ⟨htouched, hempty⟩, hall, hremade w₃ h₃, h₃.directory,
          h₃.plain, hcheck, fun table heq => (Option.some.inj heq).symm⟩
    · exact ((drifted htouched).congr hquiet₂.view).trans h₃.toDrifted
  · rw [h.1]
    exact (drifted htouched).congr (quiet_traced w₁ _).view

/-- The store of a full build that told these facts. -/
def begun (storeAt sourceTree : Path) (digests : Table) (facts : List ClassFact) : Store :=
  ((Store.new storeAt).addSources digests).record sourceTree facts

/-- Putting an empty store in place leaves the output directory alone. -/
theorem reset_remade
    (layout : Layout w.disk w.cwd (Store.sites p.storeAt p.above p.name ++ [(t.output, out)]))
    (plain : w.disk.PlainClasses) :
    (Store.reset p.storeAt).wp w
      (fun _ w' => Remade free spare p out w w' ∧ w'.disk.PlainClasses ∧
        ∀ m : Location, out.covers m = true → w'.disk.find? m = w.disk.find? m)
      fun _ w' => Remade free spare p out w w' := by
  have hremade {w₁ : World} (h : w.Touched p.store w₁) : Remade free spare p out w w₁ :=
    .of_drifted (.of_altered (altered_store h))
  refine (Store.reset_reached layout.tree (layout.reaches_erase Store.mem_sites)).mono
    (fun _ w₁ h₁ => ?_) fun _ w₁ h₁ => hremade h₁.1
  obtain ⟨hmade, -⟩ := h₁
  have hapart := Store.apart_of_layout layout (List.mem_singleton_self (t.output, out))
  refine ⟨hremade hmade.toTouched, ?_, fun m hm => hmade.outside.eq_of_apart hapart.symm hm⟩
  have htouched : w.Drifted free [p.store] w₁ :=
    .of_altered (.of_touched hmade.toTouched (List.mem_singleton_self p.store))
  refine htouched.plainClasses plain fun l hl m hm target hfind => ?_
  rw [List.mem_singleton] at hl
  subst hl
  obtain ⟨-, hentry⟩ | ⟨name, bytes, runnable, -, -, hentry⟩ :=
    hmade.holds.eq_of_find? hmade.tree hm hfind
  · cases hentry
  · cases hentry

theorem recordAll_remade (drifts : tools.Drifts free spare) (reports : Reports tools P)
    (layout : Layout w.disk w.cwd (Store.sites p.storeAt p.above p.name ++ [(t.output, out)]))
    (hdir : w.disk.find? out = some .directory) (plain : w.disk.PlainClasses)
    (hcheck : t.output.check = .ok ()) (digests : Table) :
    (recordAll tools t digests p.storeAt).wp w
      (fun _ w' => Remade free spare p out w w' ∧ ∃ facts, (∀ fact ∈ facts, P fact) ∧
        Filed free p (begun p.storeAt t.sourceTree digests facts) w'.disk)
      fun _ w' => Remade free spare p out w w' := by
  unfold recordAll
  rw [Action.wp_bind]
  refine (reset_remade layout plain).mono (fun _ w₁ h₁ => ?_) fun _ _ => id
  obtain ⟨hremade, plain₁, hsame⟩ := h₁
  have layout₁ := hremade.layout layout
  have hdir₁ : w₁.disk.find? out = some .directory := (hsame out (Location.covers_self out)).trans hdir
  have hresolve : w₁.disk.resolve w₁.cwd true t.output = .ok out :=
    (layout₁.reaches_self Store.last_mem_sites).resolve_of_find? layout₁.tree hcheck hdir₁ (by simp)
  rw [Action.wp_bind]
  refine ((recordClasses_worked drifts layout₁.tree plain₁ (.new p.storeAt) t.sourceTree digests
    hresolve hdir₁).and (recordClasses_reports reports (.new p.storeAt) digests t.output)).mono
    (fun recorded w₂ h₂ => ?_) fun _ w₂ h₂ => hremade.trans (.of_worked h₂.1)
  obtain ⟨⟨hworked, -⟩, hfacts, hrecorded⟩ := h₂
  have hremade₂ := hremade.trans (.of_worked hworked)
  have layout₂ := (hremade₂.layout layout).sublist (List.sublist_append_left _ _)
  have hdirectory : recorded.1.directory = p.storeAt := by rw [hrecorded]; rfl
  rw [Action.wp_phase]
  refine (save_filed layout₂ hworked.plain hdirectory).mono (fun _ w₃ h₃ => ?_) fun _ w₃ h₃ =>
    hremade₂.trans (.of_drifted (h₃.congr (quiet_traced w₃ _).view))
  refine ⟨hremade₂.trans (.of_drifted (h₃.1.congr (quiet_traced w₃ _).view)), recorded.2, hfacts, ?_⟩
  rw [begun, ← hrecorded]
  exact h₃.2.2

/-- What a full build comes to: the output directory was emptied, and what is compiled then is
recorded. -/
structure Completed (free spare : Location → Prop) (P : ClassFact → Prop) (p : Places)
    (out : Location) (t : Target) (w : World) (outcome : Outcome) (w' : World) : Prop where
  drifted : w.Drifted free (out :: p.saving) w'
  after : ∃ w₁ all, Emptied out w w₁ ∧ Changes.IsDigest w₁.disk w₁.cwd t.sources.toList all ∧
    Remade free spare p out w₁ w' ∧ (outcome = .compileFailed ∨ ∃ facts, (∀ fact ∈ facts, P fact) ∧
      Filed free p (begun p.storeAt t.sourceTree (Changes.between all ∅).changed facts) w'.disk)

theorem full_completed (drifts : tools.Drifts free spare) (reports : Reports tools P)
    (layout : Layout w.disk w.cwd (Store.sites p.storeAt p.above p.name ++ [(t.output, out)]))
    (hlink : ∀ target, w.disk.find? out ≠ some (.link target)) (plain : w.disk.PlainClasses) :
    (full tools t p.storeAt).wp w (Completed free spare P p out t w)
      fun _ w' => w.Drifted free (out :: p.saving) w' := by
  have emptied {w₁ : World} (h : Emptied out w w₁) : w.Drifted free (out :: p.saving) w₁ :=
    .of_altered (.of_touched h.toTouched (by simp))
  unfold full
  rw [Action.wp_bind]
  refine (compileAll_remade drifts layout hlink plain).mono (fun digests w₂ h₂ => ?_)
    fun _ w₁ h₁ => h₁.mono (by simp)
  obtain ⟨w₁, all, hempty, hall, hremade, hdir, plain₂, hcheck, hdigests⟩ := h₂
  cases digests with
  | none =>
    exact (Action.wp_pure _).2
      ⟨(emptied hempty).trans hremade.toDrifted, w₁, all, hempty, hall, hremade, .inl rfl⟩
  | some digests =>
    obtain rfl := hdigests digests rfl
    have layout₂ := hremade.layout ((emptied hempty).layout layout
      (by simp [Store.sites, Places.saving, Places.store, Places.beside]))
    dsimp only
    rw [Action.wp_bind]
    refine (recordAll_remade drifts reports layout₂ hdir plain₂ hcheck _).mono (fun _ w₃ h₃ => ?_)
      fun _ w₃ h₃ => (emptied hempty).trans (hremade.trans h₃).toDrifted
    rw [log, Action.wp_bind, Action.wp_log, Action.wp_pure]
    obtain ⟨hremade₃, facts, hfacts, hfiled⟩ := h₃
    have hafter := hremade.trans hremade₃
    exact ⟨((emptied hempty).trans hafter.toDrifted).congr rfl, w₁, all, hempty, hall,
      ⟨hafter.toDrifted.congr rfl, hafter.spared⟩, .inr ⟨facts, hfacts, hfiled⟩⟩

end Build

end Recompile
