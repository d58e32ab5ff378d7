import Recompile.Proofs.Build.Current
import Recompile.Proofs.Build.Kept
import Recompile.Proofs.Build.Pruned

/-!
# Building again

Whatever a build that succeeds has done, the store that it leaves is current: the digests in it are
those of the sources, none missing and none too many. So it does not matter how often a build is
run. The tools are to leave the sources alone and to report names without line feeds; no source is
where a store is saved, and no link has the name of a class file.
-/

namespace Recompile.Build

open Directory Disk Staging World

attribute [local irreducible] Action.wp scratchName

variable {tools : Toolchain} {p : Places} {w w₁ w' : World} {t : Target} {s : Store}
  {storeRoot output sourceTree q : Path} {out l : Location} {places : List Location} {table : Table}
  {store : Store} {affected : Names} {facts : List ClassFact} {outcome : Outcome}

/-! ## The store that is saved -/

section Saved

/-- A full build records the digest of each source. -/
theorem changed_between_empty (table : Table) : (Changes.between table ∅).changed = table := by
  refine Std.ExtTreeMap.ext_getElem? fun source => ?_
  rw [Changes.getElem?_changed_between]
  cases table[source]? <;> simp

theorem sources_begun (storeAt : Path) (digests : Table) :
    (begun storeAt q digests facts).sources = digests := by
  refine Std.ExtTreeMap.ext_getElem? fun source => ?_
  rw [begun, Store.sources_record, Store.getElem?_sources_addSources]
  simp [Store.new]

theorem unbroken_begun (storeAt : Path) (digests : Table) (hq : Text.Unbroken q.text)
    (hfacts : ∀ fact ∈ facts, fact.Unbroken) : (begun storeAt q digests facts).Unbroken :=
  ((Store.unbroken_new storeAt).addSources digests).record Graph.sound_empty hq hfacts

/-- Where nothing has to be compiled and no source is gone, the digests were those of now. -/
theorem sources_of_nothing
    (hempty : (plan store (.between table store.sources) affected).recompile.isEmpty)
    (hdeleted : (Changes.between table store.sources).deleted.isEmpty) : store.sources = table := by
  refine Std.ExtTreeMap.ext_getElem? fun source => ?_
  cases htable : table[source]? with
  | some digest => exact eq_of_recompile_empty hempty htable
  | none =>
    refine Std.ExtTreeMap.getElem?_eq_none fun hmem => ?_
    have hgone : source ∈ (Changes.between table store.sources).deleted := by
      rw [Changes.mem_deleted_between, Table.mem_iff_exists_getElem? table, htable]
      exact ⟨hmem, by simp⟩
    rw [Std.ExtTreeSet.isEmpty_iff.1 hdeleted] at hgone
    exact Std.ExtTreeSet.not_mem_empty hgone

/-- Whatever is made ready to be saved, its digests are those of now. -/
theorem sources_of_readied {Q : List ClassFact → Prop} {ready : Ready}
    (h : Readied Q q store (.between table store.sources)
      (plan store (.between table store.sources) affected) ready)
    (hs : ready.store? = some s) : s.sources = table := by
  cases ready with
  | nothing => cases hs
  | rejected => cases hs
  | pruned s' stale =>
    obtain ⟨hempty, rfl, -⟩ := h
    cases hs
    refine Eq.trans (Std.ExtTreeMap.ext_getElem? fun source => ?_)
      (Store.sources_patch_between store table)
    -- with nothing to compile no digest is patched
    have hunchanged : (Changes.between table store.sources).changed = ∅ := by
      refine Std.ExtTreeMap.ext_getElem? fun source => ?_
      rw [Changes.getElem?_changed_between, Std.ExtTreeMap.getElem?_empty]
      cases htable : table[source]? with
      | none => rfl
      | some digest => simp [eq_of_recompile_empty hempty htable]
    rw [Store.patch, Store.getElem?_sources_addSources, hunchanged]
    rw [Std.ExtTreeMap.getElem?_empty, Option.none_or]
    rfl
  | compiled ws s' stale produced count =>
    obtain ⟨-, facts, -, rfl, -⟩ := h
    cases hs
    exact Store.sources_patch_between store table

theorem unbroken_of_readied {changes : Changes} {plan : Plan} {ready : Ready}
    (h : Readied (∀ fact ∈ ·, fact.Unbroken) q store changes plan ready)
    (hstore : store.Unbroken) (sound : store.dependencies.Sound) (hq : Text.Unbroken q.text)
    (hs : ready.store? = some s) : s.Unbroken := by
  have hstrip : (strip store plan changes.deleted).Unbroken :=
    (hstore.deleteClasses sound _).deleteSources _
  cases ready with
  | nothing => cases hs
  | rejected => cases hs
  | pruned s' stale =>
    obtain ⟨-, rfl, -⟩ := h
    cases hs
    exact hstrip
  | compiled ws s' stale produced count =>
    obtain ⟨-, facts, hfacts, rfl, -⟩ := h
    cases hs
    exact (hstrip.addSources _).record (Store.sound_deleteClasses sound _) hq hfacts

end Saved

/-! ## The sources stay -/

/-- A source tree at `l`: its path does not go through the places where a build changes anything, no
source is where a store is saved, and no path of a source has a line feed. -/
structure SourceTree (p : Places) (places : List Location) (q : Path) (l : Location) (d : Disk)
    (cwd : Location) : Prop where
  leads : Leads (d.eraseAll places) cwd q l
  clear : ∀ m : Location, l.covers m = true → IsSourcePlace m → (d.fileAt m).isSome →
    ∀ k ∈ p.saving, k.covers m = false
  unbroken : Text.Unbroken q.text
  unbroken_source : ∀ file : Path, Finds d l q "java" [] file → Text.Unbroken file.text

/-- What a build that succeeds leaves behind: the sources as they were, and a current store. -/
structure Leaves (p : Places) (t : Target) (q : Path) (l : Location) (w w' : World) : Prop where
  cwd : w'.cwd = w.cwd
  tree : w'.disk.IsTree
  leads : Leads w'.disk w'.cwd q l
  same : SameSources l w.disk w'.disk
  current : ∃ s, IsCurrent p.storeAt t s w'

theorem SourceTree.leads_now (h : SourceTree p places q l w.disk w.cwd) (tree : w.disk.IsTree) :
    Leads w.disk w.cwd q l := by
  have unchanged : w.Drifted IsClassPlace places w := .refl tree
  exact unchanged.leads h.leads

theorem SourceTree.fileAt_of_saving (h : SourceTree p places q l w.disk w.cwd) {k m : Location}
    (hk : k ∈ p.saving) (hcovers : k.covers m = true) (hm : l.covers m = true)
    (hplace : IsSourcePlace m) : w.disk.fileAt m = none := by
  rw [← Option.not_isSome_iff_eq_none]
  intro hsome
  rw [h.clear m hm hplace hsome k hk] at hcovers
  cases hcovers

theorem Filed.fileAt_saving {d : Disk} (h : Filed IsClassPlace p s d) {k m : Location}
    (hk : k ∈ p.saving) (hcovers : k.covers m = true) (hplace : IsSourcePlace m) :
    d.fileAt m = none := by
  simp only [Places.saving, List.mem_cons, List.not_mem_nil, or_false] at hk
  rcases hk with rfl | rfl
  · exact h.fileAt_source hplace (.inl hcovers)
  · exact h.fileAt_source hplace (.inr hcovers)

section Kept

variable (hmem : ∀ source, source ∈ t.sources ↔
  ∃ file : Path, Finds w.disk l q "java" [] file ∧ file.text = source)

include hmem

/-- Digests stay digests of the sources while the sources stay. -/
theorem isDigest_of_sameSources (tree : w₁.disk.IsTree) (tree' : w'.disk.IsTree)
    (hleads : Leads w₁.disk w₁.cwd q l) (hleads' : Leads w'.disk w'.cwd q l)
    (hfinds : ∀ file, Finds w.disk l q "java" [] file → Finds w₁.disk l q "java" [] file)
    (same : SameSources l w₁.disk w'.disk)
    (hdigest : Changes.IsDigest w₁.disk w₁.cwd t.sources.toList table) :
    Changes.IsDigest w'.disk w'.cwd t.sources.toList table := by
  refine ⟨fun source hsource => ?_, hdigest.other⟩
  obtain ⟨bytes, hbytes, htable⟩ := hdigest.read source hsource
  obtain ⟨file, hfile, rfl⟩ := (hmem source).1 (Std.ExtTreeSet.mem_toList.1 hsource)
  exact ⟨bytes, same.readFile tree tree' hleads hleads' (hfinds file hfile) hbytes, htable⟩

theorem SourceTree.unbroken_sources (h : SourceTree p places q l w.disk w.cwd) :
    ∀ source ∈ t.sources, Text.Unbroken source := by
  intro source hsource
  obtain ⟨file, hfile, rfl⟩ := (hmem source).1 hsource
  exact h.unbroken_source file hfile

/-- After a build that has saved this store and otherwise drifted the store is current. -/
theorem leaves_of_filed (hsources : SourceTree p p.saving q l w.disk w.cwd) (tree : w.disk.IsTree)
    (layout : Layout w.disk w.cwd (Store.sites p.storeAt p.above p.name))
    (hdrifted : w.Drifted IsClassPlace p.saving w') (hfiled : Filed IsClassPlace p s w'.disk)
    (hs : s.Unbroken) (hdigest : Changes.IsDigest w.disk w.cwd t.sources.toList s.sources) :
    Leaves p t q l w w' := by
  have hleads := hsources.leads_now tree
  have hleads' := hdrifted.leads hsources.leads
  have same : SameSources l w.disk w'.disk := hdrifted.sameSources fun k hk m hcovers hm hplace => by
    rw [hfiled.fileAt_saving hk hcovers hplace, hsources.fileAt_of_saving hk hcovers hm hplace]
  have layout' := hdrifted.layout layout (by simp [Store.sites, Places.saving, Places.store, Places.beside])
  obtain ⟨s', hload, hsame, -⟩ := hfiled.exists_load layout' hs hdigest (hsources.unbroken_sources hmem)
  refine ⟨hdrifted.cwd, hdrifted.tree, hleads', same, s', hfiled.isAt layout', hload, ?_⟩
  rw [hsame]
  exact isDigest_of_sameSources hmem tree hdrifted.tree hleads hleads' (fun _ => id) same hdigest

end Kept

/-! ## With a store -/

theorem commit_nothing : (commit output .nothing).wp w (fun _ w' => w'.view = w.view)
    fun _ _ => False := by
  rw [commit, Action.wp_bind, Action.wp_print]
  exact (Action.wp_pure _).2 rfl

theorem commit_prepared_leaves {spare : Location → Prop}
    (drifts : tools.Drifts IsClassPlace spare) (reports : Reports tools ClassFact.Unbroken)
    (plain : w.disk.PlainClasses) (laidOut : LaidOut p [] w)
    (hat : Store.isAt w.disk w.cwd p.storeAt = true)
    (hsources : SourceTree p p.saving t.sourceTree l w.disk w.cwd)
    (hmem : ∀ source, source ∈ t.sources ↔
      ∃ file : Path, Finds w.disk l t.sourceTree "java" [] file ∧ file.text = source) :
    (prepare tools t p.storeAt).wp w
      (fun ready w₁ => (commit t.output ready).wp w₁
        (fun outcome w' => outcome ≠ .compileFailed → Leaves p t t.sourceTree l w w')
        fun _ _ => True)
      fun _ _ => True := by
  refine ((prepare_underway (fun _ => id) drifts laidOut plain).and (prepare_readied reports)).mono
    (fun ready w₁ h₁ => ?_) fun _ _ _ => trivial
  obtain ⟨hunderway, store, table, affected, c, hreadied⟩ := h₁
  have hcommit := @commit_committed IsClassPlace p w w₁ t.output (fun _ => id) ready laidOut plain hunderway
    fun s hs => (hreadied.directory_eq hs).trans c.directory_eq
  -- whatever was made ready to be saved, it is saved before anything is published
  have hsaved (s : Store) (hs : ready.store? = some s) (w' : World) (outcome : Outcome)
      (h : Committed IsClassPlace p w ready outcome w') : Leaves p t t.sourceTree l w w' := by
    refine leaves_of_filed hmem hsources laidOut.tree laidOut.store_layout h.drifted (h.filed s hs)
      (unbroken_of_readied hreadied (Store.unbroken_of_load c.load) (Store.load_sound c.load)
        hsources.unbroken hs) ?_
    rw [sources_of_readied hreadied hs]
    exact c.digest
  cases ready with
  | nothing =>
    obtain ⟨hempty, hdeleted⟩ := hreadied
    refine commit_nothing.mono (fun _ w' h' _ => ?_) fun _ _ => False.elim
    have hview : w'.view = w.view := h'.trans hunderway
    have hdrifted : w.Drifted IsClassPlace p.saving w' := .of_view laidOut.tree hview
    refine ⟨hdrifted.cwd, hdrifted.tree, hdrifted.leads hsources.leads, ?_, store, ?_⟩
    · have hdisk : w'.disk = w.disk := congrArg View.disk hview
      rw [hdisk]
      exact fun _ _ _ => rfl
    · refine IsCurrent.of_view ⟨hat, c.load, ?_⟩ hview
      rw [sources_of_nothing hempty hdeleted]
      exact c.digest
  | rejected => exact (Action.wp_pure _).2 fun hne => absurd rfl hne
  | pruned s stale => exact hcommit.mono (fun outcome w' h _ => hsaved s rfl w' outcome h) fun _ _ _ => trivial
  | compiled ws s stale produced count =>
    exact hcommit.mono (fun outcome w' h _ => hsaved s rfl w' outcome h) fun _ _ _ => trivial

/-! ## Without a store -/

/-- A source in the output directory cannot be read once the directory was emptied. -/
theorem not_readFile_of_emptied {names : List String} {bytes bytes' : ByteArray}
    (tree : w.disk.IsTree) (h : Emptied out w w₁) (hleads : Leads w₁.disk w₁.cwd q l)
    (hat : w.disk.fileAt (l ++ names) = some bytes) (hne : names ≠ [])
    (hcovers : out.covers (l ++ names) = true) :
    w₁.disk.readFile w₁.cwd (names.foldl Path.push q) ≠ .ok bytes' := by
  intro hread
  obtain ⟨runnable, hfind⟩ := fileAt_eq_some_iff.1 hat
  have hnames : ∀ name ∈ names, Path.IsName name := fun name hname =>
    tree.isName_of_mem hfind hname
  have hentry (m : Location) (hm : out.covers m = true) :
      w₁.disk.find? m = none ∨ w₁.disk.find? m = some .directory := by
    by_cases heq : m = out
    · exact .inr (heq ▸ h.empty.1)
    · exact .inl (h.empty.none_below h.tree hm heq)
  have hlinks : w₁.disk.NoLinks true l names := by
    intro rest hrest hprefix _ target hlink
    by_cases hout : out.covers (l ++ rest) = true
    · rcases hentry _ hout with hnone | hdir
      · rw [hnone] at hlink
        cases hlink
      · rw [hdir] at hlink
        cases hlink
    · rw [Bool.not_eq_true] at hout
      obtain ⟨more, rfl⟩ := hprefix
      rcases h.outside _ hout with hsame | ⟨-, -, hdir⟩
      · rw [hsame] at hlink
        by_cases hmore : more = []
        · subst hmore
          rw [List.append_nil] at hfind
          rw [hfind] at hlink
          cases hlink
        · rw [← List.append_assoc] at hfind
          rw [tree.directory_of_append hfind hmore] at hlink
          cases hlink
      · rw [hdir] at hlink
        cases hlink
  obtain ⟨x, runnable', hresolve, hfile⟩ := readFile_eq_ok_iff.1 hread
  rw [hleads.resolve hne hnames hlinks, Except.bind_eq_ok_iff] at hresolve
  obtain ⟨_, -, hdescend⟩ := hresolve
  rw [(descend_eq_ok_iff.1 hdescend).1] at hfile
  rcases hentry _ hcovers with hnone | hdir
  · rw [hnone] at hfile
    cases hfile
  · rw [hdir] at hfile
    cases hfile

/-- A full build leaves a store with the digests of the sources as they were once the output directory
was emptied. -/
theorem full_recorded {spare : Location → Prop} (drifts : tools.Drifts IsClassPlace spare)
    (reports : Reports tools ClassFact.Unbroken)
    (layout : Layout w.disk w.cwd (Store.sites p.storeAt p.above p.name ++ [(t.output, out)]))
    (hlink : ∀ target, w.disk.find? out ≠ some (.link target)) (plain : w.disk.PlainClasses)
    (hq : Text.Unbroken t.sourceTree.text) (hunbroken : ∀ source ∈ t.sources, Text.Unbroken source) :
    (full tools t p.storeAt).wp w
      (fun outcome w' => outcome ≠ .compileFailed →
        w.Drifted IsClassPlace (out :: p.saving) w' ∧ Store.isAt w'.disk w'.cwd p.storeAt = true ∧
        ∃ w₁ s, Emptied out w w₁ ∧ Remade IsClassPlace spare p out w₁ w' ∧
          (∃ saved, Filed IsClassPlace p saved w'.disk) ∧
          (Store.load p.storeAt).on w' = (.ok s, w') ∧
          Changes.IsDigest w₁.disk w₁.cwd t.sources.toList s.sources)
      fun _ _ => True := by
  refine (full_completed drifts reports layout hlink plain).mono (fun outcome w' h hne => ?_)
    fun _ _ _ => trivial
  obtain ⟨hdrifted, w₁, all, hemptied, hall, hremade, hend⟩ := h
  obtain ⟨facts, hfacts, hfiled⟩ := hend.resolve_left hne
  have layout' := (hdrifted.layout layout
    (by simp [Store.sites, Places.saving, Places.store, Places.beside])).sublist
      (List.sublist_append_left _ _)
  have hbegun : (begun p.storeAt t.sourceTree (Changes.between all ∅).changed facts).sources = all := by
    rw [sources_begun, changed_between_empty]
  obtain ⟨s, hload, hsame, -⟩ := hfiled.exists_load layout' (unbroken_begun _ _ hq hfacts)
    (hbegun.symm ▸ hall) hunbroken
  refine ⟨hdrifted, hfiled.isAt layout', w₁, s, hemptied, hremade, ⟨_, hfiled⟩, hload, ?_⟩
  rwa [hsame, hbegun]

theorem full_leaves
    (drifts : tools.Drifts IsClassPlace fun m => l.covers m = true ∧ IsSourcePlace m)
    (reports : Reports tools ClassFact.Unbroken)
    (layout : Layout w.disk w.cwd (Store.sites p.storeAt p.above p.name ++ [(t.output, out)]))
    (hlink : ∀ target, w.disk.find? out ≠ some (.link target)) (plain : w.disk.PlainClasses)
    (hsources : SourceTree p (out :: p.saving) t.sourceTree l w.disk w.cwd)
    (hmem : ∀ source, source ∈ t.sources ↔
      ∃ file : Path, Finds w.disk l t.sourceTree "java" [] file ∧ file.text = source) :
    (full tools t p.storeAt).wp w
      (fun outcome w' => outcome ≠ .compileFailed → Leaves p t t.sourceTree l w w')
      fun _ _ => True := by
  refine (full_recorded drifts reports layout hlink plain hsources.unbroken
    (hsources.unbroken_sources hmem)).mono (fun outcome w' h hne => ?_) fun _ _ _ => trivial
  obtain ⟨hdrifted, hat, w₁, s, hemptied, hremade, ⟨saved, hfiled⟩, hload, hdigest⟩ := h hne
  have hdrifted₁ : w.Drifted IsClassPlace (out :: p.saving) w₁ :=
    .of_altered (.of_touched hemptied.toTouched (by simp))
  have hleads₁ := hdrifted₁.leads hsources.leads
  have hleads' := hdrifted.leads hsources.leads
  -- a source in the output directory would not have been read
  have hgone (m : Location) (hcovers : out.covers m = true) (hm : l.covers m = true)
      (hplace : IsSourcePlace m) : w.disk.fileAt m = none := by
    rw [Option.eq_none_iff_forall_ne_some]
    intro bytes hbytes
    obtain ⟨names, rfl⟩ := Location.covers_iff.1 hm
    have hnames : names ≠ [] := by
      rintro rfl
      obtain ⟨runnable, hfind⟩ := fileAt_eq_some_iff.1 hbytes
      rw [List.append_nil, (hsources.leads_now layout.tree).directory] at hfind
      cases hfind
    have hsource : (names.foldl Path.push t.sourceTree).text ∈ t.sources.toList :=
      Std.ExtTreeSet.mem_toList.2 ((hmem _).2 ⟨_, (finds_source_iff layout.tree).2
        ⟨names, bytes, hnames, rfl, hbytes, hplace⟩, rfl⟩)
    obtain ⟨bytes', hread, -⟩ := hdigest.read _ hsource
    exact not_readFile_of_emptied layout.tree hemptied hleads₁ hbytes hnames hcovers hread
  have same₁ : SameSources l w.disk w₁.disk := by
    have htouched : w.Drifted IsClassPlace [out] w₁ :=
      .of_altered (.of_touched hemptied.toTouched (List.mem_singleton_self out))
    refine htouched.sameSources fun k hk m hcovers hm hplace => ?_
    obtain rfl := List.mem_singleton.1 hk
    rw [hemptied.fileAt_eq_none hcovers, hgone m hcovers hm hplace]
  have same' : SameSources l w₁.disk w'.disk := by
    intro m hm hplace
    by_cases hsaving : ∃ k ∈ p.saving, k.covers m = true
    · obtain ⟨k, hk, hcovers⟩ := hsaving
      rw [hfiled.fileAt_saving hk hcovers hplace, same₁ m hm hplace,
        hsources.fileAt_of_saving hk hcovers hm hplace]
    · push Not at hsaving
      exact fileAt_of_drifts (hremade.spared m ⟨hm, hplace⟩ fun k hk => by simpa using hsaving k hk)
        hplace.not_class
  exact ⟨hdrifted.cwd, hdrifted.tree, hleads', same₁.trans same', s, hat, hload,
    isDigest_of_sameSources hmem hemptied.tree hdrifted.tree hleads₁ hleads'
      (fun file => (same₁.finds_iff layout.tree hemptied.tree).2) same' hdigest⟩

/-! ## Every build that succeeds -/

theorem Leaves.of_quiet (hquiet : w.Quiet w₁) (h : Leaves p t q l w₁ w') : Leaves p t q l w w' :=
  ⟨h.cwd.trans hquiet.cwd, h.tree, h.leads, hquiet.disk ▸ h.same, h.current⟩

/-- Without sources a build does nothing. -/
theorem run_noSources (hlocate : (locate output sourceTree).on w = (.ok t, w))
    (hsources : t.sources.isEmpty = true) :
    ∃ w', (run tools storeRoot output sourceTree).on w = (.ok .noSources, w') := by
  unfold run survey
  simp only [bind_assoc]
  rw [Action.on_bind, hlocate]
  dsimp only
  rw [if_pos hsources]
  exact ⟨_, rfl⟩

section Run

variable (drifts : tools.Drifts IsClassPlace fun m => l.covers m = true ∧ IsSourcePlace m)
  (reports : Reports tools ClassFact.Unbroken) (plain : w.disk.PlainClasses)
  (hstore : storeFor storeRoot sourceTree w.cwd = p.storeAt)
  (hincremental : Store.isAt w.disk w.cwd p.storeAt = true → LaidOut p [] w)
  (hfull : Store.isAt w.disk w.cwd p.storeAt = false →
    Layout w.disk w.cwd (Store.sites p.storeAt p.above p.name ++ [(output.absolute w.cwd, out)]) ∧
      ∀ target, w.disk.find? out ≠ some (.link target))
  (hsources : SourceTree p (p.open out (Store.isAt w.disk w.cwd p.storeAt))
    (sourceTree.absolute w.cwd) l w.disk w.cwd)

include drifts reports plain hstore hincremental hfull hsources

theorem run_leaves :
    (run tools storeRoot output sourceTree).wp w
      (fun outcome w' => outcome = .upToDate ∨ (∃ n, outcome = .compiled n) →
        ∃ t, (locate output sourceTree).on w = (.ok t, w) ∧
          Leaves p t (sourceTree.absolute w.cwd) l w w')
      fun _ _ => True := by
  have tree : w.disk.IsTree := by
    cases hat : Store.isAt w.disk w.cwd p.storeAt with
    | true => exact (hincremental hat).tree
    | false => exact (hfull hat).1.tree
  have hlocated {t : Target} (hlocate : (locate output sourceTree).on w = (.ok t, w)) :=
    located_of_locate tree (hsources.leads_now tree) hlocate
  refine run_wp (fun _ => trivial) (fun _ _ _ _ _ h => ?_) (fun t hlocate _ hat w₁ hquiet => ?_)
    fun t hlocate hat w₁ hquiet => ?_
  · rcases h with h | ⟨n, h⟩ <;> cases h
  · rw [hstore] at hat ⊢
    obtain ⟨layout, hlink⟩ := hfull hat
    have hmem := (hlocated hlocate).mem
    rw [← (hlocated hlocate).output_eq, ← hquiet.disk, ← hquiet.cwd] at layout
    simp only [Places.open, hat, Bool.false_eq_true, if_false] at hsources
    rw [← (hlocated hlocate).tree_eq] at hsources hmem ⊢
    rw [← hquiet.disk] at hmem hlink plain
    rw [← hquiet.disk, ← hquiet.cwd] at hsources
    refine (full_leaves drifts reports layout hlink plain hsources hmem).mono
      (fun outcome w' h hend => ⟨t, hlocate, (h ?_).of_quiet hquiet⟩) fun _ _ _ => trivial
    rcases hend with rfl | ⟨n, rfl⟩ <;> simp
  · rw [hstore] at hat ⊢
    have laidOut := (hincremental hat).of_quiet hquiet
    have hmem := (hlocated hlocate).mem
    simp only [Places.open, hat, if_true] at hsources
    rw [← (hlocated hlocate).tree_eq] at hsources hmem ⊢
    rw [← hquiet.disk] at hmem plain
    rw [← hquiet.disk, ← hquiet.cwd] at hsources hat
    refine (commit_prepared_leaves drifts reports plain laidOut hat hsources hmem).mono
      (fun ready w₂ h₂ => h₂.mono (fun outcome w' h hend => ⟨t, hlocate, (h ?_).of_quiet hquiet⟩)
        fun _ _ _ => trivial) fun _ _ _ => trivial
    rcases hend with rfl | ⟨n, rfl⟩ <;> simp

/-- Later, the working directory is the same, and a build finds the same sources with the same
contents, and the same store, as it does now. -/
structure ReadsAlike (storeAt output sourceTree : Path) (t : Target) (w later : World) : Prop where
  cwd : later.cwd = w.cwd
  locate : (locate output sourceTree).on later = (.ok t, later)
  read : ∀ source ∈ t.sources,
    later.disk.readFile later.cwd ⟨source⟩ = w.disk.readFile w.cwd ⟨source⟩
  isAt : Store.isAt later.disk later.cwd storeAt = Store.isAt w.disk w.cwd storeAt
  load : ((Store.load storeAt).on later).1 = ((Store.load storeAt).on w).1

/-- A build that succeeds leaves a store whose digests are those of the sources as they are then. As
long as the sources are found again with the same contents, and the store is left alone, every
further build returns that it is up to date, whatever the tools are; it calls none of them and
changes nothing on the disk. The sources are found again if every directory below the source tree
can be named. -/
theorem run_again {outcome : Outcome}
    (hrun : (run tools storeRoot output sourceTree).on w = (.ok outcome, w'))
    (houtcome : outcome = .upToDate ∨ ∃ n, outcome = .compiled n) :
    ∃ t s, (locate output sourceTree).on w = (.ok t, w) ∧ IsCurrent p.storeAt t s w' ∧
      (∀ t' w'', (locate output sourceTree).on w' = (.ok t', w'') → t' = t) ∧
      (w'.disk.find? w'.cwd = some .directory →
        Nameable w'.disk l (sourceTree.absolute w.cwd) [] →
          (locate output sourceTree).on w' = (.ok t, w')) ∧
      ∀ later, ReadsAlike p.storeAt output sourceTree t w' later → ∀ (tools' : Toolchain) (n : ℕ),
        later.Quiet (afterBuilds tools' storeRoot output sourceTree n later) ∧
          ∃ after, (run tools' storeRoot output sourceTree).on
            (afterBuilds tools' storeRoot output sourceTree n later) = (.ok .upToDate, after) := by
  obtain ⟨t, hlocate, hleaves⟩ := (run_leaves drifts reports plain hstore hincremental hfull
    hsources).of_ok hrun houtcome
  obtain ⟨s, hcurrent⟩ := hleaves.current
  have tree : w.disk.IsTree := by
    cases hat : Store.isAt w.disk w.cwd p.storeAt with
    | true => exact (hincremental hat).tree
    | false => exact (hfull hat).1.tree
  have hlocated := located_of_locate tree (hsources.leads_now tree) hlocate
  have hleads' : Leads w'.disk w'.cwd (sourceTree.absolute w'.cwd) l := by
    have hleads := hleaves.leads
    rwa [hleaves.cwd] at hleads ⊢
  have hsame {t' : Target} {w'' : World}
      (hlocate' : (locate output sourceTree).on w' = (.ok t', w'')) : t' = t :=
    hlocated.unique (located_of_locate hleaves.tree hleads' hlocate') hleaves.cwd
      fun _ => hleaves.same.finds_iff tree hleaves.tree
  have hnonempty : t.sources.isEmpty = false := by
    rw [Bool.eq_false_iff]
    intro hempty
    obtain ⟨w'', hnone⟩ := @run_noSources tools w t storeRoot output sourceTree hlocate hempty
    obtain rfl : outcome = .noSources := Except.ok.inj (congrArg Prod.fst (hrun.symm.trans hnone))
    rcases houtcome with h | ⟨n, h⟩ <;> cases h
  refine ⟨t, s, hlocate, hcurrent, fun _ _ => hsame, fun hdir hnameable => ?_,
    fun later halike tools' n => ?_⟩
  · rw [← hleaves.cwd] at hnameable
    obtain ⟨t', hlocate'⟩ := @exists_locate w' output sourceTree l hleaves.tree hleads' hdir hnameable
    rwa [hsame hlocate'] at hlocate'
  · have hcurrent' : IsCurrent (storeFor storeRoot sourceTree later.cwd) t s later := by
      rw [halike.cwd, hleaves.cwd, hstore]
      refine ⟨halike.isAt.trans hcurrent.isAt, ?_, ⟨fun source hsource => ?_, hcurrent.digest.other⟩⟩
      · rcases hload : (Store.load p.storeAt).on later with ⟨f | s', w''⟩
        · have := halike.load
          rw [hload, hcurrent.load] at this
          cases this
        · have := halike.load
          rw [hload, hcurrent.load] at this
          cases this
          rw [(Store.load_quiet.of_ok hload).1]
      · rw [halike.read source (Std.ExtTreeSet.mem_toList.1 hsource)]
        exact hcurrent.digest.read source hsource
    exact hcurrent'.run_afterBuilds halike.locate hnonempty n

end Run

/-- The only file in `/src` is an empty source, there are no links, and temporary files go to
`/tmp`. -/
structure HasEmptySource (w : World) : Prop where
  tree : w.disk.IsTree
  ne_link : ∀ l target, w.disk.find? l ≠ some (.link target)
  cwd : w.cwd = []
  temporary : temporaryFor w.cwd w.environment = Location.toPath ["tmp"]
  directory : ∀ m, w.disk.find? (["src"] ++ m) = some .directory ↔ m = []
  source : ∀ m bytes, w.disk.fileAt (["src"] ++ m) = some bytes ↔ m = ["A.java"] ∧ bytes = .empty

namespace HasEmptySource

theorem of_entries (tree : w.disk.IsTree)
    (hlinks : w.disk.entries.all (fun e => !e.2.isLink) = true) (hcwd : w.cwd = [])
    (htemporary : temporaryFor w.cwd w.environment = Location.toPath ["tmp"])
    (hentries : w.disk.entries.filter (fun e => Location.covers ["src"] e.1) =
      [(["src"], .directory), (["src", "A.java"], .file .empty false)]) : HasEmptySource w := by
  have hfind (m : Location) (e : Entry) : w.disk.find? (["src"] ++ m) = some e ↔
      (["src"] ++ m, e) ∈ w.disk.entries.filter (fun e => Location.covers ["src"] e.1) := by
    rw [find?_eq_some_iff _ (by simp), List.mem_filter, and_iff_left (Location.covers_append ["src"] m)]
  simp only [hentries, List.mem_cons, Prod.mk.injEq, List.not_mem_nil, or_false] at hfind
  refine ⟨tree, find?_ne_link hlinks, hcwd, htemporary, fun m => ?_, fun m bytes => ?_⟩
  · rw [hfind]
    simp
  · simp only [fileAt_eq_some_iff, hfind]
    simp

theorem leads (h : HasEmptySource w) (ls : List Location)
    (hls : ∀ l ∈ ls, Location.covers l ["src"] = false) :
    Leads (w.disk.eraseAll ls) w.cwd ⟨"/src"⟩ ["src"] := by
  have hpush : Path.push ⟨"/"⟩ "src" = ⟨"/src"⟩ := by decide
  rw [← hpush]
  refine (leads_root _ _).push (by decide) (by decide) ?_
  rw [find?_eraseAll, if_neg (by simpa using hls)]
  exact (h.directory []).2 rfl

theorem absolute_eq (h : HasEmptySource w) : Path.absolute ⟨"/src"⟩ w.cwd = ⟨"/src"⟩ := by
  rw [h.cwd]
  decide

theorem finds_iff (h : HasEmptySource w) {file : Path} :
    Finds w.disk ["src"] ⟨"/src"⟩ "java" [] file ↔ file = ⟨"/src/A.java"⟩ := by
  have hplace : IsSourcePlace (["src"] ++ ["A.java"]) := ⟨["src"], "A.java", rfl, by decide⟩
  rw [finds_source_iff h.tree]
  constructor
  · rintro ⟨names, bytes, -, rfl, hat, -⟩
    rw [((h.source names bytes).1 hat).1]
    decide
  · rintro rfl
    exact ⟨["A.java"], .empty, by simp, by decide, (h.source _ _).2 ⟨rfl, rfl⟩, hplace⟩

theorem mem_sources (h : HasEmptySource w) {output : Path}
    (hlocate : (locate output ⟨"/src"⟩).on w = (.ok t, w)) (source : String) :
    source ∈ t.sources ↔ source = "/src/A.java" := by
  have hleads : Leads w.disk w.cwd ⟨"/src"⟩ ["src"] := h.leads [] (by simp)
  rw [(located_of_locate h.tree (h.absolute_eq.symm ▸ hleads) hlocate).mem, h.absolute_eq]
  simp only [h.finds_iff, exists_eq_left, eq_comm]

theorem readFile (h : HasEmptySource w) :
    w.disk.readFile w.cwd ⟨"/src/A.java"⟩ = .ok .empty := by
  have hleads : Leads w.disk w.cwd ⟨"/src"⟩ ["src"] := h.leads [] (by simp)
  obtain ⟨runnable, hfind⟩ := fileAt_eq_some_iff.1 ((h.source ["A.java"] .empty).2 ⟨rfl, rfl⟩)
  have hpush : Path.push ⟨"/src"⟩ "A.java" = ⟨"/src/A.java"⟩ := by decide
  have hreach := hleads.reaches_of_find? h.tree (by simp) hfind
  rw [List.foldl_cons, List.foldl_nil, hpush] at hreach
  exact (hreach.readFile_eq_ok_iff h.tree (h.ne_link _)).2 ⟨by decide, runnable, hfind⟩

theorem exists_locate (h : HasEmptySource w) (output : Path) :
    ∃ t, (locate output ⟨"/src"⟩).on w = (.ok t, w) := by
  have hleads : Leads w.disk w.cwd ⟨"/src"⟩ ["src"] := h.leads [] (by simp)
  refine Build.exists_locate h.tree (h.absolute_eq.symm ▸ hleads) (by simp [h.cwd]) fun rest hrest => ?_
  rw [List.nil_append] at hrest ⊢
  rw [(h.directory rest).1 hrest, h.absolute_eq]
  decide

end HasEmptySource

theorem newSource_hasEmptySource : HasEmptySource newSource :=
  .of_entries newSource_tree (by decide) rfl (by decide) rfl

theorem newSource_sourceTree : SourceTree newSourcePlaces newSourcePlaces.saving ⟨"/src"⟩ ["src"]
    newSource.disk newSource.cwd := by
  have hempty := newSource_hasEmptySource
  refine ⟨hempty.leads _ ?_, fun m hm _ hsome k hk => ?_, by decide, fun file hfile => ?_⟩
  · simp [newSourcePlaces, Places.saving, Places.store, Places.beside, Location.covers,
      List.isPrefixOf]
  · obtain ⟨names, rfl⟩ := Location.covers_iff.1 hm
    obtain ⟨bytes, hbytes⟩ := Option.isSome_iff_exists.1 hsome
    rw [((hempty.source names bytes).1 hbytes).1]
    simp only [Places.saving, List.mem_cons, List.not_mem_nil, or_false] at hk
    rcases hk with rfl | rfl <;>
      simp [newSourcePlaces, Places.store, Places.beside, Location.covers, List.isPrefixOf]
  · rw [hempty.finds_iff.1 hfile]
    decide

theorem oneClass_leavesSources (l : Location) :
    oneClass.Drifts IsClassPlace fun m => l.covers m = true ∧ IsSourcePlace m := by
  refine oneClass_drifts fun k hspare => ?_
  obtain ⟨-, k', name, heq, hname⟩ := hspare
  obtain ⟨-, hlast⟩ := List.append_inj' heq rfl
  rw [← List.singleton_inj.1 hlast] at hname
  exact absurd hname (by decide)

theorem oneClass_unbroken : Reports oneClass ClassFact.Unbroken :=
  fun _ _ => (Action.wp_pure _).2 fun fact hfact => by
    obtain rfl := List.mem_singleton.1 hfact
    exact ⟨by decide, by decide, by simp⟩

theorem run_again_newSource :
    ∃ w' t s, (run oneClass ⟨"/meta"⟩ ⟨"/out"⟩ ⟨"/src"⟩).on newSource = (.ok (.compiled 1), w') ∧
      IsCurrent newSourcePlaces.storeAt t s w' ∧
      ∀ later, ReadsAlike newSourcePlaces.storeAt ⟨"/out"⟩ ⟨"/src"⟩ t w' later →
        ∃ after, (run oneClass ⟨"/meta"⟩ ⟨"/out"⟩ ⟨"/src"⟩).on later = (.ok .upToDate, after) := by
  have hcompiled := newSource_compiled
  rcases hrun : (run oneClass ⟨"/meta"⟩ ⟨"/out"⟩ ⟨"/src"⟩).on newSource with ⟨f | outcome, w'⟩
  · rw [hrun] at hcompiled
    cases hcompiled
  simp only [hrun, beq_iff_eq] at hcompiled
  subst hcompiled
  have hsource : Path.absolute ⟨"/src"⟩ newSource.cwd = ⟨"/src"⟩ := by decide
  have hat : Store.isAt newSource.disk newSource.cwd newSourcePlaces.storeAt = true :=
    storeFor_newSource ▸ newSource_isAt
  have hsources : SourceTree newSourcePlaces
      (newSourcePlaces.open ["out"] (Store.isAt newSource.disk newSource.cwd newSourcePlaces.storeAt))
      (Path.absolute ⟨"/src"⟩ newSource.cwd) ["src"] newSource.disk newSource.cwd := by
    rw [hat, hsource]
    exact newSource_sourceTree
  obtain ⟨t, s, -, hcurrent, -, -, hagain⟩ := run_again (oneClass_leavesSources ["src"])
    oneClass_unbroken (fun l _ => newSource_ne_link l) storeFor_newSource
    (fun _ => newSource_laidOut.sublist (List.nil_sublist _)) (by simp [hat]) hsources hrun
    (.inr ⟨1, rfl⟩)
  exact ⟨w', t, s, rfl, hcurrent, fun later halike => (hagain later halike oneClass 0).2⟩

theorem sourceInStore_source {m : Location} {bytes : ByteArray}
    (h : sourceInStore.disk.fileAt (["src"] ++ m) = some bytes) : m = [sourceKey, "A.java"] := by
  obtain ⟨runnable, hfind⟩ := fileAt_eq_some_iff.1 h
  have hentry := (find?_eq_some_iff _ (by simp)).1 hfind
  have hsource : m = [sourceKey, "A.java"] ∧ bytes = .empty ∧ runnable = false := by
    simpa [sourceInStore, World.start, and_assoc] using hentry
  exact hsource.1

theorem storeFor_sourceInStore :
    storeFor ⟨"/src"⟩ ⟨"/src"⟩ sourceInStore.cwd = Path.push ⟨"/src"⟩ sourceKey :=
  storeFor_source _

theorem sourceInStore_layout : Layout sourceInStore.disk sourceInStore.cwd
    (Store.sites (Path.push ⟨"/src"⟩ sourceKey) ["src"] sourceKey ++ [(⟨"/out"⟩, ["out"])]) := by
  have hroot : Path.push ⟨"/"⟩ "src" = ⟨"/src"⟩ := by decide
  have hout : Path.push ⟨"/"⟩ "out" = ⟨"/out"⟩ := by decide
  rw [← hroot, ← hout]
  exact layout_push sourceInStore_tree sourceInStore_ne_link (by decide) isName_sourceKey (by decide)
    (by decide)

theorem sourceInStore_not_isAt :
    Store.isAt sourceInStore.disk sourceInStore.cwd (Path.push ⟨"/src"⟩ sourceKey) = false := by
  have hclasses : "classes.txt" ∈ Store.tableNames := by simp [Store.tableNames]
  have hreach := sourceInStore_layout.reaches_self Store.mem_sites
  dsimp only at hreach
  refine Store.not_isAt_of_none sourceInStore_tree hreach (sourceInStore_ne_link _) hclasses ?_
  simp [Disk.find?, sourceInStore, World.start, List.lookup_cons]

/-- The only source of the tree. -/
theorem sourceInStore_sources {t : Target}
    (hlocate : (locate ⟨"/out"⟩ ⟨"/src"⟩).on sourceInStore = (.ok t, sourceInStore))
    (source : String) :
    source ∈ t.sources ↔ source = (Path.push (Path.push ⟨"/src"⟩ sourceKey) "A.java").text := by
  have hpush : Path.push ⟨"/"⟩ "src" = ⟨"/src"⟩ := by decide
  have hsource : Path.absolute ⟨"/src"⟩ sourceInStore.cwd = ⟨"/src"⟩ := by decide
  have hleads : Leads sourceInStore.disk sourceInStore.cwd ⟨"/src"⟩ ["src"] := by
    rw [← hpush]
    refine (leads_root _ _).push (by decide) (by decide) ?_
    simp [Disk.find?, sourceInStore, World.start]
  have hplace : IsSourcePlace (["src"] ++ [sourceKey, "A.java"]) :=
    ⟨["src", sourceKey], "A.java", rfl, by decide⟩
  have hfile : sourceInStore.disk.fileAt (["src"] ++ [sourceKey, "A.java"]) = some .empty :=
    fileAt_eq_some_iff.2 ⟨false, by simp [Disk.find?, sourceInStore, World.start, List.lookup_cons]⟩
  have hpushed : Path.push (Path.push ⟨"/src"⟩ sourceKey) "A.java" =
      [sourceKey, "A.java"].foldl Path.push ⟨"/src"⟩ := by
    simp only [List.foldl_cons, List.foldl_nil]
  rw [(located_of_locate sourceInStore_tree (hsource ▸ hleads) hlocate).mem, hsource, hpushed]
  constructor
  · rintro ⟨file, hfinds, rfl⟩
    obtain ⟨names, bytes, -, rfl, hat, -⟩ := (finds_source_iff sourceInStore_tree).1 hfinds
    rw [sourceInStore_source hat]
  · intro heq
    exact ⟨_, (finds_source_iff sourceInStore_tree).2
      ⟨[sourceKey, "A.java"], _, by simp, rfl, hfile, hplace⟩, heq.symm⟩

theorem unbroken_sourceKey : Text.Unbroken sourceKey := by decide

theorem sourceInStore_records :
    (run oneClass ⟨"/src"⟩ ⟨"/out"⟩ ⟨"/src"⟩).wp sourceInStore
      (fun outcome w' => outcome = .compiled 1 →
        ∃ s, (Store.load (Path.push ⟨"/src"⟩ sourceKey)).on w' = (.ok s, w') ∧
          (Path.push (Path.push ⟨"/src"⟩ sourceKey) "A.java").text ∈ s.sources)
      fun _ _ => True := by
  refine run_wp (fun _ => trivial) (fun _ _ _ _ _ h => by cases h) (fun t hlocate _ _ w₁ hquiet => ?_)
    fun t _ hat _ _ => ?_
  · have hsources := sourceInStore_sources hlocate
    let p : Places := ⟨Path.push ⟨"/src"⟩ sourceKey, ⟨"/tmp"⟩, ["src"], sourceKey, ["tmp"]⟩
    have hstore : storeFor ⟨"/src"⟩ ⟨"/src"⟩ sourceInStore.cwd = p.storeAt := by
      dsimp only [p]
      exact storeFor_sourceInStore
    obtain ⟨-, houtput, htree⟩ := locate_quiet.of_ok hlocate
    have hout : t.output = ⟨"/out"⟩ := houtput.trans (by decide)
    have hq : t.sourceTree = ⟨"/src"⟩ := htree.trans (by decide)
    have layout : Layout w₁.disk w₁.cwd
        (Store.sites p.storeAt p.above p.name ++ [(t.output, ["out"])]) := by
      rw [hquiet.disk, hquiet.cwd, hout]
      dsimp only [p]
      exact sourceInStore_layout
    have hlink (l : Location) (target : Path) : w₁.disk.find? l ≠ some (.link target) := by
      rw [hquiet.disk]
      exact sourceInStore_ne_link l target
    have hplace : Text.Unbroken (Path.push ⟨"/src"⟩ sourceKey).text :=
      @Path.unbroken_join ⟨"/src"⟩ ⟨sourceKey⟩ (by decide) unbroken_sourceKey
    have hunbroken : ∀ source ∈ t.sources, Text.Unbroken source := by
      intro source hsource
      rw [(hsources source).1 hsource]
      exact @Path.unbroken_join _ ⟨"A.java"⟩ hplace (by decide)
    rw [hstore]
    refine (full_recorded (oneClass_leavesSources ["src"]) oneClass_unbroken layout (hlink _)
      (fun l _ => hlink l) (hq ▸ by decide) hunbroken).mono (fun outcome w' h houtcome => ?_)
      fun _ _ _ => trivial
    obtain ⟨-, -, w₂, s, -, -, -, hload, hdigest⟩ := h (houtcome ▸ by simp)
    obtain ⟨bytes, -, htable⟩ := hdigest.read _ (Std.ExtTreeSet.mem_toList.2 ((hsources _).2 rfl))
    exact ⟨s, hload, (Table.mem_iff_exists_getElem? _ _).2 ⟨_, htable⟩⟩
  · rw [storeFor_sourceInStore, sourceInStore_not_isAt] at hat
    cases hat

/-- A store in the source tree with a source in it: the build that replaces the store has recorded
the source that is not there any more. -/
theorem not_run_again :
    oneClass.StaysInside ∧
      (oneClass.Drifts IsClassPlace fun m => Location.covers ["src"] m = true ∧ IsSourcePlace m) ∧
      Reports oneClass ClassFact.Unbroken ∧
      (∀ m bytes, sourceInStore.disk.fileAt (["src"] ++ m) = some bytes →
        m = [sourceKey, "A.java"] ∧ ∀ name ∈ m, Text.Unbroken name) ∧
      ∃ w' s, (run oneClass ⟨"/src"⟩ ⟨"/out"⟩ ⟨"/src"⟩).on sourceInStore = (.ok (.compiled 1), w') ∧
        (Store.load (storeFor ⟨"/src"⟩ ⟨"/src"⟩ sourceInStore.cwd)).on w' = (.ok s, w') ∧
        (Path.push (Path.push ⟨"/src"⟩ sourceKey) "A.java").text ∈ s.sources ∧
        w'.disk.find? ["src", sourceKey, "A.java"] = none := by
  refine ⟨oneClass_staysInside, oneClass_leavesSources _, oneClass_unbroken,
    fun m bytes hbytes => ⟨sourceInStore_source hbytes, ?_⟩, ?_⟩
  · rw [sourceInStore_source hbytes]
    simpa using ⟨unbroken_sourceKey, by decide⟩
  have hcompiled := sourceInStore_compiled.2
  rcases hrun : (run oneClass ⟨"/src"⟩ ⟨"/out"⟩ ⟨"/src"⟩).on sourceInStore with ⟨f | outcome, w'⟩
  · rw [hrun] at hcompiled
    cases hcompiled
  simp only [hrun, Bool.and_eq_true, beq_iff_eq] at hcompiled
  obtain ⟨rfl, hgone⟩ := hcompiled
  obtain ⟨s, hload, hlisted⟩ := sourceInStore_records.of_ok hrun rfl
  exact ⟨w', s, rfl, storeFor_sourceInStore ▸ hload, hlisted, Option.isNone_iff_eq_none.1 hgone⟩

end Recompile.Build
