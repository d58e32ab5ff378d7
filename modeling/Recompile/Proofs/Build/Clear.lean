import Recompile.Proofs.Build.Full
import Recompile.Proofs.Build.Places
import Recompile.Proofs.Build.Readied
import Recompile.Proofs.Store.Clear

/-!
# Builds with nothing in the way of the store

Where nothing is in the way of the store, each reset and each save of a build is one change of the
disk that goes by places. A build with these changes in their place does the same, and can be
followed on a given disk without the paths of the tables.
-/

namespace Recompile.Build

open Directory Disk Staging World

attribute [local irreducible] Action.wp scratchName

section By

variable (reset : Action Unit) (save : Store → Action Unit)

/-- A full build up to the point where it saves its store, which it resets as it is told. -/
def beginBy (tools : Toolchain) (t : Target) (storeAt : Path) : Action (Option Store) := do
  match ← compileAll tools t with
  | none => return none
  | some digests =>
    reset
    let (store, _) ← recordClasses tools (.new storeAt) t.sourceTree digests t.output
    return some store

/-- The rest of a full build, which saves its store as it is told. -/
def endBy (t : Target) (store : Store) : Action Outcome := do
  Action.phase "save" (save store)
  log .info "full build done"
  return .compiled t.sources.toList.length

/-- A full build that resets and saves its store as it is told. -/
def fullBy (tools : Toolchain) (t : Target) (storeAt : Path) : Action Outcome := do
  match ← beginBy reset tools t storeAt with
  | none => return .compileFailed
  | some store => endBy save t store

/-- Saves as it is told, and publishes. -/
def commitBy (output : Path) : Ready → Action Outcome
  | .nothing => do
    Action.print "Nothing to compile.\n"
    return .upToDate
  | .pruned store stale => do
    Action.phase "save" (save store)
    Staging.deleteClassFiles output stale.toList
    Action.print "Nothing to compile.\n"
    return .upToDate
  | .rejected => return .compileFailed
  | .compiled w store stale produced count => Action.finishing w.discard do
    Action.phase "save" (save store)
    Action.phase "publish" do
      Staging.deleteClassFiles output stale.toList
      Staging.copyClassFiles w.destination output produced.toList
    log .info "incremental build done"
    return .compiled count

/-- A build that finds the store at a place, if there is one, and resets and saves it as it is told. -/
def runBy (tools : Toolchain) (storeAt output sourceTree : Path) (found : Option Store) :
    Action Outcome := do
  let t ← locate output sourceTree
  if t.sources.isEmpty then carryOut tools .empty
  else
    log .debug "all sources"
    match found with
    | none =>
      announceFull storeAt
      fullBy reset save tools t storeAt
    | some store => commitBy save t.output (← prepareFrom tools t store)

end By

variable {p : Places} {w w₁ : World} {tools : Toolchain} {t : Target} {output storeAt : Path}
  {o k : Location} {name : String} {save : Store → Action Unit} {ws : Workspace} {a b : Location}

theorem on_commit_by {ready : Ready}
    (hsave : ∀ s ∈ ready.store?, s.save.on w = (save s).on w) :
    (commit output ready).on w = (commitBy save output ready).on w := by
  have hrest {α : Type} (next : Unit → Action α) (s : Store) (hs : s ∈ ready.store?) :
      (Action.phase "save" s.save >>= next).on w = (Action.phase "save" (save s) >>= next).on w :=
    Action.on_bind_left (Action.on_phase_congr (hsave s hs))
  cases ready with
  | nothing => rfl
  | rejected => rfl
  | pruned s stale => exact hrest _ s rfl
  | compiled ws s stale produced count => exact Action.on_finishing_congr (hrest _ s rfl)

/-! ## Without a store -/

theorem full_eq_fullBy (tools : Toolchain) (t : Target) (storeAt : Path) :
    full tools t storeAt = fullBy (Store.reset storeAt) Store.save tools t storeAt := by
  unfold full fullBy beginBy endBy recordAll
  simp only [bind_assoc]
  congr 1
  funext digests
  cases digests <;> simp

/-- A build without a store ends with saving the one that it has begun. -/
theorem on_run_eq_endBy {storeRoot sourceTree : Path} {store : Store}
    (hlocate : (locate output sourceTree).on w = (.ok t, w)) (hsources : t.sources.isEmpty = false)
    (hstore : storeFor storeRoot sourceTree w.cwd = storeAt)
    (hat : Store.isAt w.disk w.cwd storeAt = false)
    (hbegin : (do
      log .debug "all sources"
      announceFull storeAt
      beginBy (Store.reset storeAt) tools t storeAt).on w = (.ok (some store), w₁)) :
    (run tools storeRoot output sourceTree).on w = (endBy Store.save t store).on w₁ := by
  obtain ⟨w₂, hlog, -⟩ := @exists_on_log w .debug "all sources"
  obtain ⟨w₃, hannounce⟩ : ∃ w₃, (announceFull storeAt).on w₂ = (.ok (), w₃) := ⟨_, rfl⟩
  rw [Action.on_bind, hlog] at hbegin
  dsimp only at hbegin
  rw [Action.on_bind, hannounce] at hbegin
  dsimp only at hbegin
  rw [on_run_of_locate hlocate hsources hstore, hat, Action.on_bind, hlog]
  dsimp only
  rw [if_neg (by simp), carryOut, Action.on_bind, hannounce, full_eq_fullBy]
  dsimp only
  rw [fullBy, Action.on_bind, hbegin]

theorem endBy_leaves_tables {store : Store} (can : Store.CanSave store.directory k name w)
    {other : String} (hother : other ∉ Store.tableNames) :
    (endBy Store.save t store).wp w (fun _ w' => w'.disk.find? (k ++ [name] ++ [other]) = none)
      fun _ _ => False := by
  unfold endBy
  simp only [log, Action.wp_bind, Action.wp_phase, Action.wp_log, Action.wp_pure]
  exact Store.save_leaves_tables store can hother

section Full

variable (inside : tools.StaysInside)
  (layout : Layout w.disk w.cwd (Store.sites storeAt k name ++ [(t.output, o)]))
  (hlink : ∀ target, w.disk.find? o ≠ some (.link target))
  (can : Store.CanSave storeAt k name w)

include layout can

theorem canSave_of_touched (h : w.Touched o w₁) : Store.CanSave storeAt k name w₁ := by
  have hapart := Store.apart_of_layout layout (List.mem_singleton_self (t.output, o))
  refine can.of_same ((layout_of_touched layout h).sublist (List.sublist_append_left _ _))
    fun top htop => ?_
  exact (h.outside top (hapart.not_covers_above htop)).imp id fun hnew => hnew.2.2

theorem canSave_of_making {files : String → Option ByteArray}
    (h : Store.Making storeAt (k ++ [name]) files w w₁) :
    Layout w₁.disk w₁.cwd (Store.sites storeAt k name ++ [(t.output, o)]) ∧
      Store.CanSave storeAt k name w₁ := by
  have layout₁ : Layout w₁.disk w₁.cwd (Store.sites storeAt k name ++ [(t.output, o)]) := by
    rw [h.cwd]
    exact layout.of_sameOutside Store.mem_sites h.tree h.outside
  refine ⟨layout₁, can.of_same (layout₁.sublist (List.sublist_append_left _ _)) fun top htop => ?_⟩
  exact (h.outside top (Location.not_covers_above htop name)).imp id fun hnew => hnew.2.2

include inside hlink

/-- Up to the point where it saves the store, a full build does not come in the way of that. -/
theorem beginBy_canSave : (beginBy (Store.reset storeAt) tools t storeAt).wp w
    (fun found w' => ∀ store ∈ found, Store.CanSave store.directory k name w') fun _ _ => True := by
  unfold beginBy
  rw [Action.wp_bind]
  refine (compileAll_reached inside layout.tree (layout.reaches_erase Store.last_mem_sites)
    hlink).mono (fun digests w₁ h₁ => ?_) fun _ _ _ => trivial
  obtain ⟨htouched, hdir⟩ := h₁
  cases digests with
  | none => exact (Action.wp_pure _).2 (by simp)
  | some digests =>
    have layout₁ := layout_of_touched layout htouched
    have can₁ := canSave_of_touched layout can htouched
    simp only [Action.wp_bind]
    refine (Store.reset_clear can₁.place).mono (fun _ w₂ h₂ => ?_) fun _ _ _ => trivial
    obtain ⟨layout₂, can₂⟩ := canSave_of_making layout₁ can₁ h₂.2
    have hlink₂ : ∀ target, w₂.disk.find? o ≠ some (.link target) := by
      have hapart := (Store.apart_of_layout layout (List.mem_singleton_self (t.output, o))).symm
      rw [h₂.2.outside.eq_of_apart hapart (Location.covers_self o), hdir]
      simp
    refine (recordClasses_reached inside (.new storeAt) t.sourceTree digests layout₂.tree
      (layout₂.reaches_self Store.last_mem_sites) hlink₂).mono (fun recorded w₃ h₃ => ?_)
        fun _ _ _ => trivial
    refine (Action.wp_pure _).2 ?_
    rintro store ⟨⟩
    rw [h₃.2]
    exact canSave_of_touched layout₂ can₂ h₃.1

theorem on_beginBy :
    (beginBy (Store.reset storeAt) tools t storeAt).on w =
      (beginBy (Store.resetAt (k ++ [name])) tools t storeAt).on w := by
  unfold beginBy
  refine Action.on_bind_congr rfl ((compileAll_reached inside layout.tree
    (layout.reaches_erase Store.last_mem_sites) hlink).mono (fun digests w₁ h₁ => ?_)
      fun _ _ _ => trivial)
  cases digests with
  | none => rfl
  | some digests =>
    exact Action.on_bind_left (Store.on_reset (canSave_of_touched layout can h₁.1))

theorem on_full_by :
    (full tools t storeAt).on w =
      (fullBy (Store.resetAt (k ++ [name])) (Store.saveAt k name) tools t storeAt).on w := by
  rw [full_eq_fullBy]
  refine Action.on_bind_congr (on_beginBy inside layout hlink can)
    ((beginBy_canSave inside layout hlink can).mono (fun found w₁ h₁ => ?_) fun _ _ _ => trivial)
  cases found with
  | none => rfl
  | some store => exact Action.on_bind_left (Action.on_phase_congr (Store.on_save _ (h₁ _ rfl)))

end Full

/-! ## With a store -/

/-- A workspace that stands is at two of the scratch places, and the places are laid out with it. -/
theorem LaidOut.layout_of_stands {more : List (Path × Location)} (h : LaidOut p more w)
    (placed : Placed w ws a b) (hstands : Stands w a b w₁) :
    ∃ i j, a = p.scratch i ∧ b = p.scratch j ∧
      ws.classpath = p.temporary.push (scratchName i) ∧
      ws.destination = p.temporary.push (scratchName j) ∧
      Layout w₁.disk w₁.cwd (p.sites more [scratchName i, scratchName j]) := by
  obtain ⟨i, hclasspath, hi⟩ := h.eq_scratch placed.classpath placed.classpath_check
    fun k name heq => (hstands.tree.isName k name _ (heq ▸ hstands.classpath)).2
  obtain ⟨j, hdestination, hj⟩ := h.eq_scratch placed.destination placed.destination_check
    fun k name heq => (hstands.tree.isName k name _ (heq ▸ hstands.destination)).2
  have hne : scratchName i ≠ scratchName j := by
    intro heq
    have hapart := placed.apart.1
    rw [hi, hj, Places.scratch, Places.scratch, heq, Location.covers_self] at hapart
    cases hapart
  have hnames : ScratchNames [scratchName i, scratchName j] := ⟨by simpa using hne, by simp⟩
  refine ⟨i, j, hi, hj, hclasspath, hdestination, ?_⟩
  rw [hstands.cwd]
  refine (h.layout _ hnames).of_same hstands.tree fun m hm => .inl ?_
  have ha : a.covers m = false := hi ▸ hm _ (List.mem_map_of_mem (mem_sites_scratch (by simp)))
  have hb : b.covers m = false := hj ▸ hm _ (List.mem_map_of_mem (mem_sites_scratch (by simp)))
  exact hstands.find?_eq ha hb

/-- What a build makes ready is not in the way. -/
theorem canSave_of_prepared {ready : Ready} (laidOut : LaidOut p [] w)
    (can : Store.CanSave p.storeAt p.above p.name w) (h : Prepared w ready w₁) :
    Store.CanSave p.storeAt p.above p.name w₁ := by
  cases ready with
  | nothing => exact can.of_view h
  | rejected => exact can.of_view h
  | pruned s stale => exact can.of_view h
  | compiled ws s stale produced count =>
    obtain ⟨a, b, placed, hstands⟩ := h
    obtain ⟨i, j, ha, hb, -, -, layout⟩ := laidOut.layout_of_stands placed hstands
    have hnot (n : Nat) {top : Location} (htop : top.covers p.above = true) :
        (p.scratch n).covers top = false :=
      Location.Apart.not_covers_above (laidOut.apart_scratch n mem_sites_store) htop
    exact can.of_same (layout.sublist (List.sublist_append_left _ _)) fun top htop =>
      .inl (hstands.find?_eq (ha ▸ hnot i htop) (hb ▸ hnot j htop))

/-- A build that finds a store, with nothing in its way. -/
theorem on_run_by_of_load {storeRoot sourceTree : Path} {store : Store} (inside : tools.StaysInside)
    (laidOut : LaidOut p [] w) (can : Store.CanSave p.storeAt p.above p.name w)
    (hstore : storeFor storeRoot sourceTree w.cwd = p.storeAt)
    (hat : Store.isAt w.disk w.cwd p.storeAt = true)
    (hload : (Store.load p.storeAt).on w = (.ok store, w)) (hproper : HasProperClasses store) :
    (run tools storeRoot output sourceTree).on w =
      (runBy (Store.resetAt p.store) (Store.saveAt p.above p.name) tools p.storeAt output sourceTree
        (some store)).on w := by
  have hfound : Store.isAt w.disk w.cwd p.storeAt = (some store).isSome := hat
  rw [on_run_eq_runFrom hstore hfound (by rintro _ ⟨⟩; exact hload)]
  unfold runFrom runBy
  refine Action.on_bind_congr rfl (locate_quiet.mono (fun t w₁ h₁ => ?_) fun _ _ _ => trivial)
  obtain ⟨rfl, -, -⟩ := h₁
  split_ifs
  · rfl
  obtain ⟨w₂, hlog, hquiet⟩ := @exists_on_log w₁ .debug "all sources"
  refine Action.on_bind_congr rfl ((Action.wp_of_ok hlog).2 ?_)
  have hload₂ : (Store.load p.storeAt).on w₂ = (.ok store, w₂) := by
    obtain ⟨_, hload₂⟩ := (Store.load_blind p.storeAt).answers hquiet.view.symm hload
    obtain ⟨rfl, -⟩ := Store.load_quiet.of_ok hload₂
    exact hload₂
  have hprepare : (prepareFrom tools t store).on w₂ = (prepare tools t p.storeAt).on w₂ :=
    (on_prepare_of_load hload₂).symm
  have hproper' (s : Store) (w' : World) (h : (Store.load p.storeAt).on w₁ = (.ok s, w')) :
      HasProperClasses s := by
    have heq := hload.symm.trans h
    simp only [Prod.mk.injEq, Except.ok.injEq] at heq
    exact heq.1 ▸ hproper
  dsimp only
  rw [Action.on_bind_left hprepare, Action.on_bind_left hprepare]
  refine Action.on_bind_congr rfl (((prepare_prepared inside laidOut.tree hquiet.view hproper').and
    prepare_reported).mono (fun ready w₃ h₃ => ?_) fun _ _ _ => trivial)
  obtain ⟨hprepared, _, table, affected, c, hreadied⟩ := h₃
  refine on_commit_by fun s hs => Store.on_save s ?_
  rw [(hreadied.directory_eq hs).trans c.directory_eq]
  exact canSave_of_prepared laidOut can hprepared

/-- A build that finds no store, with nothing in the way of it. -/
theorem on_run_by_of_not_isAt {storeRoot sourceTree : Path} (inside : tools.StaysInside)
    (layout : Layout w.disk w.cwd (Store.sites storeAt k name ++ [(output.absolute w.cwd, o)]))
    (hlink : ∀ target, w.disk.find? o ≠ some (.link target)) (can : Store.CanSave storeAt k name w)
    (hstore : storeFor storeRoot sourceTree w.cwd = storeAt)
    (hat : Store.isAt w.disk w.cwd storeAt = false) :
    (run tools storeRoot output sourceTree).on w =
      (runBy (Store.resetAt (k ++ [name])) (Store.saveAt k name) tools storeAt output sourceTree
        none).on w := by
  rw [on_run_of_not_isAt hstore hat]
  unfold runFrom runBy
  refine Action.on_bind_congr rfl (locate_quiet.mono (fun t w₁ h₁ => ?_) fun _ _ _ => trivial)
  obtain ⟨rfl, houtput, -⟩ := h₁
  split_ifs
  · rfl
  obtain ⟨w₂, hlog, hquiet⟩ := @exists_on_log w₁ .debug "all sources"
  refine Action.on_bind_congr rfl ((Action.wp_of_ok hlog).2 ?_)
  dsimp only [carryOut]
  refine Action.on_bind_congr rfl ?_
  rw [announceFull, Action.wp_print]
  have can₂ := can.of_view hquiet.view
  rw [← houtput, ← hquiet.disk, ← hquiet.cwd] at layout
  rw [← hquiet.disk] at hlink
  exact on_full_by inside layout hlink (can₂.of_view rfl)

/-! ## The store of `/src` -/

theorem size_beside_sourceKey : (Store.besideName sourceKey).utf8ByteSize ≤ Path.nameLimit := by
  decide

/-- On a disk without links a build of `/src` that finds no store, if the store is to be in one
directory of the root and the output in another. -/
theorem on_run_by_of_ne_link {root out : String} {storeRoot : Path} (inside : tools.StaysInside)
    (tree : w.disk.IsTree) (hlinks : ∀ l target, w.disk.find? l ≠ some (.link target))
    (hcwd : w.cwd = []) (hroot : Path.IsName root ∧ Path.push ⟨"/"⟩ root = storeRoot)
    (hsize : root.utf8ByteSize ≤ Path.nameLimit)
    (hout : Path.IsName out ∧ Path.push ⟨"/"⟩ out = output) (hne : root ≠ out)
    (habsolute : output.absolute [] = output) (hplace : storeRoot.push sourceKey = storeAt)
    (hshort : storeAt.check = .ok () ∧ storeAt.text.utf8ByteSize + 16 ≤ Path.sizeLimit)
    (habove : w.disk.find? [root] = none ∨ w.disk.find? [root] = some .directory)
    (hnone : w.disk.find? [root, sourceKey, "classes.txt"] = none) :
    (run tools storeRoot output ⟨"/src"⟩).on w =
      (runBy (Store.resetAt [root, sourceKey]) (Store.saveAt [root] sourceKey) tools storeAt output
        ⟨"/src"⟩ none).on w := by
  have layout := @layout_push w root sourceKey out tree hlinks hroot.1 isName_sourceKey hout.1 hne
  rw [hroot.2, hplace, hout.2] at layout
  have hstore : storeFor storeRoot ⟨"/src"⟩ w.cwd = storeAt := by rw [hcwd, storeFor_source, hplace]
  have hclasses : "classes.txt" ∈ Store.tableNames := by simp [Store.tableNames]
  have hat := Store.not_isAt_of_none tree (layout.reaches_self Store.mem_sites) (hlinks _) hclasses hnone
  have can := Store.canSave_of_root (layout.sublist (List.sublist_append_left _ _)) habove hsize
    size_beside_sourceKey hshort.1 hshort.2
  have houtput : output = output.absolute w.cwd := by rw [hcwd, habsolute]
  rw [houtput] at layout
  -- on its own first: matched against the goal at once, the places are unfolded letter by letter
  have hrun := on_run_by_of_not_isAt inside layout (hlinks _) can hstore hat
  exact hrun

theorem emptySource_on_run_by {out : String} (inside : tools.StaysInside)
    (hout : Path.IsName out ∧ Path.push ⟨"/"⟩ out = output) (hne : "meta" ≠ out)
    (habsolute : output.absolute [] = output) :
    (run tools ⟨"/meta"⟩ output ⟨"/src"⟩).on emptySource =
      (runBy (Store.resetAt ["meta", sourceKey]) (Store.saveAt ["meta"] sourceKey) tools sourceStore
        output ⟨"/src"⟩ none).on emptySource := by
  have hmeta : Path.IsName "meta" ∧ Path.push ⟨"/"⟩ "meta" = ⟨"/meta"⟩ := by decide
  exact on_run_by_of_ne_link inside emptySource_tree emptySource_ne_link rfl hmeta (by decide) hout hne
    habsolute push_sourceKey sourceStore_short (.inl rfl) rfl

/-- The places of a build of the new source. -/
def newSourcePlaces : Places :=
  ⟨Location.toPath (["meta"] ++ [sourceKey]), Location.toPath ["tmp"], ["meta"], sourceKey, ["tmp"]⟩

namespace HasEmptyStore

variable (h : HasEmptyStore w)
  (htemporary : temporaryFor w.cwd w.environment = Location.toPath ["tmp"])
  (htmp : w.disk.find? ["tmp"] = some .directory)

include h

theorem directory : w.disk.find? ["meta"] = some .directory := by
  obtain ⟨runnable, hfind⟩ := h.empty "classes.txt" (by simp [Store.tableNames])
  exact h.tree.parent ["meta"] _ _ (h.tree.parent _ _ _ hfind)

include htemporary htmp

theorem laidOut : LaidOut newSourcePlaces [] w := by
  have hne := Store.besideName_ne sourceKey
  have hplain (name : String) (hdir : w.disk.find? [name] = some .directory) :
      w.disk.IsPlain [name] := by
    intro top htop target
    rw [h.tree.directory_of_covers hdir htop]
    simp
  refine laidOut_toPath [] h.tree ?_ htemporary (by simp) isProper_sourceStore (by decide) (by simp) ?_
  · simpa using ⟨hplain "meta" h.directory, hplain "tmp" htmp⟩
  · simp [Location.Apart, Location.covers, List.isPrefixOf, hne, hne.symm]

/-- With such a store nothing is in the way of a build. -/
theorem on_run_by (inside : tools.StaysInside) :
    (run tools ⟨"/meta"⟩ output ⟨"/src"⟩).on w =
      (runBy (Store.resetAt ["meta", sourceKey]) (Store.saveAt ["meta"] sourceKey) tools sourceStore
        output ⟨"/src"⟩ (some (.new sourceStore))).on w := by
  have laidOut := h.laidOut htemporary htmp
  have hplace : newSourcePlaces.storeAt = sourceStore := toPath_sourceStore
  have hshort := sourceStore_short
  have hstore := h.storeFor_eq
  have hat := h.isAt
  have hload := h.load
  rw [← hplace] at hshort hstore hat
  have can : Store.CanSave newSourcePlaces.storeAt ["meta"] sourceKey w :=
    Store.canSave_of_root laidOut.store_layout (.inr h.directory) (by decide) size_beside_sourceKey
      hshort.1 hshort.2
  have hrun := @on_run_by_of_load newSourcePlaces w tools output ⟨"/meta"⟩ ⟨"/src"⟩ (.new sourceStore)
    inside laidOut can hstore hat (by rw [hplace]; exact hload)
    fun className hmem => by simp [Store.new] at hmem
  rw [hplace] at hrun
  exact hrun

end HasEmptyStore

end Recompile.Build
