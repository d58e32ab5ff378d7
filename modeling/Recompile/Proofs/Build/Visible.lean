import Recompile.Proofs.Build.Incremental
import Recompile.Proofs.Build.Update
import Recompile.Proofs.Directory.Emptied
import Recompile.Proofs.Path.Absolute
import Recompile.Proofs.Staging.Copied

/-!
# What the compiler is shown

A build with a store shows the compiler a classpath with the class files that stay, as they are in
the output directory, and an empty destination. A build without a store shows it the output directory
after that was cleaned.
-/

namespace Recompile.Build

open Directory Staging World Disk

attribute [local irreducible] Action.wp

variable {tools : Toolchain} {w w₁ w₂ : World} {t : Target} {storeRoot output sourceTree storeAt : Path}

/-! ## Calls -/

/-- Since then the compiler was called only in ways that are allowed. -/
def Compiles (allowed : List String → Path → Path → Disk → Prop) (w w' : World) : Prop :=
  ∃ new, w'.calls = w.calls ++ new ∧ ∀ sources classpath destination before,
    Call.compile sources classpath destination before ∈ new →
      allowed sources classpath destination before

/-- Since then the compiler was not called. -/
def Examines (w w' : World) : Prop :=
  ∃ more, w'.calls = w.calls ++ more ∧ ∀ call ∈ more, ¬ call.IsCompile

variable {allowed : List String → Path → Path → Disk → Prop}

theorem Examines.of_eq (h : w₁.calls = w.calls) : Examines w w₁ := ⟨[], by simpa using h, by simp⟩

theorem Examines.trans (h : Examines w w₁) (h' : Examines w₁ w₂) : Examines w w₂ := by
  obtain ⟨more, hmore, hnone⟩ := h
  obtain ⟨more', hmore', hnone'⟩ := h'
  refine ⟨more ++ more', by rw [hmore', hmore, List.append_assoc], fun call hcall => ?_⟩
  rcases List.mem_append.1 hcall with hold | hnew
  · exact hnone call hold
  · exact hnone' call hnew

theorem Examines.compiles (h : Examines w w₁) : Compiles allowed w w₁ := by
  obtain ⟨more, hmore, hnone⟩ := h
  exact ⟨more, hmore, fun _ _ _ _ hcall => absurd trivial (hnone _ hcall)⟩

theorem Compiles.mono {more : List String → Path → Path → Disk → Prop} (h : Compiles allowed w w₁)
    (himp : ∀ sources classpath destination before, allowed sources classpath destination before →
      more sources classpath destination before) : Compiles more w w₁ := by
  obtain ⟨new, hnew, hall⟩ := h
  exact ⟨new, hnew, fun _ _ _ _ hcall => himp _ _ _ _ (hall _ _ _ _ hcall)⟩

theorem Compiles.trans (h : Compiles allowed w w₁) (h' : Compiles allowed w₁ w₂) :
    Compiles allowed w w₂ := by
  obtain ⟨new, hnew, hall⟩ := h
  obtain ⟨new', hnew', hall'⟩ := h'
  refine ⟨new ++ new', by rw [hnew', hnew, List.append_assoc], fun _ _ _ _ hcall => ?_⟩
  rcases List.mem_append.1 hcall with hold | hlast
  · exact hall _ _ _ _ hold
  · exact hall' _ _ _ _ hlast

section Full

variable (record : tools.LeavesRecord)
include record

theorem wp_recordAll_calls (t : Target) (digests : Table) (storeAt : Path) :
    (recordAll tools t digests storeAt).wp w (fun _ => Examines w) fun _ => Examines w := by
  unfold recordAll
  rw [Action.wp_bind]
  refine (wp_blind_calls (Store.reset_blind storeAt)).mono (fun _ w₁ h₁ => ?_) fun _ _ h => .of_eq h
  rw [Action.wp_bind]
  refine (wp_recordClasses_calls record _ _ _ _).mono (fun recorded w₂ h₂ => ?_)
    fun _ w₂ h₂ => (Examines.of_eq h₁).trans h₂
  have hexamined : Examines w w₂ := (Examines.of_eq h₁).trans h₂
  exact (wp_blind_calls (recorded.1.save_blind.phase _)).mono
    (fun _ _ h => hexamined.trans (.of_eq h)) fun _ _ h => hexamined.trans (.of_eq h)

/-- A build without a store compiles all sources into the output directory, as cleaning has left it. -/
def CompilesAll (t : Target) (left : Disk → Prop) (sources : List String)
    (classpath destination : Path) (before : Disk) : Prop :=
  sources = t.sources.toList ∧ classpath = t.output ∧ destination = t.output ∧ left before

theorem full_calls (left : Disk → Prop)
    (hleft : (Directory.clean t.output).wp w (fun _ w' => left w'.disk) fun _ _ => True) :
    (full tools t storeAt).wp w (fun _ => Compiles (CompilesAll t left) w)
      fun _ => Compiles (CompilesAll t left) w := by
  have hcompile : (compileAll tools t).wp w (fun _ => Compiles (CompilesAll t left) w)
      fun _ => Compiles (CompilesAll t left) w := by
    unfold compileAll
    rw [Action.wp_bind]
    refine ((wp_blind_calls (Directory.clean_blind t.output)).and hleft).mono
      (fun _ w₁ h₁ => ?_) fun _ _ h => (Examines.of_eq h.1).compiles
    obtain ⟨hcalls₁, hshown⟩ := h₁
    rw [Action.wp_bind, Action.wp_phase]
    refine (Changes.detect_reads t.sources ∅).mono (fun changes w₂ h₂ => ?_) fun _ w₂ h₂ => ?_
    · have hquiet := h₂.1.trans (quiet_traced w₂ "detect")
      rw [Action.wp_bind]
      have hcalled (w₃ : World) (h : w₃.calls = (w₂.traced "detect").calls ++
          [.compile t.sources.toList t.output t.output (w₂.traced "detect").disk]) :
          Compiles (CompilesAll t left) w w₃ := by
        refine ⟨_, h.trans (congrArg (· ++ _) (hquiet.calls.trans hcalls₁)), ?_⟩
        rintro sources classpath destination before hcall
        obtain ⟨rfl, rfl, rfl, rfl⟩ := by simpa using hcall
        rw [hquiet.disk]
        exact ⟨rfl, rfl, rfl, hshown⟩
      refine (wp_compile_calls record _ _ _).mono (fun accepted w₃ h₃ => ?_) fun _ w₃ h₃ => hcalled w₃ h₃
      cases accepted with
      | false => exact (Action.wp_pure _).2 (hcalled w₃ h₃)
      | true => exact (Action.wp_pure _).2 (hcalled w₃ h₃)
    · rw [h₂.1]
      exact (Examines.of_eq hcalls₁).compiles
  unfold full
  rw [Action.wp_bind]
  refine hcompile.mono (fun digests w₁ h₁ => ?_) fun _ _ h => h
  cases digests with
  | none => exact (Action.wp_pure _).2 h₁
  | some digests =>
    rw [Action.wp_bind]
    refine (wp_recordAll_calls record t digests storeAt).mono (fun _ w₂ h₂ => ?_)
      fun _ w₂ h₂ => h₁.trans h₂.compiles
    rw [log, Action.wp_bind, Action.wp_log]
    exact (Action.wp_pure _).2 (h₁.trans h₂.compiles)

/-- A build without a store shows the compiler the output directory, which was cleaned before. -/
def ShowsEmptied (w : World) (output : Path) (_ : List String) (classpath destination : Path)
    (before : Disk) : Prop :=
  classpath = output ∧ destination = output ∧ Directory.Emptied w output before

theorem full_compiles (tree : w.disk.IsTree) {l : Location} (hl : l.IsProper)
    (hout : t.output = l.toPath) :
    (full tools t storeAt).wp w (fun _ => Compiles (ShowsEmptied w t.output) w)
      fun _ => Compiles (ShowsEmptied w t.output) w := by
  have hemptied := Directory.clean_emptied tree hl
  rw [← hout] at hemptied
  exact (full_calls record _ hemptied).mono (fun _ _ h => h.mono fun _ _ _ _ hall => hall.2)
    fun _ _ h => h.mono fun _ _ _ _ hall => hall.2

end Full

/-! ## Builds with a store -/

/-- A class that the store knows, whose source is neither to be compiled nor deleted. -/
def StaysCurrent (store : Store) (p : Plan) (deleted : Names) (className : String) : Prop :=
  ∃ source, store.classes[className]? = some source ∧ source ∉ p.recompile ∧ source ∉ deleted

theorem mem_unaffected (store : Store) (changes : Changes) (affected : Names) (className : String) :
    className ∈ unaffected store (plan store changes affected) ↔
      StaysCurrent store (plan store changes affected) changes.deleted className := by
  unfold unaffected StaysCurrent
  simp only [List.mem_filter, Std.ExtTreeMap.mem_keys, Bool.not_eq_true',
    Names.contains_eq_false_iff, mem_stale_plan, Table.mem_iff_exists_getElem?]
  constructor
  · rintro ⟨⟨source, hsource⟩, hnot⟩
    refine ⟨source, hsource, fun h => hnot ⟨source, hsource, .inl h⟩, fun h => ?_⟩
    exact hnot ⟨source, hsource, .inr h⟩
  · rintro ⟨source, hsource, hrecompile, hdeleted⟩
    refine ⟨⟨source, hsource⟩, ?_⟩
    rintro ⟨source', hsource', h⟩
    obtain rfl : source = source' := by simpa [hsource] using hsource'
    exact h.elim hrecompile hdeleted

theorem nodup_unaffected (store : Store) (p : Plan) : (unaffected store p).Nodup :=
  store.classes.nodup_keys.filter _

/-- The classpath at `a` holds the files of the classes that stay and no others. The destination at
`b` is another place, and nothing is in it. Neither of them was there before. -/
structure ShowsStaged (w : World) (output : Path) (stays : String → Prop) (a b : Location)
    (classpath destination : Path) (before : Disk) : Prop where
  classpath_eq : before.resolve w.cwd true classpath = .ok a
  destination_eq : before.resolve w.cwd true destination = .ok b
  /-- Every file has the bytes that it has in the output directory. -/
  files : ∀ names bytes, before.fileAt (a ++ names) = some bytes ↔
    ∃ className, stays className ∧ names = ClassName.artifactNames className ∧
      before.readFile w.cwd (output.join (ClassName.artifact className)) = .ok bytes
  /-- None was missing from the output directory, unless a link there leads to what is new. -/
  complete : ∀ className, stays className → ∃ bytes,
    before.readFile w.cwd (output.join (ClassName.artifact className)) = .ok bytes ∧
      (w.disk.readFile w.cwd (output.join (ClassName.artifact className)) = .ok bytes ∨
        w.disk.resolve w.cwd true (output.join (ClassName.artifact className)) ≠
          before.resolve w.cwd true (output.join (ClassName.artifact className)))
  hidden : ∀ className, ¬ stays className →
    before.fileAt (a ++ ClassName.artifactNames className) = none
  empty : before.readDirectory w.cwd destination = .ok []
  apart : Location.Apart a b
  fresh : w.disk.find? a = none ∧ w.disk.find? b = none

theorem showsStaged_of_staged {classes : List String} {ws : Workspace} {a b : Location} {d : Disk}
    {stays : String → Prop} (tree : w.disk.IsTree) (hstays : ∀ className, className ∈ classes ↔ stays className)
    (h : Staged w output classes ws a b d) :
    ShowsStaged w output stays a b ws.classpath ws.destination d where
  classpath_eq := h.classpath
  destination_eq := h.destination
  files names bytes := by
    constructor
    · intro hbytes
      obtain ⟨className, hmem, rfl⟩ := h.mirrors.only names (by simp [hbytes])
      obtain ⟨bytes', hread, hbytes'⟩ := h.mirrors.file className hmem
      obtain rfl : bytes = bytes' := by simpa [hbytes] using hbytes'
      exact ⟨className, (hstays _).1 hmem, rfl, hread⟩
    · rintro ⟨className, hclass, rfl, hread⟩
      obtain ⟨bytes', hread', hbytes'⟩ := h.mirrors.file className ((hstays _).2 hclass)
      obtain rfl : bytes = bytes' := by simpa [hread] using hread'
      exact hbytes'
  complete className hclass := by
    obtain ⟨bytes, hread, -⟩ := h.mirrors.file className ((hstays _).2 hclass)
    exact ⟨bytes, hread, h.readFile_before tree hread⟩
  hidden className hclass := by
    by_contra hsome
    obtain ⟨other, hother, hnames⟩ := h.mirrors.only _ (Option.isSome_iff_ne_none.2 hsome)
    rw [ClassName.artifactNames_injective hnames] at hclass
    exact hclass ((hstays _).1 hother)
  empty := readDirectory_eq_ok_iff.2 ⟨b, h.destination, h.directories.2, h.empty.symm⟩
  apart := h.apart
  fresh := h.absent

/-- A build with a store shows the compiler what it has staged. -/
def ShowsCurrent (w : World) (t : Target) (storeAt : Path) (sources : List String)
    (classpath destination : Path) (before : Disk) : Prop :=
  ∃ store table affected, Compared t storeAt w store table affected ∧
    let changes := Changes.between table store.sources
    let p := plan store changes affected
    sources = p.recompile.toList ∧ ∃ a b, ShowsStaged w t.output
      (StaysCurrent store p changes.deleted) a b classpath destination before

theorem Called.sources_eq {store : Store} {p : Plan} {new : List Call}
    (h : Called output store p w new) {sources : List String} {classpath destination : Path}
    {before : Disk} (hcall : .compile sources classpath destination before ∈ new) :
    sources = p.recompile.toList := by
  by_cases hempty : p.recompile.isEmpty
  · rw [h.none_of_empty hempty] at hcall
    cases hcall
  have hstaged := h.staged hempty
  split at hstaged
  · rw [hstaged] at hcall
    cases hcall
  · obtain ⟨more, hnone, rfl⟩ := hstaged
    rcases List.mem_cons.1 hcall with heq | hmore
    · cases heq
      rfl
    · exact absurd trivial (hnone _ hmore)

theorem Called.shows {store : Store} {table : Table} {affected : Names} {new : List Call}
    (tree : w.disk.IsTree) (hproper : HasProperClasses store)
    (c : Compared t storeAt w store table affected) (h : Called t.output store c.plan w new)
    {sources : List String} {classpath destination : Path} {before : Disk}
    (hcall : .compile sources classpath destination before ∈ new) :
    ShowsCurrent w t storeAt sources classpath destination before := by
  by_cases hempty : c.plan.recompile.isEmpty
  · rw [h.none_of_empty hempty] at hcall
    cases hcall
  have hstaged := h.staged hempty
  split at hstaged
  · rw [hstaged] at hcall
    cases hcall
  next ws w₂ hon =>
    obtain ⟨more, hnone, rfl⟩ := hstaged
    rcases List.mem_cons.1 hcall with heq | hmore
    · cases heq
      have hclasses : ∀ className ∈ unaffected store c.plan, ClassName.IsProper className := by
        intro className hmem
        obtain ⟨source, hsource, -⟩ := (mem_unaffected store _ affected className).1 hmem
        exact hproper className ((Table.mem_iff_exists_getElem? _ _).2 ⟨source, hsource⟩)
      obtain ⟨-, a, b, staged⟩ :=
        (stage_staged tree t.output (nodup_unaffected store c.plan) hclasses).of_ok hon
      exact ⟨store, table, affected, c, rfl, a, b,
        showsStaged_of_staged tree (mem_unaffected store _ affected) staged⟩
    · exact absurd trivial (hnone _ hmore)

/-- A build with a store calls the compiler as what it has loaded and compared tells. -/
def CallsPlanned (w : World) (t : Target) (storeAt : Path) (sources : List String)
    (classpath destination : Path) (before : Disk) : Prop :=
  ∃ store table affected, ∃ c : Compared t storeAt w store table affected,
    ∃ new, Called t.output store c.plan w new ∧ .compile sources classpath destination before ∈ new

theorem incremental_planned (record : tools.LeavesRecord) :
    (incremental tools t storeAt).wp w (fun _ => Compiles (CallsPlanned w t storeAt) w)
      fun _ => Compiles (CallsPlanned w t storeAt) w := by
  by_cases hcompared : ∃ store table affected, Compared t storeAt w store table affected
  · obtain ⟨store, table, affected, c⟩ := hcompared
    have hplanned (w' : World)
        (h : ∃ new, w'.calls = w.calls ++ new ∧ Called t.output store c.plan w new) :
        Compiles (CallsPlanned w t storeAt) w w' := by
      obtain ⟨new, hnew, called⟩ := h
      exact ⟨new, hnew, fun _ _ _ _ hcall => ⟨store, table, affected, c, new, called, hcall⟩⟩
    exact (incremental_calls record c).mono (fun _ w' h => hplanned w' h.1) fun _ w' => hplanned w'
  · -- the build fails before it calls a tool
    simp only [not_exists] at hcompared
    unfold incremental
    rw [Action.wp_bind]
    exact prepare_wp (fun _ _ hquiet _ => (Examines.of_eq hquiet.calls).compiles)
      (fun _ _ _ c => absurd c (hcompared _ _ _)) (fun _ _ _ c => absurd c (hcompared _ _ _))
      fun _ _ _ c => absurd c (hcompared _ _ _)

theorem incremental_compiles (record : tools.LeavesRecord) (tree : w.disk.IsTree)
    (hproper : ∀ store w', (Store.load storeAt).on w = (.ok store, w') → HasProperClasses store) :
    (incremental tools t storeAt).wp w (fun _ => Compiles (ShowsCurrent w t storeAt) w)
      fun _ => Compiles (ShowsCurrent w t storeAt) w := by
  have hshows (sources : List String) (classpath destination : Path) (before : Disk)
      (h : CallsPlanned w t storeAt sources classpath destination before) :
      ShowsCurrent w t storeAt sources classpath destination before := by
    obtain ⟨store, table, affected, c, new, called, hcall⟩ := h
    exact called.shows tree (hproper store w c.load) c hcall
  exact (incremental_planned record).mono (fun _ _ h => h.mono hshows) fun _ _ h => h.mono hshows

theorem ShowsCurrent.of_quiet (hquiet : w.Quiet w₁) {sources : List String}
    {classpath destination : Path} {before : Disk}
    (h : ShowsCurrent w₁ t storeAt sources classpath destination before) :
    ShowsCurrent w t storeAt sources classpath destination before := by
  obtain ⟨store, table, affected, c, hsources, a, b, shown⟩ := h
  refine ⟨store, table, affected, c.of_quiet hquiet, hsources, a, b, ?_⟩
  obtain ⟨hcp, hdest, hfiles, hcomplete, hhidden, hempty, hapart, hfresh⟩ := shown
  rw [hquiet.cwd] at hcp hdest hfiles hcomplete hempty
  rw [hquiet.disk] at hcomplete hfresh
  exact ⟨hcp, hdest, hfiles, hcomplete, hhidden, hempty, hapart, hfresh⟩

theorem Compiles.of_quiet {allowed₁ : List String → Path → Path → Disk → Prop} (hquiet : w.Quiet w₁)
    (himp : ∀ sources classpath destination before,
      allowed₁ sources classpath destination before → allowed sources classpath destination before)
    (h : Compiles allowed₁ w₁ w₂) : Compiles allowed w w₂ :=
  (Examines.of_eq hquiet.calls).compiles.trans (h.mono himp)

theorem absolute_proper (tree : w.disk.IsTree) (p : Path) :
    (Action.absolute p).wp w (fun q _ => ∃ l : Location, l.IsProper ∧ q = l.toPath)
      fun _ _ => True := by
  unfold Action.absolute
  simp only [Action.wp_bind, Action.wp_get]
  split_ifs with habsolute
  · rw [Action.wp_bind, Action.wp_query]
    cases hcheck : w.disk.checkDirectory w.cwd with
    | error fault => trivial
    | ok u =>
      refine (Action.wp_pure _).2 ⟨_, Path.isProper_location fun _ name hname => ?_, rfl⟩
      exact tree.isName_of_mem (l := []) (checkDirectory_eq_ok_iff.1 hcheck) hname
  · refine (Action.wp_pure _).2 ⟨_, Path.isProper_location fun h => ?_, rfl⟩
    simp [h] at habsolute

theorem locate_proper (tree : w.disk.IsTree) :
    (locate output sourceTree).wp w (fun t _ => ∃ l : Location, l.IsProper ∧ t.output = l.toPath)
      fun _ _ => True := by
  unfold locate
  simp only [Action.wp_bind, Action.wp_within, Action.wp_pure]
  refine (absolute_proper tree output).mono (fun q w₁ h => ?_) fun _ _ _ => trivial
  refine Action.wp_of_forall (fun _ w₂ => ?_) fun _ _ => trivial
  exact Action.wp_of_forall (fun _ _ => h) fun _ _ => trivial

/-- What a build shows the compiler: with a store for the source tree the staged class files and an
empty destination, and without one the output directory after it was cleaned. -/
def Shows (storeRoot output sourceTree : Path) (w : World) (sources : List String)
    (classpath destination : Path) (before : Disk) : Prop :=
  (Store.isAt w.disk w.cwd (storeFor storeRoot sourceTree w.cwd) = true →
    ∃ t, (locate output sourceTree).on w = (.ok t, w) ∧ t.output = output.absolute w.cwd ∧
      ShowsCurrent w t (storeFor storeRoot sourceTree w.cwd) sources classpath destination before) ∧
  (Store.isAt w.disk w.cwd (storeFor storeRoot sourceTree w.cwd) = false →
    ShowsEmptied w (output.absolute w.cwd) sources classpath destination before)

section Shows

variable (record : tools.LeavesRecord) (tree : w.disk.IsTree)
  (hquiet : w.Quiet w₁) (hlocate : (locate output sourceTree).on w = (.ok t, w))
include record tree hquiet hlocate

theorem full_shows
    (hat : Store.isAt w.disk w.cwd (storeFor storeRoot sourceTree w.cwd) = false) :
    (full tools t storeAt).wp w₁ (fun _ => Compiles (Shows storeRoot output sourceTree w) w)
      fun _ => Compiles (Shows storeRoot output sourceTree w) w := by
  obtain ⟨l, hl, hout⟩ := (locate_proper tree).of_ok hlocate
  have houtput := (locate_quiet.of_ok hlocate).2.1
  have hallowed (sources : List String) (classpath destination : Path) (before : Disk)
      (h : ShowsEmptied w₁ t.output sources classpath destination before) :
      Shows storeRoot output sourceTree w sources classpath destination before := by
    obtain ⟨hcp, hdest, hemptied⟩ := h
    rw [houtput] at hcp hdest hemptied
    refine ⟨fun hat' => ?_, fun _ => ⟨hcp, hdest, hemptied.of_quiet hquiet⟩⟩
    rw [hat] at hat'
    cases hat'
  exact (full_compiles record (hquiet.disk ▸ tree) hl hout).mono
    (fun _ _ h => h.of_quiet hquiet hallowed) fun _ _ h => h.of_quiet hquiet hallowed

theorem incremental_shows
    (hat : Store.isAt w.disk w.cwd (storeFor storeRoot sourceTree w.cwd) = true)
    (hproper : ∀ store w', (Store.load (storeFor storeRoot sourceTree w.cwd)).on w =
      (.ok store, w') → HasProperClasses store) :
    (incremental tools t (storeFor storeRoot sourceTree w.cwd)).wp w₁
      (fun _ => Compiles (Shows storeRoot output sourceTree w) w)
      fun _ => Compiles (Shows storeRoot output sourceTree w) w := by
  have houtput := (locate_quiet.of_ok hlocate).2.1
  generalize hstore : storeFor storeRoot sourceTree w.cwd = storeAt at hat hproper ⊢
  have hallowed (sources : List String) (classpath destination : Path) (before : Disk)
      (h : ShowsCurrent w₁ t storeAt sources classpath destination before) :
      Shows storeRoot output sourceTree w sources classpath destination before := by
    unfold Shows
    rw [hstore]
    refine ⟨fun _ => ⟨t, hlocate, houtput, h.of_quiet hquiet⟩, fun hnot => ?_⟩
    rw [hat] at hnot
    cases hnot
  refine (incremental_compiles record (hquiet.disk ▸ tree) fun store w₂ hload => ?_).mono
    (fun _ _ h => h.of_quiet hquiet hallowed) fun _ _ h => h.of_quiet hquiet hallowed
  obtain ⟨w₃, hload'⟩ := (Store.load_blind storeAt).answers hquiet.view hload
  exact hproper store w₃ hload'

end Shows

/-- What the compiler is shown, whenever a build calls it. With a store that is exactly what stays of
the class files. Without one it is the output directory with nothing in it, which is there if and only
if its path does not go through a link in the directory itself. -/
theorem compiler_shown {result : Except Failure Outcome} {w' : World} (record : tools.LeavesRecord)
    (tree : w.disk.IsTree)
    (hproper : ∀ store w', (Store.load (storeFor storeRoot sourceTree w.cwd)).on w =
      (.ok store, w') → HasProperClasses store)
    (hrun : (run tools storeRoot output sourceTree).on w = (result, w')) :
    ∃ new, w'.calls = w.calls ++ new ∧ ∀ sources classpath destination before,
      .compile sources classpath destination before ∈ new →
        Shows storeRoot output sourceTree w sources classpath destination before := by
  have hspec : (run tools storeRoot output sourceTree).wp w
      (fun _ => Compiles (Shows storeRoot output sourceTree w) w)
      fun _ => Compiles (Shows storeRoot output sourceTree w) w := by
    refine run_wp (fun f => (Examines.of_eq rfl).compiles)
      (fun t _ _ w₁ hquiet => (Examines.of_eq hquiet.calls).compiles)
      (fun t hlocate _ hat w₁ hquiet => full_shows record tree hquiet hlocate hat)
      fun t hlocate hat w₁ hquiet => ?_
    have hincremental := incremental_shows record tree hquiet hlocate hat hproper
    unfold incremental at hincremental
    rwa [Action.wp_bind] at hincremental
  cases result with
  | ok outcome => exact hspec.of_ok hrun
  | error f => exact hspec.of_error hrun

theorem rejecting_leavesRecord : rejecting.LeavesRecord where
  compile _ _ _ _ := rfl
  examine _ _ := rfl

theorem compiler_shown_newSource :
    ∃ w' sources classpath destination before,
      (run rejecting ⟨"/meta"⟩ ⟨"/out"⟩ ⟨"/src"⟩).on newSource = (.ok .compileFailed, w') ∧
      .compile sources classpath destination before ∈ w'.calls ∧
      Shows ⟨"/meta"⟩ ⟨"/out"⟩ ⟨"/src"⟩ newSource sources classpath destination before := by
  have hrejected := newSource_rejected
  rcases hrun : (run rejecting ⟨"/meta"⟩ ⟨"/out"⟩ ⟨"/src"⟩).on newSource with ⟨f | outcome, w'⟩
  · rw [hrun] at hrejected
    cases hrejected
  simp only [hrun, Bool.and_eq_true, beq_iff_eq, Bool.not_eq_true',
    List.isEmpty_eq_false_iff] at hrejected
  obtain ⟨rfl, hcalls⟩ := hrejected
  obtain ⟨new, hnew, hall⟩ := compiler_shown rejecting_leavesRecord newSource_tree
    (fun _ _ => newSource_hasProperClasses) hrun
  have hfirst := (run_replays rejecting_keepsRecord ⟨"/meta"⟩ ⟨"/out"⟩ ⟨"/src"⟩).calls_eq_or newSource
  rw [hrun] at hfirst
  obtain ⟨call, hfirst, hcall⟩ := hfirst.resolve_left hcalls
  cases call with
  | examine => exact hfirst.elim
  | compile sources classpath destination before =>
    have hmem := hcall.subset (List.mem_append_right newSource.calls List.mem_cons_self)
    refine ⟨w', sources, classpath, destination, before, rfl, hmem, hall _ _ _ _ ?_⟩
    rwa [hnew] at hmem

end Recompile.Build
