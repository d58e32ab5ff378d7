import Recompile.Proofs.Build.Change
import Recompile.Proofs.Build.Contained
import Recompile.Proofs.Build.Speaks
import Recompile.Proofs.Directory.Exact

/-!
# What a build is told

With tools that speak a language, what a build is told is what the language says. In a directory that
holds the class files of some sources the examiner reports exactly the facts of these. With a store
the compiler is asked about the sources to compile and the classes that stay, and without one about
all sources.
-/

namespace Recompile

open Directory Disk Staging World

theorem exists_of_forall₂ {α β : Type} {R : α → β → Prop} {as : List α} {bs : List β} {a : α}
    (h : List.Forall₂ R as bs) (ha : a ∈ as) : ∃ b ∈ bs, R a b := by
  induction h with
  | nil => cases ha
  | cons hrel _ ih =>
    rcases List.mem_cons.1 ha with rfl | hrest
    · exact ⟨_, List.mem_cons_self, hrel⟩
    · obtain ⟨b, hb, hab⟩ := ih hrest
      exact ⟨b, List.mem_cons_of_mem _ hb, hab⟩

theorem ClassName.IsProper.extension_join {className : String} (h : ClassName.IsProper className)
    (directory : Path) :
    (directory.join (ClassName.artifact className)).extension = some "class" := by
  have hlast : (Text.fields '.' className).getLastD "" ∈ Text.fields '.' className := by
    rw [List.getLastD_eq_getLast?, List.getLast?_eq_some_getLast (Text.fields_ne_nil _ _)]
    exact List.getLast_mem _
  have hname := h.isName_artifactNames (List.mem_append_right _ (List.mem_singleton_self _))
  rw [h.join_artifact, ClassName.artifactNames, List.foldl_append, List.foldl_cons, List.foldl_nil,
    Path.extension_push hname, Path.splitExtension_eq_some_iff]
  exact ⟨_, (h _ hlast).1, rfl, by decide⟩

namespace Staging

attribute [local irreducible] Action.wp

/-- The file of each class that was copied had a path that is not too long. -/
theorem copyClassFiles_checks (source target : Path) (classes : List String) {w : World} :
    (copyClassFiles source target classes).wp w
      (fun _ _ => ∀ className ∈ classes, (target.join (ClassName.artifact className)).check = .ok ())
      fun _ _ => True := by
  have hcopy (className : String) (w : World) :
      (copyFile (source.join (ClassName.artifact className))
        (target.join (ClassName.artifact className))).wp w
        (fun _ _ => (target.join (ClassName.artifact className)).check = .ok ()) fun _ _ => True := by
    unfold copyFile
    simp only [Action.wp_bind]
    refine Action.wp_of_forall (fun e w₁ => ?_) fun _ _ => trivial
    cases e with
    | directory => exact (Action.wp_failed _).2 trivial
    | link => exact (Action.wp_failed _).2 trivial
    | file bytes runnable =>
      simp only [Action.wp_bind, Action.wp_query]
      cases w₁.disk.resolve w₁.cwd true (source.join (ClassName.artifact className)) with
      | error fault => trivial
      | ok place =>
        dsimp only
        cases hcreate : w₁.disk.createFile w₁.cwd (target.join (ClassName.artifact className)) with
        | error fault => trivial
        | ok created =>
          obtain ⟨k, name, hslot⟩ := slot_of_createFile hcreate
          unfold Disk.slot at hslot
          rw [Except.bind_eq_ok_iff] at hslot
          obtain ⟨_, hcheck, -⟩ := hslot
          exact (Action.wp_modify _).2 hcheck
  unfold copyClassFiles
  refine Action.wp_forM_prefix (I := fun done _ => ∀ className ∈ done,
    (target.join (ClassName.artifact className)).check = .ok ())
    (fun done className rest _ w₁ h₁ => ?_) (by simp)
  have hdone (w₂ : World) : (copyFile (source.join (ClassName.artifact className))
      (target.join (ClassName.artifact className))).wp w₂
      (fun _ _ => ∀ other ∈ done ++ [className],
        (target.join (ClassName.artifact other)).check = .ok ()) fun _ _ => True :=
    (hcopy className w₂).mono (fun _ _ h => List.forall_mem_append.2
      ⟨h₁, List.forall_mem_singleton.2 h⟩) fun _ _ _ => trivial
  simp only [List.forM]
  rw [Action.wp_bind, Action.wp_bind, Action.wp_log]
  generalize (⟨.debug, "incjc::stage", "copying class"⟩ : Log.Event) = event
  generalize (target.join (ClassName.artifact className)).parent = parent
  cases parent with
  | none =>
    rw [Action.wp_within]
    exact (hdone _).mono (fun _ _ h => (Action.wp_pure _).2 h) fun _ _ => id
  | some above =>
    rw [Action.wp_bind]
    refine Action.wp_of_forall (fun _ w₂ => ?_) fun _ _ => trivial
    rw [Action.wp_within]
    exact (hdone w₂).mono (fun _ _ h => (Action.wp_pure _).2 h) fun _ _ => id

end Staging

/-- In an empty directory no class has a file. -/
theorem Directory.HoldsOnly.not_isFile {d : Disk} {cwd l : Location} {directory : Path} {className : String}
    (h : HoldsOnly d l []) (tree : d.IsTree) (hreach : d.Reaches cwd directory l)
    (hclass : ClassName.IsProper className) :
    ¬d.isFile cwd (directory.join (ClassName.artifact className)) = true := by
  have hnone (m : Location) (hm : l.covers m = true) (hne : m ≠ l) : d.find? m = none :=
    h.none_below tree hm hne
  have hlinks (m : Location) (hm : l.covers m = true) (target : Path) :
      d.find? m ≠ some (.link target) := by
    by_cases heq : m = l
    · simp [heq, h.1]
    · simp [hnone m hm heq]
  have hfile := hreach.foldl_push (fun _ hmem => hclass.isName_artifactNames hmem) hlinks
  have hcovers := Location.covers_append l (ClassName.artifactNames className)
  rw [hclass.join_artifact, hfile.isFile_iff tree (hlinks _ hcovers)]
  rintro ⟨-, bytes, runnable, hfind⟩
  rw [hnone _ hcovers (by simp [ClassName.artifactNames])] at hfind
  cases hfind

namespace SourceLanguage.HoldsClasses

variable {g : SourceLanguage} {c : Contents} {l cwd : Location} {d : Disk} {directory file : Path}
  {source className : String} {content bytes : ByteArray}

/-- In a directory with the class files of the sources these are found and no others. -/
theorem finds_iff (h : g.HoldsClasses c l d)
    (hproper : ∀ className, g.Declared c className → ClassName.IsProper className) :
    Finds d l directory "class" [] file ↔
      ∃ className, g.Declared c className ∧ file = directory.join (ClassName.artifact className) := by
  constructor
  · rintro ⟨names, bytes, runnable, -, hfind, rfl, -⟩
    obtain ⟨source, content, className, hcontent, hmem, rfl, -⟩ :=
      (h _ _).1 (fileAt_eq_some_iff.2 ⟨runnable, hfind⟩)
    have hdeclared : g.Declared c className := ⟨source, content, hcontent, hmem⟩
    exact ⟨className, hdeclared, ((hproper className hdeclared).join_artifact directory).symm⟩
  · rintro ⟨className, ⟨source, content, hcontent, hmem⟩, hfile⟩
    rw [hfile]
    have hclass := hproper className ⟨source, content, hcontent, hmem⟩
    obtain ⟨runnable, hfind⟩ := fileAt_eq_some_iff.1
      ((h _ _).2 ⟨source, content, className, hcontent, hmem, rfl, rfl⟩)
    refine ⟨ClassName.artifactNames className, g.classFile source content className, runnable,
      by simp [ClassName.artifactNames], ?_, ?_, hclass.extension_join directory⟩
    · rw [List.nil_append]
      exact hfind
    · rw [List.nil_append]
      exact hclass.join_artifact directory

/-- Whoever reads the file of a class reads what was written for it. -/
theorem eq_of_readFile (h : g.HoldsClasses c l d) (tree : d.IsTree) (hleads : Leads d cwd directory l)
    (hclass : ClassName.IsProper className) (hcontent : c source = some content)
    (hmem : className ∈ (g.read source content).declares)
    (hread : d.readFile cwd (directory.join (ClassName.artifact className)) = .ok bytes) :
    bytes = g.classFile source content className := by
  obtain ⟨runnable, hfind⟩ := fileAt_eq_some_iff.1
    ((h _ _).2 ⟨source, content, className, hcontent, hmem, rfl, rfl⟩)
  have hreach := hleads.reaches_of_find? tree (by simp [ClassName.artifactNames]) hfind
  rw [hclass.join_artifact, hreach.readFile_eq_ok_iff tree (by simp [hfind]), hfind] at hread
  obtain ⟨-, runnable', heq⟩ := hread
  cases heq
  rfl

end SourceLanguage.HoldsClasses

namespace Build

attribute [local irreducible] Action.wp scratchName

variable {g : SourceLanguage} {tools : Toolchain} {c : Contents} {p : Places} {w w₁ : World} {t : Target}
  {l a b out : Location} {ws : Workspace} {output storeAt : Path} {className : String}

/-! ## The tools -/

/-- The examiner reports the facts of the class files in a directory, and changes nothing. -/
theorem recordClasses_told (speaks : tools.Speaks g) (tree : w.disk.IsTree) {directory : Path}
    (hleads : Leads w.disk w.cwd directory l) (holds : g.HoldsClasses c l w.disk)
    (hproper : ∀ className, g.Declared c className → ClassName.IsProper className) (store : Store)
    (sourceTree : Path) (digests : Table) :
    (recordClasses tools store sourceTree digests directory).wp w
      (fun recorded w' => w'.view = w.view ∧ (∀ fact, fact ∈ recorded.2 ↔ g.IsFact c fact) ∧
        recorded.1 = (store.addSources digests).record sourceTree recorded.2)
      fun _ _ => True := by
  unfold recordClasses findClassFiles
  simp only [Action.wp_bind, Action.wp_within, Action.wp_phase, Toolchain.wp_runExaminer,
    Action.wp_logAll, Action.wp_pure]
  refine (findFiles_lists tree (lists_of_leads tree hleads) hleads.directory).mono
    (fun files w₁ h₁ => ?_) fun _ _ _ => trivial
  obtain ⟨rfl, -, hfiles⟩ := h₁
  have hfound (file : Path) : file ∈ Path.sorted files ↔ ∃ className, g.Declared c className ∧
      file = directory.join (ClassName.artifact className) :=
    List.mem_mergeSort.trans ((hfiles file).trans (holds.finds_iff hproper))
  refine (speaks.examines _ _).mono (fun facts w₂ h₂ => ⟨h₂.1.view, fun fact => ?_, trivial⟩)
    fun _ _ _ => trivial
  obtain ⟨-, htold⟩ := h₂
  constructor
  · intro hfact
    obtain ⟨file, hfile, bytes, hread, rfl⟩ := exists_of_forall₂ htold.flip hfact
    obtain ⟨className, ⟨source, content, hcontent, hmem⟩, heq⟩ := (hfound file).1 hfile
    rw [heq] at hread
    have hclass := hproper className ⟨source, content, hcontent, hmem⟩
    rw [holds.eq_of_readFile tree hleads hclass hcontent hmem hread]
    exact ⟨source, content, className, hcontent, hmem, rfl⟩
  · rintro ⟨source, content, className, hcontent, hmem, rfl⟩
    have hdeclared : g.Declared c className := ⟨source, content, hcontent, hmem⟩
    obtain ⟨fact, hfact, bytes, hread, rfl⟩ :=
      exists_of_forall₂ htold ((hfound _).2 ⟨className, hdeclared, rfl⟩)
    rwa [holds.eq_of_readFile tree hleads (hproper className hdeclared) hcontent hmem hread] at hfact

/-- The compiler answers what the language says, and has then written what it has accepted. -/
theorem compile_told (speaks : tools.Speaks g) (tree : w.disk.IsTree) {sources : List String}
    (classpath : Path) {destination : Path} (hresolve : w.disk.resolve w.cwd true destination = .ok l)
    (hdir : w.disk.find? l = some .directory) (are : c.AreRead w.disk w.cwd sources)
    (distinct : g.Distinct c) :
    (Action.phase "compile" (tools.runCompiler sources classpath destination)).wp w
      (fun accepted w' => (accepted = true ↔ g.AcceptsWith c fun name =>
          w.disk.isFile w.cwd (classpath.join (ClassName.artifact name)) = true) ∧
        (accepted = true → g.Puts c l w.disk w'.disk))
      fun _ _ => True := by
  rw [Action.wp_phase, Toolchain.wp_runCompiler]
  exact speaks.compiles c sources classpath destination
    (w.called (.compile sources classpath destination w.disk)) l tree hresolve hdir are distinct

/-! ## With a store -/

/-- What is ready is what the language makes of the sources that are compiled again, where some more
classes are known. -/
def Told (g : SourceLanguage) (c : Contents) (known : String → Prop) (sourceTree : Path)
    (store : Store) (changes : Changes) (q : Plan) : Ready → World → Prop
  | .rejected, _ => ¬g.AcceptsWith c known
  | .compiled ws s stale produced _, w => g.AcceptsWith c known ∧ stale = q.stale ∧
      (∃ facts : List ClassFact, (∀ fact, fact ∈ facts ↔ g.IsFact c fact) ∧
        s = updated store q changes sourceTree facts ∧
        produced = .ofList (facts.map ClassFact.className)) ∧
      ∃ b, w.disk.resolve w.cwd true ws.destination = .ok b ∧ g.HoldsClasses c b w.disk
  | _, _ => True

section Staged

variable {classes : List String} (placed : Placed w ws a b) (hstands : Stands w a b w₁)
  (staged : Staged w output classes ws a b w₁.disk)

include placed hstands staged

/-- The files in the classpath are those of the classes that were staged. -/
theorem isFile_staged_iff (hproper : ClassName.IsProper className)
    (hchecks : ∀ className ∈ classes,
      (ws.classpath.join (ClassName.artifact className)).check = .ok ()) :
    w₁.disk.isFile w₁.cwd (ws.classpath.join (ClassName.artifact className)) = true ↔
      className ∈ classes := by
  have hnames : ∀ name ∈ ClassName.artifactNames className, Path.IsName name := fun _ =>
    hproper.isName_artifactNames
  have hreach := (hstands.reaches_classpath placed).of_erase.foldl_push hnames staged.not_link
  have hlink := staged.not_link _ (Location.covers_append a (ClassName.artifactNames className))
  rw [← hproper.join_artifact] at hreach
  rw [hreach.isFile_iff hstands.tree hlink]
  constructor
  · rintro ⟨-, bytes, runnable, hfind⟩
    obtain ⟨other, hother, hsame⟩ := staged.mirrors.only (ClassName.artifactNames className)
      (by rw [fileAt_eq_some_iff.2 ⟨runnable, hfind⟩]; rfl)
    rwa [ClassName.artifactNames_injective hsame]
  · intro hmem
    obtain ⟨bytes, -, hfile⟩ := staged.mirrors.file className hmem
    obtain ⟨runnable, hfind⟩ := fileAt_eq_some_iff.1 hfile
    exact ⟨hchecks className hmem, bytes, runnable, hfind⟩

/-- What compiling in a workspace makes ready. -/
theorem compileIn_told (speaks : tools.Speaks g) {known : String → Prop}
    (hchecks : ∀ className ∈ classes,
      (ws.classpath.join (ClassName.artifact className)).check = .ok ())
    (hclasses : ∀ className, className ∈ classes ↔ known className) {q : Plan}
    (are : c.AreRead w₁.disk w₁.cwd q.recompile.toList) (distinct : g.Distinct c)
    (proper : g.ProperNames c) (store : Store) (changes : Changes) (sourceTree : Path) :
    (compileIn tools ws store changes q sourceTree).wp w₁
      (Told g c known sourceTree store changes q) fun _ _ => True := by
  have hknown : g.AcceptsWith c (fun name =>
      w₁.disk.isFile w₁.cwd (ws.classpath.join (ClassName.artifact name)) = true) ↔
        g.AcceptsWith c known := proper.acceptsWith_congr fun name hname => by
    rw [isFile_staged_iff placed hstands staged hname hchecks, hclasses]
  have hempty (names : List String) : w₁.disk.fileAt (b ++ names) = none := by
    by_cases hne : names = []
    · rw [hne, List.append_nil, fileAt, hstands.destination]
    · rw [fileAt, staged.none_in_destination hstands.tree hne]
  unfold compileIn
  rw [Action.wp_bind]
  have hresolve := hstands.resolve_destination placed
  refine ((compile_bounded speaks.staysInside q.recompile.toList ws.classpath hresolve
    hstands.destination).and (compile_told speaks hstands.tree ws.classpath hresolve
      hstands.destination are distinct)).mono (fun accepted w₂ h₂ => ?_) fun _ _ _ => trivial
  obtain ⟨hbounded, haccepted, hputs⟩ := h₂
  rw [hknown] at haccepted
  have hstands₂ := hstands.of_bounded placed hbounded
  cases accepted with
  | false =>
    rw [if_neg Bool.false_ne_true, Action.wp_bind]
    have hrejected : ¬g.AcceptsWith c known := fun h => Bool.false_ne_true (haccepted.2 h)
    exact Action.wp_of_forall (fun _ _ => (Action.wp_pure _).2 hrejected) fun _ _ => trivial
  | true =>
    have hleads : Leads w₂.disk w₂.cwd ws.destination b :=
      .of_resolve (hstands₂.reaches_destination placed).isOpen (hstands₂.resolve_destination placed)
        hstands₂.destination
    have holds := (hputs rfl).holdsClasses hempty
    rw [if_pos rfl, Action.wp_bind]
    refine (recordClasses_told speaks hstands₂.tree hleads holds proper.declared _ sourceTree
      changes.changed).mono (fun recorded w₃ h₃ => (Action.wp_pure _).2 ?_) fun _ _ _ => trivial
    obtain ⟨hview, hfacts, hrecorded⟩ := h₃
    have hdisk : w₃.disk = w₂.disk := congrArg View.disk hview
    have hcwd : w₃.cwd = w₂.cwd := congrArg View.cwd hview
    refine ⟨haccepted.1 rfl, rfl, ⟨recorded.2, hfacts, hrecorded, rfl⟩, b, ?_, hdisk ▸ holds⟩
    rw [hdisk, hcwd]
    exact hstands₂.resolve_destination placed

end Staged

/-- A workspace that was staged stands, and nothing in it has a path that is too long. -/
theorem stage_told {classes : List String} (tree : w.disk.IsTree) (output : Path)
    (hnodup : classes.Nodup) (hproper : ∀ className ∈ classes, ClassName.IsProper className) :
    (Workspace.stage output classes).wp w
      (fun ws w₁ => ∃ a b, Placed w ws a b ∧ Stands w a b w₁ ∧ Staged w output classes ws a b w₁.disk ∧
        ∀ className ∈ classes, (ws.classpath.join (ClassName.artifact className)).check = .ok ())
      fun _ _ => True := by
  have hchecks : (Workspace.stage output classes).wp w (fun ws _ => ∀ className ∈ classes,
      (ws.classpath.join (ClassName.artifact className)).check = .ok ()) fun _ _ => True := by
    unfold Workspace.stage
    rw [Action.wp_bind]
    refine Action.wp_of_forall (fun ws w₁ => ?_) fun _ _ => trivial
    rw [Action.wp_bind, Action.wp_undoing]
    refine (copyClassFiles_checks output ws.classpath classes).mono
      (fun _ _ h => (Action.wp_pure _).2 h) fun _ _ _ =>
        Action.wp_of_forall (fun _ _ => trivial) fun _ _ => trivial
  refine ((stage_stands tree output classes hproper).and ((stage_staged tree output hnodup hproper).and
    hchecks)).mono (fun ws w₁ h => ?_) fun _ _ _ => trivial
  obtain ⟨⟨a, b, placed, hstands⟩, ⟨-, a', b', staged⟩, hchecks⟩ := h
  have hclasspath : w₁.disk.resolve w.cwd true ws.classpath = .ok a := by
    rw [← hstands.cwd]
    exact hstands.resolve_classpath placed
  have hdestination : w₁.disk.resolve w.cwd true ws.destination = .ok b := by
    rw [← hstands.cwd]
    exact hstands.resolve_destination placed
  obtain rfl : a = a' := Except.ok.inj (hclasspath.symm.trans staged.classpath)
  obtain rfl : b = b' := Except.ok.inj (hdestination.symm.trans staged.destination)
  exact ⟨a, b, placed, hstands, staged, hchecks⟩

/-- What a build makes ready that has a store with a description of the sources as they were. -/
theorem prepare_told {c₀ : Contents} (speaks : tools.Speaks g) (tree : w.disk.IsTree)
    (hchange : ∀ store table affected, Compared t storeAt w store table affected →
      g.Change c₀ c store table affected)
    (proper₀ : g.ProperNames c₀) (are : c.AreRead w.disk w.cwd t.sources.toList)
    (distinct : g.Distinct c) (proper : g.ProperNames c) :
    (prepare tools t storeAt).wp w
      (fun ready w' => ∃ store table affected, ∃ compared : Compared t storeAt w store table affected,
        Told g (c.only compared.plan.recompile)
          (StaysCurrent store compared.plan (Changes.between table store.sources).deleted) t.sourceTree
          store (.between table store.sources) compared.plan ready w')
      fun _ _ => True := by
  refine prepare_wp (fun _ _ _ _ => trivial) (fun store table affected compared _ _ _ _ => ?_)
    (fun store table affected compared _ _ _ _ => ?_) fun store table affected compared w₁ hquiet _ => ?_
  · exact ⟨store, table, affected, compared, trivial⟩
  · exact ⟨store, table, affected, compared, trivial⟩
  have change := hchange store table affected compared
  have hclasses (className : String) : className ∈ unaffected store compared.plan ↔
      StaysCurrent store compared.plan (Changes.between table store.sources).deleted className :=
    mem_unaffected store _ affected className
  have hproper : ∀ className ∈ unaffected store compared.plan, ClassName.IsProper className := by
    intro className hmem
    obtain ⟨source, hclass, -⟩ := (hclasses className).1 hmem
    exact proper₀.declared className ⟨source, (change.describes.classes className source).1 hclass⟩
  rw [Action.wp_bind, Action.wp_phase]
  refine (stage_told (hquiet.disk ▸ tree) t.output (nodup_unaffected store compared.plan) hproper).mono
    (fun ws w₂ h₂ => ?_) fun _ _ _ => trivial
  obtain ⟨a, b, placed, hstands, staged, hchecks⟩ := h₂
  have hread : ∀ q content, w.disk.readFile w.cwd q = .ok content →
      w₂.disk.readFile w₂.cwd q = .ok content := by
    intro q content hread
    rw [hstands.cwd]
    rw [← hquiet.disk, ← hquiet.cwd] at hread
    exact hstands.extends.readFile hread
  have hare := are.only (fun source hsource => change.isSome_of_recompile hsource) hread
  rw [Action.wp_undoing]
  refine (compileIn_told placed (hstands.congr (quiet_traced w₂ "stage").view) staged speaks hchecks
    hclasses hare (distinct.only _) (proper.only _) store _ t.sourceTree).mono (fun ready _ h => ?_)
    fun _ _ _ => Action.wp_of_forall (fun _ _ => trivial) fun _ _ => trivial
  exact ⟨store, table, affected, compared, h⟩

/-! ## Without a store -/

section Full

variable (speaks : tools.Speaks g)
  (layout : Layout w.disk w.cwd (Store.sites p.storeAt p.above p.name ++ [(t.output, out)]))
  (proper : g.ProperNames c)

include speaks layout proper

/-- All sources are compiled into the output directory, in which no files are. -/
theorem compileAll_told (hlink : ∀ target, w.disk.find? out ≠ some (.link target))
    (hare : ∀ w₁, Emptied out w w₁ → c.AreRead w₁.disk w₁.cwd t.sources.toList)
    (distinct : g.Distinct c) :
    (compileAll tools t).wp w
      (fun digests w' => (digests.isSome ↔ ∀ source, g.Accepts c source) ∧
        ∀ table, digests = some table → g.HoldsClasses c out w'.disk ∧
          ∀ source, table[source]? = (c source).map Sha256.hex)
      fun _ _ => True := by
  unfold compileAll
  rw [Action.wp_bind]
  refine (clean_reached layout.tree (layout.reaches_erase Store.last_mem_sites) hlink).mono
    (fun _ w₁ h₁ => ?_) fun _ _ _ => trivial
  obtain ⟨htouched, hempty, hcheck⟩ := h₁
  have hemptied : Emptied out w w₁ := ⟨htouched, hempty⟩
  rw [Action.wp_bind, Action.wp_phase]
  refine (Changes.detect_reads t.sources ∅).mono (fun changes w₂ h₂ => ?_) fun _ _ _ => trivial
  obtain ⟨hquiet, all, hall, rfl⟩ := h₂
  have hquiet₂ := hquiet.trans (quiet_traced w₂ "detect")
  have layout₂ : Layout (w₂.traced "detect").disk (w₂.traced "detect").cwd
      (Store.sites p.storeAt p.above p.name ++ [(t.output, out)]) := by
    rw [hquiet₂.disk, hquiet₂.cwd]
    exact layout_of_touched layout htouched
  have hreach := layout₂.reaches_self Store.last_mem_sites
  have hdir : (w₂.traced "detect").disk.find? out = some .directory := hquiet₂.disk ▸ hempty.1
  have hresolve : (w₂.traced "detect").disk.resolve (w₂.traced "detect").cwd true t.output = .ok out :=
    hreach.resolve_of_find? layout₂.tree hcheck hdir (by simp)
  have hnone (m : Location) (hm : out.covers m = true) : (w₂.traced "detect").disk.fileAt m = none := by
    rw [hquiet₂.disk]
    exact hemptied.fileAt_eq_none hm
  -- the classpath is the directory that was emptied, so no class is known
  have hknown : g.AcceptsWith c (fun name => (w₂.traced "detect").disk.isFile (w₂.traced "detect").cwd
      (t.output.join (ClassName.artifact name)) = true) ↔ ∀ source, g.Accepts c source := by
    rw [← SourceLanguage.acceptsWith_nothing]
    have hempty₂ : HoldsOnly (w₂.traced "detect").disk out [] := hquiet₂.disk ▸ hempty
    exact proper.acceptsWith_congr fun name hname =>
      iff_of_false (hempty₂.not_isFile layout₂.tree hreach hname) id
  have hare₂ : c.AreRead (w₂.traced "detect").disk (w₂.traced "detect").cwd t.sources.toList := by
    rw [hquiet₂.disk, hquiet₂.cwd]
    exact hare w₁ hemptied
  rw [Action.wp_bind]
  refine (compile_told speaks layout₂.tree t.output hresolve hdir hare₂ distinct).mono
    (fun accepted w₃ h₃ => ?_) fun _ _ _ => trivial
  rw [hknown] at h₃
  cases accepted with
  | false => exact (Action.wp_pure _).2 ⟨h₃.1, by simp⟩
  | true =>
    refine (Action.wp_pure _).2 ⟨h₃.1, fun table htable => ?_⟩
    cases htable
    rw [changed_between_empty]
    exact ⟨(h₃.2 rfl).holdsClasses fun names => hnone _ (Location.covers_append out names),
      (hare w₁ hemptied).getElem?_digests hall⟩

/-- The facts of all class files of the output directory are recorded. -/
theorem recordAll_told (hdir : w.disk.find? out = some .directory) (plain : w.disk.PlainClasses)
    (hcheck : t.output.check = .ok ()) (holds : g.HoldsClasses c out w.disk) (digests : Table) :
    (recordAll tools t digests p.storeAt).wp w
      (fun _ w' => g.HoldsClasses c out w'.disk ∧ ∃ facts, (∀ fact, fact ∈ facts ↔ g.IsFact c fact) ∧
        Filed IsClassPlace p (begun p.storeAt t.sourceTree digests facts) w'.disk)
      fun _ _ => True := by
  unfold recordAll
  rw [Action.wp_bind]
  refine (@reset_remade IsClassPlace (fun _ => False) p w t out layout plain).mono (fun _ w₁ h₁ => ?_)
    fun _ _ _ => trivial
  obtain ⟨hremade, plain₁, hsame⟩ := h₁
  have layout₁ := hremade.layout layout
  have hdir₁ : w₁.disk.find? out = some .directory := (hsame out (Location.covers_self out)).trans hdir
  have hreach := layout₁.reaches_self Store.last_mem_sites
  have hleads : Leads w₁.disk w₁.cwd t.output out :=
    .of_resolve hreach.isOpen (hreach.resolve_of_find? layout₁.tree hcheck hdir₁ (by simp)) hdir₁
  have holds₁ : g.HoldsClasses c out w₁.disk := holds.congr fun names => by
    rw [fileAt, hsame _ (Location.covers_append out names), fileAt]
  rw [Action.wp_bind]
  refine (recordClasses_told speaks layout₁.tree hleads holds₁ proper.declared (.new p.storeAt)
    t.sourceTree digests).mono (fun recorded w₂ h₂ => ?_) fun _ _ _ => trivial
  obtain ⟨hview, hfacts, hrecorded⟩ := h₂
  have hdisk : w₂.disk = w₁.disk := congrArg View.disk hview
  have hcwd : w₂.cwd = w₁.cwd := congrArg View.cwd hview
  have layout₂ : Layout w₂.disk w₂.cwd (Store.sites p.storeAt p.above p.name) := by
    rw [hdisk, hcwd]
    exact layout₁.sublist (List.sublist_append_left _ _)
  have hdirectory : recorded.1.directory = p.storeAt := by rw [hrecorded]; rfl
  have hapart : ∀ l ∈ p.saving, Location.Apart l out := by
    have hpairwise := layout.apart
    simp only [Store.sites, List.cons_append, List.nil_append, List.map_cons, List.map_nil,
      List.pairwise_cons, List.mem_cons, List.not_mem_nil, or_false, forall_eq_or_imp, forall_eq] at hpairwise
    simpa [Places.saving] using ⟨hpairwise.1.2, hpairwise.2.1⟩
  rw [Action.wp_phase]
  refine ((@save_filed IsClassPlace p w₂ recorded.1 layout₂ (hdisk ▸ plain₁) hdirectory).and
    (save_altered layout₂ hdirectory)).mono (fun _ w₃ h₃ => ?_) fun _ _ _ => trivial
  obtain ⟨⟨-, -, hfiled⟩, haltered, -⟩ := h₃
  have haltered₃ := haltered.congr (quiet_traced w₃ "save").view
  refine ⟨holds₁.congr fun names => ?_, recorded.2, hfacts, ?_⟩
  · rw [fileAt, haltered₃.eq_of_apart hapart (Location.covers_append out names), hdisk, fileAt]
  · rw [begun, ← hrecorded]
    exact hfiled

/-- A full build accepts what the language accepts. Then the store is the one that begins with the
facts of all classes, whose files are in the output directory. Otherwise only the output directory was
touched. -/
theorem full_told (hlink : ∀ target, w.disk.find? out ≠ some (.link target))
    (plain : w.disk.PlainClasses)
    (hare : ∀ w₁, Emptied out w w₁ → c.AreRead w₁.disk w₁.cwd t.sources.toList)
    (distinct : g.Distinct c) :
    (full tools t p.storeAt).wp w
      (fun outcome w' =>
        outcome = .compileFailed ∧ (¬∀ source, g.Accepts c source) ∧ w.Touched out w' ∨
        (∃ n, outcome = .compiled n) ∧ (∀ source, g.Accepts c source) ∧
          g.HoldsClasses c out w'.disk ∧ ∃ table facts,
            (∀ source, table[source]? = (c source).map Sha256.hex) ∧
            (∀ fact, fact ∈ facts ↔ g.IsFact c fact) ∧
            Filed IsClassPlace p (begun p.storeAt t.sourceTree table facts) w'.disk)
      fun _ _ => True := by
  have drifts : tools.Drifts IsClassPlace fun _ => False := speaks.drifts
  unfold full
  rw [Action.wp_bind]
  refine ((compileAll_told speaks layout proper hlink hare distinct).and
    ((compileAll_remade drifts layout hlink plain).and (compileAll_reached speaks.staysInside
      layout.tree (layout.reaches_erase Store.last_mem_sites) hlink))).mono
    (fun digests w₂ h₂ => ?_) fun _ _ _ => trivial
  obtain ⟨⟨haccepts, hdone⟩, ⟨w₁, all, hemptied, -, hremade, hdir, plain₂, hcheck, -⟩, htouched, -⟩ := h₂
  cases digests with
  | none => exact (Action.wp_pure _).2 (.inl ⟨rfl, by simpa using haccepts, htouched⟩)
  | some digests =>
    obtain ⟨holds, hdigests⟩ := hdone digests rfl
    dsimp only
    rw [Action.wp_bind]
    refine (recordAll_told speaks (layout_of_touched layout htouched) proper hdir plain₂ hcheck holds
      digests).mono (fun _ w₃ h₃ => ?_) fun _ _ _ => trivial
    obtain ⟨holds₃, facts, hfacts, hfiled⟩ := h₃
    rw [log, Action.wp_bind, Action.wp_log, Action.wp_pure]
    exact .inr ⟨⟨_, rfl⟩, haccepts.1 rfl, holds₃, digests, facts, hdigests, hfacts, hfiled⟩

end Full

end Build

end Recompile
