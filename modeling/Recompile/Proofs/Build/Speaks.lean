import Recompile.Proofs.Build.Language

/-!
# Tools that speak a language

A compiler speaks a language if it accepts exactly the sources without errors that use only names
that are declared or known, and then writes exactly the class files of what it has accepted. An
examiner speaks it if it reports what each class file tells. For every language there are such tools:
`SourceLanguage.toolchain` reads the sources and writes the class files itself, as long as no package
has to be made a directory.
-/

namespace Recompile

open Disk

/-- Only what lies below `l` may have changed, and no link is new. -/
structure World.Written (l : Location) (w w' : World) : Prop extends World.Confined l w w' where
  links : ∀ m target, w'.disk.find? m = some (.link target) → w.disk.find? m = some (.link target)

/-- The tools compile and examine as the language says. -/
structure Toolchain.Speaks (g : SourceLanguage) (tools : Toolchain) : Prop where
  /-- However the compiler ends, it has written only below the destination. -/
  writes : ∀ (sources : List String) (classpath destination : Path) (w : World) (l : Location),
    w.disk.resolve w.cwd true destination = .ok l → w.disk.find? l = some .directory →
      (tools.compile sources classpath destination).wp w (fun _ => w.Written l) fun _ => w.Written l
  /-- If it ends with an answer, this is what the language says, and what is accepted is written. -/
  compiles : ∀ (c : Contents) (sources : List String) (classpath destination : Path) (w : World)
    (l : Location), w.disk.IsTree → w.disk.resolve w.cwd true destination = .ok l →
      w.disk.find? l = some .directory → c.AreRead w.disk w.cwd sources → g.Distinct c →
      (tools.compile sources classpath destination).wp w
        (fun accepted w' =>
          (accepted = true ↔ g.AcceptsWith c fun name =>
            w.disk.isFile w.cwd (classpath.join (ClassName.artifact name)) = true) ∧
          (accepted = true → g.Puts c l w.disk w'.disk))
        fun _ _ => True
  examines : ∀ (classFiles : List Path) (w : World),
    (tools.examine classFiles).wp w
      (fun facts w' => w.Quiet w' ∧ List.Forall₂ (fun file fact =>
        ∃ bytes, w.disk.readFile w.cwd file = .ok bytes ∧ fact = g.tell bytes) classFiles facts)
      fun _ => w.Quiet

namespace World.Written

variable {free spare : Location → Prop} {l : Location} {w w' : World}

theorem find?_eq (h : w.Written l w') {m : Location} (hm : l.covers m = true → m = l) :
    w'.disk.find? m = w.disk.find? m := h.toConfined.bounded.find? hm

theorem worked (h : w.Written l w') (tree : w.disk.IsTree) (plain : w.disk.PlainClasses)
    (hdir : w.disk.find? l = some .directory) : w.Worked free (fun _ => False) l w' where
  cwd := h.cwd
  environment := h.environment
  tree := h.tree tree
  outside m hm := .inl (h.find?_eq fun hcovers => by simp [hm l (List.mem_singleton_self l)] at hcovers)
  spared _ hm := hm.elim
  directory := (h.find?_eq fun _ => rfl).trans hdir
  plain m hm target hlink := plain m hm target (h.links m target hlink)

end World.Written

namespace Toolchain.Speaks

variable {g : SourceLanguage} {tools : Toolchain} {free : Location → Prop}

attribute [local irreducible] Action.wp

theorem staysInside (speaks : tools.Speaks g) : tools.StaysInside where
  compile sources classpath destination w l hresolve hdir :=
    (speaks.writes sources classpath destination w l hresolve hdir).mono (fun _ _ h => h.toConfined)
      fun _ _ h => h.toConfined
  examine classFiles _ w l _ _ _ := by
    have confined {w' : World} (h : w.Quiet w') : w.Confined l w' :=
      ⟨h.toSteady, by rw [h.disk], fun tree => h.disk ▸ tree⟩
    exact (speaks.examines classFiles w).mono (fun _ _ h => confined h.1) fun _ _ h => confined h

theorem drifts (speaks : tools.Speaks g) : tools.Drifts free fun _ => False where
  compile sources classpath destination w l tree plain hresolve hdir :=
    (speaks.writes sources classpath destination w l hresolve hdir).mono
      (fun _ _ h => h.worked tree plain hdir) fun _ _ h => h.worked tree plain hdir
  examine classFiles _ w l tree plain _ hdir _ := by
    have worked {w' : World} (h : w.Quiet w') : w.Worked free (fun _ => False) l w' :=
      (World.Worked.refl tree hdir plain).congr h.view
    exact (speaks.examines classFiles w).mono (fun _ _ h => worked h.1) fun _ _ h => worked h

end Toolchain.Speaks

/-! ## Tools for any language -/

namespace SourceLanguage

variable (g : SourceLanguage)

/-- Whether sources with these contents are accepted. -/
def acceptsAll (contents : List (String × ByteArray)) (known : String → Bool) : Bool :=
  contents.all fun source =>
    !(g.read source.1 source.2).erroneous && (g.read source.1 source.2).uses.toList.all fun name =>
      contents.any (fun other => (g.read other.1 other.2).declares.contains name) || known name

/-- The class files of sources with these contents. -/
def classFiles (contents : List (String × ByteArray)) : List (List String × ByteArray) :=
  contents.flatMap fun source => (g.read source.1 source.2).declares.toList.map fun className =>
    (ClassName.artifactNames className, g.classFile source.1 source.2 className)

/-- Whether a file can be put into the directory without making a directory for it. -/
def writable (d : Disk) (l : Location) (file : List String × ByteArray) : Bool :=
  match file.1 with
  | [name] => decide (Path.IsName name ∧ name.utf8ByteSize ≤ Path.nameLimit) &&
      !(d.find? (l ++ [name])).any Entry.isDirectory
  | _ => false

def putBelow (l : Location) (d : Disk) (file : List String × ByteArray) : Disk :=
  d.put (l ++ file.1) (.file file.2 false)

def readAll (d : Disk) (cwd : Location) : List String → Except Fault (List (String × ByteArray))
  | [] => .ok []
  | source :: sources => do
    let content ← d.readFile cwd ⟨source⟩
    return (source, content) :: (← readAll d cwd sources)

/-- A compiler that writes the class files, if none of them needs a directory, and an examiner that
reads them. -/
def toolchain : Toolchain where
  compile sources classpath destination := do
    let l ← Action.query fun d cwd => d.resolve cwd true destination
    let contents ← Action.query fun d cwd => readAll d cwd sources
    let world ← get
    if g.acceptsAll contents fun name =>
        world.disk.isFile world.cwd (classpath.join (ClassName.artifact name)) then
      if (g.classFiles contents).all (writable world.disk l) then
        modify fun world =>
          { world with disk := (g.classFiles contents).foldl (putBelow l) world.disk }
        return true
      else Action.failed .notFile
    else return false
  examine classFiles := classFiles.mapM fun file => g.tell <$> Action.readBytes file

variable {g} {c : Contents} {d : Disk} {cwd l : Location} {sources : List String}
  {contents : List (String × ByteArray)} {files : List (List String × ByteArray)}

theorem mem_readAll (hread : readAll d cwd sources = .ok contents) (source : String)
    (content : ByteArray) :
    (source, content) ∈ contents ↔ source ∈ sources ∧ d.readFile cwd ⟨source⟩ = .ok content := by
  induction sources generalizing contents with
  | nil =>
    cases hread
    simp
  | cons first rest ih =>
    rw [readAll] at hread
    obtain ⟨bytes, hfirst, hread⟩ := Except.bind_eq_ok_iff.1 hread
    obtain ⟨more, hmore, heq⟩ := Except.bind_eq_ok_iff.1 hread
    cases heq
    rw [List.mem_cons, ih hmore, List.mem_cons, Prod.mk.injEq]
    constructor
    · rintro (⟨rfl, rfl⟩ | ⟨hmem, hcontent⟩)
      · exact ⟨.inl rfl, hfirst⟩
      · exact ⟨.inr hmem, hcontent⟩
    · rintro ⟨rfl | hmem, hcontent⟩
      · exact .inl ⟨rfl, Except.ok.inj (hcontent.symm.trans hfirst)⟩
      · exact .inr ⟨hmem, hcontent⟩

theorem mem_contents (hread : readAll d cwd sources = .ok contents) (are : c.AreRead d cwd sources)
    (source : String) (content : ByteArray) : (source, content) ∈ contents ↔ c source = some content := by
  rw [mem_readAll hread]
  by_cases hmem : source ∈ sources
  · obtain ⟨content', hcontent', hc⟩ := are.read source hmem
    simp [hmem, hcontent', hc]
  · simp [hmem, are.other source hmem]

section Contents

variable (hcontents : ∀ source content, (source, content) ∈ contents ↔ c source = some content)

include hcontents

theorem acceptsAll_iff (known : String → Bool) :
    g.acceptsAll contents known = true ↔ g.AcceptsWith c fun name => known name = true := by
  have hdeclared (name : String) : (contents.any fun other =>
      (g.read other.1 other.2).declares.contains name) = true ↔ g.Declared c name := by
    simp only [List.any_eq_true, Prod.exists, hcontents, Std.ExtTreeSet.contains_iff_mem, Declared,
      Declares]
  simp only [acceptsAll, List.all_eq_true, Prod.forall, hcontents, Bool.and_eq_true, Bool.not_eq_true',
    Bool.or_eq_true, hdeclared, Std.ExtTreeSet.mem_toList, AcceptsWith, Erroneous, Uses, not_exists,
    not_and, Bool.not_eq_true]
  constructor
  · intro hall source
    refine ⟨fun content hcontent => (hall source content hcontent).1, ?_⟩
    rintro name ⟨content, hcontent, hname⟩
    exact (hall source content hcontent).2 name hname
  · intro hall source content hcontent
    obtain ⟨herror, hknown⟩ := hall source
    exact ⟨herror content hcontent, fun name hname => hknown name ⟨content, hcontent, hname⟩⟩

theorem mem_classFiles (names : List String) (bytes : ByteArray) :
    (names, bytes) ∈ g.classFiles contents ↔
      ∃ source content className, c source = some content ∧
        className ∈ (g.read source content).declares ∧ names = ClassName.artifactNames className ∧
        bytes = g.classFile source content className := by
  simp only [classFiles, List.mem_flatMap, List.mem_map, Prod.exists, hcontents,
    Std.ExtTreeSet.mem_toList, Prod.mk.injEq, exists_and_left, eq_comm (a := names),
    eq_comm (a := bytes)]

end Contents

theorem exists_of_writable {file : List String × ByteArray} (h : writable d l file = true) :
    ∃ name, file.1 = [name] ∧ Path.IsName name ∧ name.utf8ByteSize ≤ Path.nameLimit ∧
      d.find? (l ++ file.1) ≠ some .directory := by
  unfold writable at h
  split at h
  · next name hname =>
    simp only [Bool.and_eq_true, decide_eq_true_eq, Bool.not_eq_true', Option.any_eq_false_iff_get] at h
    refine ⟨name, hname, h.1.1, h.1.2, fun hdir => ?_⟩
    rw [hname] at hdir
    have hnot := h.2 (by simp [hdir])
    simp [hdir, Entry.isDirectory] at hnot
  · cases h

/-- Whatever is new is one of the files. -/
theorem find?_foldl_putBelow (hfiles : ∀ file ∈ files, file.1 ≠ []) (d : Disk) (m : Location) :
    (∀ file ∈ files, m ≠ l ++ file.1) ∧ (files.foldl (putBelow l) d).find? m = d.find? m ∨
      ∃ file ∈ files, m = l ++ file.1 ∧
        (files.foldl (putBelow l) d).find? m = some (.file file.2 false) := by
  induction files generalizing d with
  | nil => exact .inl ⟨by simp, rfl⟩
  | cons file rest ih =>
    rw [List.foldl_cons]
    rcases ih (fun other hother => hfiles other (List.mem_cons_of_mem _ hother)) (putBelow l d file) with
      ⟨hnone, hsame⟩ | ⟨other, hother, hm, hfile⟩
    · have hne : l ++ file.1 ≠ [] := by simp [hfiles file List.mem_cons_self]
      rw [hsame, putBelow, find?_put _ hne]
      by_cases hm : m = l ++ file.1
      · exact .inr ⟨file, List.mem_cons_self, hm, if_pos hm⟩
      · exact .inl ⟨List.forall_mem_cons.2 ⟨hm, hnone⟩, if_neg hm⟩
    · exact .inr ⟨other, List.mem_cons_of_mem _ hother, hm, hfile⟩

theorem written_foldl_putBelow {w : World} (hwritable : ∀ file ∈ files, writable w.disk l file = true)
    (hdir : w.disk.find? l = some .directory) :
    w.Written l { w with disk := files.foldl (putBelow l) w.disk } := by
  have hne (file : List String × ByteArray) (hfile : file ∈ files) : file.1 ≠ [] := by
    obtain ⟨name, hname, -⟩ := exists_of_writable (hwritable file hfile)
    simp [hname]
  have hclear (d : Disk) : (files.foldl (putBelow l) d).clear l = d.clear l := by
    clear hwritable
    induction files generalizing d with
    | nil => rfl
    | cons file rest ih =>
      rw [List.foldl_cons, ih (fun other hother => hne other (List.mem_cons_of_mem _ hother))]
      exact d.clear_put (Location.covers_append l file.1) (by simp [hne file List.mem_cons_self]) _
  refine ⟨⟨⟨rfl, rfl, rfl⟩, hclear w.disk, fun tree => ?_⟩, fun m target hlink => ?_⟩
  · have htree (d : Disk) (tree : d.IsTree) (hdir : d.find? l = some .directory)
        (hwritable : ∀ file ∈ files, writable d l file = true) :
        (files.foldl (putBelow l) d).IsTree := by
      clear hne hclear
      induction files generalizing d with
      | nil => exact tree
      | cons file rest ih =>
        obtain ⟨name, hname, hproper, hsize, hnot⟩ :=
          exists_of_writable (hwritable file List.mem_cons_self)
        have hput (m : Location) : (putBelow l d file).find? m =
            if m = l ++ file.1 then some (.file file.2 false) else d.find? m :=
          d.find?_put (by simp [hname]) _ m
        refine ih (fun other hother => ?_) (putBelow l d file) ?_ ?_ fun other hother => ?_
        · exact ‹∀ file ∈ _ :: rest, writable w.disk l file = true› other (List.mem_cons_of_mem _ hother)
        · rw [putBelow, hname]
          rw [hname] at hnot
          exact tree.put hdir hproper hsize fun h => absurd h hnot
        · rw [hput, if_neg (by simp [hname]), hdir]
        · have hother' := hwritable other (List.mem_cons_of_mem _ hother)
          unfold writable at hother' ⊢
          split at hother'
          · next other' _ =>
            rw [hput]
            split_ifs
            · simp only [Option.any_some, Entry.isDirectory, Bool.not_false, Bool.and_true]
              exact (Bool.and_eq_true _ _ ▸ hother').1
            · exact hother'
          · cases hother'
    exact htree w.disk tree hdir hwritable
  · rcases find?_foldl_putBelow hne w.disk m with ⟨-, hsame⟩ | ⟨file, -, -, hfile⟩
    · exact hsame ▸ hlink
    · rw [hfile] at hlink
      cases hlink

theorem puts_foldl_putBelow (distinct : g.Distinct c)
    (hcontents : ∀ source content, (source, content) ∈ contents ↔ c source = some content)
    (hwritable : ∀ file ∈ g.classFiles contents, writable d l file = true) :
    g.Puts c l d ((g.classFiles contents).foldl (putBelow l) d) := by
  have hne (file : List String × ByteArray) (hfile : file ∈ g.classFiles contents) : file.1 ≠ [] := by
    obtain ⟨name, hname, -⟩ := exists_of_writable (hwritable file hfile)
    simp [hname]
  refine ⟨fun source content className hcontent hmem => ?_, fun names hnames => ?_⟩
  · rcases find?_foldl_putBelow hne d (l ++ ClassName.artifactNames className) with
      ⟨hnone, -⟩ | ⟨⟨names, bytes⟩, hfile, hplace, hfind⟩
    · exact absurd rfl (hnone (ClassName.artifactNames className, g.classFile source content className)
        ((mem_classFiles hcontents _ _).2 ⟨source, content, className, hcontent, hmem, rfl, rfl⟩))
    · obtain ⟨source', content', other, hcontent', hmem', rfl, rfl⟩ :=
        (mem_classFiles hcontents names bytes).1 hfile
      obtain rfl := ClassName.artifactNames_injective (List.append_cancel_left hplace)
      obtain rfl := distinct className source source' ⟨content, hcontent, hmem⟩ ⟨content', hcontent', hmem'⟩
      obtain rfl : content = content' := Option.some.inj (hcontent.symm.trans hcontent')
      exact fileAt_eq_some_iff.2 ⟨false, hfind⟩
  · rcases find?_foldl_putBelow hne d (l ++ names) with ⟨-, hsame⟩ | ⟨⟨names', bytes⟩, hfile, hplace, -⟩
    · rw [fileAt, hsame, fileAt]
    · obtain ⟨source, content, className, hcontent, hmem, rfl, -⟩ :=
        (mem_classFiles hcontents names' bytes).1 hfile
      exact absurd (List.append_cancel_left hplace) (hnames className ⟨source, content, hcontent, hmem⟩)

theorem examine_toolchain (w : World) (files : List Path) :
    (g.toolchain.examine files).wp w
      (fun facts w' => w' = w ∧ List.Forall₂ (fun file fact =>
        ∃ bytes, w.disk.readFile w.cwd file = .ok bytes ∧ fact = g.tell bytes) files facts)
      fun _ w' => w' = w := by
  simp only [toolchain]
  induction files with
  | nil => exact (Action.wp_pure _).2 ⟨rfl, .nil⟩
  | cons file rest ih =>
    rw [List.mapM_cons, Action.wp_bind, Action.wp_map, Action.readBytes, Action.wp_query]
    cases hread : w.disk.readFile w.cwd file with
    | error fault => rfl
    | ok bytes =>
      dsimp only
      rw [Action.wp_bind]
      refine ih.mono (fun facts w' h => (Action.wp_pure _).2 ?_) fun _ _ => id
      exact ⟨h.1, .cons ⟨bytes, hread, rfl⟩ h.2⟩

/-- These tools speak the language. -/
theorem speaks_toolchain (g : SourceLanguage) : g.toolchain.Speaks g where
  writes sources classpath destination w l hresolve hdir := by
    have unchanged : w.Written l w := ⟨⟨.refl w, rfl, id⟩, fun _ _ h => h⟩
    simp only [toolchain, Action.wp_bind, Action.wp_query, hresolve, Action.wp_get]
    cases readAll w.disk w.cwd sources with
    | error fault => exact unchanged
    | ok contents =>
      dsimp only
      split_ifs with haccepts hwritable
      · rw [Action.wp_bind, Action.wp_modify, Action.wp_pure]
        exact written_foldl_putBelow (List.all_eq_true.1 hwritable) hdir
      · exact (Action.wp_failed _).2 unchanged
      · exact (Action.wp_pure _).2 unchanged
  compiles c sources classpath destination w l _ hresolve hdir are distinct := by
    simp only [toolchain, Action.wp_bind, Action.wp_query, hresolve, Action.wp_get]
    cases hread : readAll w.disk w.cwd sources with
    | error fault => trivial
    | ok contents =>
      have hcontents := mem_contents hread are
      have hiff := acceptsAll_iff (g := g) hcontents fun name =>
        w.disk.isFile w.cwd (classpath.join (ClassName.artifact name))
      dsimp only
      split_ifs with haccepts hwritable
      · rw [Action.wp_bind, Action.wp_modify, Action.wp_pure]
        exact ⟨iff_of_true rfl (hiff.1 haccepts),
          fun _ => puts_foldl_putBelow distinct hcontents (List.all_eq_true.1 hwritable)⟩
      · exact (Action.wp_failed _).2 trivial
      · exact (Action.wp_pure _).2 ⟨iff_of_false (by simp) (hiff.not.1 haccepts), by simp⟩
  examines files w := (examine_toolchain w files).mono (fun _ _ h => ⟨h.1 ▸ .refl w, h.2⟩)
    fun _ _ h => h ▸ .refl w

end SourceLanguage

end Recompile
