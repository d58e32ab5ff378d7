import Recompile.Proofs.Build.InStep

/-!
# Languages that are compiled source by source

In such a language what a source declares and uses can be read from the source alone, and so can the
class files of its classes. Then the sources of a tree say what a store has to be: `Describes`. A
build with a store that describes the sources of the last success compiles some of the sources that
are there now, and afterwards the store describes these: no class that stays refers to a class that
is compiled again or gone, because all classes of a source use the same names.
-/

namespace Recompile

/-- What one source says. -/
structure Reading where
  erroneous : Bool
  declares : Names
  uses : Names

/-- How sources are read and compiled, each by its text and its content, and what a class file
tells. -/
structure SourceLanguage where
  read : (source : String) → (content : ByteArray) → Reading
  classFile : (source : String) → (content : ByteArray) → (className : String) → ByteArray
  tell : (bytes : ByteArray) → ClassFact

/-- The contents of some sources, by their texts. -/
abbrev Contents := String → Option ByteArray

namespace Contents

/-- Those of the sources. -/
def only (c : Contents) (sources : Names) : Contents :=
  fun source => if source ∈ sources then c source else none

theorem only_eq_some_iff {c : Contents} {sources : Names} {source : String} {content : ByteArray} :
    c.only sources source = some content ↔ source ∈ sources ∧ c source = some content := by
  simp [only]

/-- These are the contents of the listed sources on a disk. -/
structure AreRead (c : Contents) (d : Disk) (cwd : Location) (sources : List String) : Prop where
  read : ∀ source ∈ sources, ∃ content, d.readFile cwd ⟨source⟩ = .ok content ∧
    c source = some content
  other : ∀ source ∉ sources, c source = none

namespace AreRead

variable {c : Contents} {d : Disk} {cwd : Location} {sources : List String} {source : String}

theorem isSome_iff (h : c.AreRead d cwd sources) : (c source).isSome ↔ source ∈ sources := by
  refine ⟨fun hsome => ?_, fun hmem => ?_⟩
  · by_contra hnot
    rw [h.other source hnot] at hsome
    cases hsome
  · obtain ⟨content, -, hcontent⟩ := h.read source hmem
    simp [hcontent]

theorem readFile (h : c.AreRead d cwd sources) {content : ByteArray}
    (hcontent : c source = some content) : d.readFile cwd ⟨source⟩ = .ok content := by
  obtain ⟨content', hread, hcontent'⟩ := h.read source (h.isSome_iff.1 (by simp [hcontent]))
  obtain rfl : content = content' := Option.some.inj (hcontent.symm.trans hcontent')
  exact hread

/-- The digests of the sources are those of the contents. -/
theorem getElem?_digests (h : c.AreRead d cwd sources) {table : Table}
    (hdigest : Changes.IsDigest d cwd sources table) (source : String) :
    table[source]? = (c source).map Sha256.hex := by
  by_cases hmem : source ∈ sources
  · obtain ⟨content, hread, hcontent⟩ := h.read source hmem
    obtain ⟨bytes, hbytes, htable⟩ := hdigest.read source hmem
    obtain rfl : content = bytes := Except.ok.inj (hread.symm.trans hbytes)
    rw [htable, hcontent, Option.map_some]
  · rw [hdigest.other source hmem, h.other source hmem, Option.map_none]

/-- So are some of the sources, also on another disk on which they are read as on this one. -/
theorem only {d' : Disk} {cwd' : Location} (h : c.AreRead d cwd sources) {some : Names}
    (hsome : ∀ source ∈ some, (c source).isSome)
    (hsame : ∀ p content, d.readFile cwd p = .ok content → d'.readFile cwd' p = .ok content) :
    (c.only some).AreRead d' cwd' some.toList := by
  refine ⟨fun source hsource => ?_, fun source hsource => ?_⟩
  · rw [Std.ExtTreeSet.mem_toList] at hsource
    obtain ⟨content, hcontent⟩ := Option.isSome_iff_exists.1 (hsome source hsource)
    exact ⟨content, hsame _ _ (h.readFile hcontent), only_eq_some_iff.2 ⟨hsource, hcontent⟩⟩
  · rw [Std.ExtTreeSet.mem_toList] at hsource
    exact if_neg hsource

end AreRead

end Contents

namespace SourceLanguage

variable (g : SourceLanguage) (c : Contents)

def Erroneous (source : String) : Prop :=
  ∃ content, c source = some content ∧ (g.read source content).erroneous = true

def Declares (source className : String) : Prop :=
  ∃ content, c source = some content ∧ className ∈ (g.read source content).declares

def Uses (source name : String) : Prop :=
  ∃ content, c source = some content ∧ name ∈ (g.read source content).uses

def Declared (className : String) : Prop := ∃ source, g.Declares c source className

/-- Every name that the source uses is declared. -/
def Resolves (source : String) : Prop := ∀ name, g.Uses c source name → g.Declared c name

def Accepts (source : String) : Prop := ¬g.Erroneous c source ∧ g.Resolves c source

/-- Whether a compiler to which some more classes are known accepts all these sources. -/
def AcceptsWith (known : String → Prop) : Prop :=
  ∀ source, ¬g.Erroneous c source ∧ ∀ name, g.Uses c source name → g.Declared c name ∨ known name

/-- What a success leaves the sources in: none has an error, and a source in which there is a class
uses only names that are declared. -/
def Settled : Prop :=
  ∀ source, ¬g.Erroneous c source ∧ ((∃ className, g.Declares c source className) → g.Resolves c source)

/-- No class is declared by two sources. -/
def Distinct : Prop :=
  ∀ className source source', g.Declares c source className → g.Declares c source' className →
    source = source'

/-- The classes that are declared or used have proper names. -/
structure ProperNames : Prop where
  declared : ∀ className, g.Declared c className → ClassName.IsProper className
  used : ∀ source name, g.Uses c source name → ClassName.IsProper name

/-- The fact is what the class file of a class tells. -/
def IsFact (fact : ClassFact) : Prop :=
  ∃ source content className, c source = some content ∧
    className ∈ (g.read source content).declares ∧ fact = g.tell (g.classFile source content className)

/-- The class file of a class tells its name, its source and what the source uses. -/
def TellsAll (tree : Path) : Prop :=
  ∀ source content className, c source = some content → className ∈ (g.read source content).declares →
    let fact := g.tell (g.classFile source content className)
    fact.className = className ∧ (tree.join fact.source).text = source ∧
      fact.dependencies = (g.read source content).uses

/-- Below `l` there are the class files of the declared classes and no other files. -/
def HoldsClasses (l : Location) (d : Disk) : Prop :=
  ∀ names bytes, d.fileAt (l ++ names) = some bytes ↔
    ∃ source content className, c source = some content ∧
      className ∈ (g.read source content).declares ∧ names = ClassName.artifactNames className ∧
      bytes = g.classFile source content className

/-- What a compiler writes below `l` when it accepts the sources. -/
structure Puts (l : Location) (d d' : Disk) : Prop where
  written : ∀ source content className, c source = some content →
    className ∈ (g.read source content).declares →
    d'.fileAt (l ++ ClassName.artifactNames className) = some (g.classFile source content className)
  others : ∀ names, (∀ className, g.Declared c className → names ≠ ClassName.artifactNames className) →
    d'.fileAt (l ++ names) = d.fileAt (l ++ names)

/-- The store is what the sources make it: the digest of each of them, the source of each class, and
an edge from a class to each class of a source that uses it. -/
structure Describes (s : Store) : Prop where
  sources : ∀ source, s.sources[source]? = (c source).map Sha256.hex
  classes : ∀ className source, s.classes[className]? = some source ↔ g.Declares c source className
  edges : ∀ dependency dependent, s.HasEdge dependency dependent ↔
    ∃ source, g.Declares c source dependent ∧ g.Uses c source dependency ∧ g.Declared c dependency

variable {g c} {c' : Contents} {s s' : Store} {source className name : String} {tree : Path}
  {sources : Names} {l : Location} {d : Disk}

/-! ## Reading -/

theorem declares_congr (h : c' source = c source) :
    g.Declares c' source className ↔ g.Declares c source className := by
  rw [Declares, h, Declares]

theorem uses_congr (h : c' source = c source) : g.Uses c' source name ↔ g.Uses c source name := by
  rw [Uses, h, Uses]

theorem erroneous_congr (h : c' source = c source) : g.Erroneous c' source ↔ g.Erroneous c source := by
  rw [Erroneous, h, Erroneous]

theorem declares_only :
    g.Declares (c.only sources) source className ↔ source ∈ sources ∧ g.Declares c source className := by
  simp only [Declares, Contents.only_eq_some_iff, and_assoc, exists_and_left]

theorem uses_only : g.Uses (c.only sources) source name ↔ source ∈ sources ∧ g.Uses c source name := by
  simp only [Uses, Contents.only_eq_some_iff, and_assoc, exists_and_left]

theorem erroneous_only :
    g.Erroneous (c.only sources) source ↔ source ∈ sources ∧ g.Erroneous c source := by
  simp only [Erroneous, Contents.only_eq_some_iff, and_assoc, exists_and_left]

theorem TellsAll.only (h : g.TellsAll c tree) (sources : Names) : g.TellsAll (c.only sources) tree :=
  fun source content className hcontent => h source content className (Contents.only_eq_some_iff.1 hcontent).2

theorem Distinct.only (h : g.Distinct c) (sources : Names) : g.Distinct (c.only sources) :=
  fun className source source' hs hs' => h className source source' (declares_only.1 hs).2
    (declares_only.1 hs').2

theorem ProperNames.only (h : g.ProperNames c) (sources : Names) : g.ProperNames (c.only sources) :=
  ⟨fun className ⟨source, hdeclares⟩ => h.declared className ⟨source, (declares_only.1 hdeclares).2⟩,
    fun source name huses => h.used source name (uses_only.1 huses).2⟩

/-- What is accepted depends only on which proper names are known. -/
theorem ProperNames.acceptsWith_congr (h : g.ProperNames c) {known known' : String → Prop}
    (hknown : ∀ name, ClassName.IsProper name → (known name ↔ known' name)) :
    g.AcceptsWith c known ↔ g.AcceptsWith c known' := by
  refine forall_congr' fun source => and_congr_right fun _ => ?_
  exact forall₂_congr fun name huses => or_congr_right (hknown name (h.used source name huses))

/-- A fact with a given name about one of the classes. -/
theorem exists_fact_iff (tells : g.TellsAll c tree) {P : ClassFact → Prop} :
    (∃ fact, g.IsFact c fact ∧ fact.className = className ∧ P fact) ↔
      ∃ source content, c source = some content ∧ className ∈ (g.read source content).declares ∧
        P (g.tell (g.classFile source content className)) := by
  constructor
  · rintro ⟨_, ⟨source, content, declared, hcontent, hdeclared, rfl⟩, hname, hP⟩
    obtain rfl : declared = className := (tells source content declared hcontent hdeclared).1.symm.trans hname
    exact ⟨source, content, hcontent, hdeclared, hP⟩
  · rintro ⟨source, content, hcontent, hdeclared, hP⟩
    exact ⟨_, ⟨source, content, className, hcontent, hdeclared, rfl⟩,
      (tells source content className hcontent hdeclared).1, hP⟩

/-- The facts are about the declared classes. -/
theorem mem_map_className_iff {facts : List ClassFact} (tells : g.TellsAll c tree)
    (hfacts : ∀ fact, fact ∈ facts ↔ g.IsFact c fact) :
    className ∈ facts.map ClassFact.className ↔ g.Declared c className := by
  have hexists := @exists_fact_iff g c className tree tells fun _ => True
  simp only [← hfacts, and_true] at hexists
  rw [List.mem_map, hexists]
  rfl

theorem acceptsWith_nothing : g.AcceptsWith c (fun _ => False) ↔ ∀ source, g.Accepts c source := by
  simp only [AcceptsWith, or_false, Accepts, Resolves]

theorem settled_of_accepts (h : ∀ source, g.Accepts c source) : g.Settled c :=
  fun source => ⟨(h source).1, fun _ => (h source).2⟩

/-- Settled sources are all accepted if those without a class use only names that are declared, too. -/
theorem Settled.accepts_iff (h : g.Settled c) : (∀ source, g.Accepts c source) ↔
    ∀ source, (¬∃ className, g.Declares c source className) → g.Resolves c source := by
  refine ⟨fun hall source _ => (hall source).2, fun hresolves source => ⟨(h source).1, ?_⟩⟩
  by_cases hclass : ∃ className, g.Declares c source className
  · exact (h source).2 hclass
  · exact hresolves source hclass

theorem HoldsClasses.congr {d' : Disk} (h : g.HoldsClasses c l d)
    (hsame : ∀ names, d'.fileAt (l ++ names) = d.fileAt (l ++ names)) : g.HoldsClasses c l d' :=
  fun names bytes => hsame names ▸ h names bytes

/-- Without classes there are no class files. -/
theorem holdsClasses_of_none (hnone : ∀ className, ¬g.Declared c className)
    (hempty : ∀ names, d.fileAt (l ++ names) = none) : g.HoldsClasses c l d := by
  intro names bytes
  rw [hempty]
  refine iff_of_false (by simp) ?_
  rintro ⟨source, content, className, hcontent, hmem, -⟩
  exact hnone className ⟨source, content, hcontent, hmem⟩

/-- Where no files were, there are the class files of the sources. -/
theorem Puts.holdsClasses {d' : Disk} (h : g.Puts c l d d')
    (hempty : ∀ names, d.fileAt (l ++ names) = none) : g.HoldsClasses c l d' := by
  intro names bytes
  constructor
  · intro hbytes
    by_cases hdeclared : ∃ className, g.Declared c className ∧ names = ClassName.artifactNames className
    · obtain ⟨className, ⟨source, content, hcontent, hmem⟩, rfl⟩ := hdeclared
      rw [h.written source content className hcontent hmem, Option.some.injEq] at hbytes
      exact ⟨source, content, className, hcontent, hmem, rfl, hbytes.symm⟩
    · rw [h.others names fun className hclass heq => hdeclared ⟨className, hclass, heq⟩, hempty] at hbytes
      cases hbytes
  · rintro ⟨source, content, className, hcontent, hmem, rfl, rfl⟩
    exact h.written source content className hcontent hmem

/-! ## Recording facts -/

section Record

variable {facts : List ClassFact} (distinct : g.Distinct c) (tells : g.TellsAll c tree)
  (hfacts : ∀ fact, fact ∈ facts ↔ g.IsFact c fact)

include distinct tells hfacts

/-- Recording the facts of all class files gives each class the source that declares it. -/
theorem getElem?_classes_record_facts :
    (s.record tree facts).classes[className]? = some source ↔
      g.Declares c source className ∨ ¬g.Declared c className ∧ s.classes[className]? = some source := by
  rw [Store.getElem?_classes_record]
  cases hfind : facts.reverse.find? fun fact => fact.className = className with
  | none =>
    have hnone : ¬g.Declared c className := by
      rw [← mem_map_className_iff tells hfacts]
      simpa [List.find?_eq_none] using hfind
    have hnot : ¬g.Declares c source className := fun h => hnone ⟨source, h⟩
    simp [hnone, hnot]
  | some fact =>
    have hmem := (hfacts fact).1 (List.mem_reverse.1 (List.mem_of_find?_eq_some hfind))
    have hname : fact.className = className := by simpa using List.find?_some hfind
    obtain ⟨source', content, hcontent, hdeclared, htext⟩ :=
      (exists_fact_iff tells (P := fun fact' => (tree.join fact'.source).text = (tree.join fact.source).text)).1
        ⟨fact, hmem, hname, rfl⟩
    rw [(tells source' content className hcontent hdeclared).2.1] at htext
    have hsource : g.Declares c source' className := ⟨content, hcontent, hdeclared⟩
    have hdeclares : g.Declares c source className ↔ source' = source :=
      ⟨fun h => distinct className source' source hsource h, fun h => h ▸ hsource⟩
    have hdeclared' : g.Declared c className := ⟨source', hsource⟩
    simp [← htext, hdeclares, hdeclared']

omit distinct in
/-- Recording the facts of all class files adds an edge for each use of a known class. -/
theorem exists_fact_dependency_iff {dependency dependent : String} :
    (∃ fact ∈ facts, fact.className = dependent ∧ dependency ∈ fact.dependencies) ↔
      ∃ source, g.Declares c source dependent ∧ g.Uses c source dependency := by
  have hexists := @exists_fact_iff g c dependent tree tells fun fact => dependency ∈ fact.dependencies
  simp only [← hfacts] at hexists
  rw [hexists]
  constructor
  · rintro ⟨source, content, hcontent, hdeclared, huses⟩
    rw [(tells source content dependent hcontent hdeclared).2.2] at huses
    exact ⟨source, ⟨content, hcontent, hdeclared⟩, content, hcontent, huses⟩
  · rintro ⟨source, ⟨content, hcontent, hdeclared⟩, content', hcontent', huses⟩
    obtain rfl : content = content' := Option.some.inj (hcontent.symm.trans hcontent')
    refine ⟨source, content, hcontent, hdeclared, ?_⟩
    rwa [(tells source content dependent hcontent hdeclared).2.2]

/-- The store of a full build that was told the facts of all class files describes the sources. -/
theorem describes_begun {storeAt : Path} {digests : Table}
    (hdigests : ∀ source, digests[source]? = (c source).map Sha256.hex) :
    g.Describes c (Build.begun storeAt tree digests facts) := by
  have hclasses (className source : String) :
      (Build.begun storeAt tree digests facts).classes[className]? = some source ↔
        g.Declares c source className := by
    rw [Build.begun, getElem?_classes_record_facts distinct tells hfacts]
    simp [Store.addSources, Store.new]
  refine ⟨fun source => ?_, hclasses, fun dependency dependent => ?_⟩
  · rw [Build.sources_begun, hdigests]
  · have hknown : dependency ∈ (Build.begun storeAt tree digests facts).classes ↔
        g.Declared c dependency := by
      simp only [Table.mem_iff_exists_getElem?, hclasses, Declared]
    have hnone : ¬((Store.new storeAt).addSources digests).HasEdge dependency dependent := fun hedge =>
      List.not_mem_nil ((Store.mem_edges_ofEdges [] _).1 hedge)
    have hedge := Store.hasEdge_record ((Store.new storeAt).addSources digests) Graph.sound_empty tree
      facts dependency dependent
    rw [or_iff_left hnone] at hedge
    rw [Build.begun, hedge]
    have hfact := @exists_fact_dependency_iff g c tree facts tells hfacts dependency dependent
    constructor
    · rintro ⟨fact, hmem, hname, hdependency, hclass⟩
      obtain ⟨source, hdeclares, huses⟩ := hfact.1 ⟨fact, hmem, hname, hdependency⟩
      exact ⟨source, hdeclares, huses, hknown.1 hclass⟩
    · rintro ⟨source, hdeclares, huses, hdeclared⟩
      obtain ⟨fact, hmem, hname, hdependency⟩ := hfact.2 ⟨source, hdeclares, huses⟩
      exact ⟨fact, hmem, hname, hdependency, hknown.2 hdeclared⟩

end Record

namespace Describes

theorem mem_classes_iff (h : g.Describes c s) : className ∈ s.classes ↔ g.Declared c className := by
  simp only [Table.mem_iff_exists_getElem?, h.classes, Declared]

theorem inStep (h : g.Describes c s) : s.InStep := by
  intro className source hclass
  obtain ⟨content, hcontent, -⟩ := (h.classes className source).1 hclass
  refine (Table.mem_iff_exists_getElem? _ _).2 ⟨Sha256.hex content, ?_⟩
  rw [h.sources, hcontent, Option.map_some]

/-- Two stores that describe the same sources have the same tables and edges. -/
theorem agrees (h : g.Describes c s) (h' : g.Describes c s') : s.Agrees s' := by
  refine ⟨Std.ExtTreeMap.ext_getElem? fun source => ?_, Std.ExtTreeMap.ext_getElem? fun className => ?_, ?_⟩
  · rw [h.sources, h'.sources]
  · refine Option.ext fun source => ?_
    rw [h.classes, h'.classes]
  · rintro ⟨dependency, dependent⟩
    exact (h'.edges dependency dependent).trans (h.edges dependency dependent).symm

/-- Without classes only digests are recorded. -/
theorem of_none (hnone : ∀ className, ¬g.Declared c className)
    (hsources : ∀ source, s.sources[source]? = (c source).map Sha256.hex) (hclasses : s.classes = ∅)
    (hedges : s.dependencies = Graph.ofEdges []) : g.Describes c s := by
  refine ⟨hsources, fun className source => ?_, fun dependency dependent => ?_⟩
  · rw [hclasses]
    exact iff_of_false (by simp) fun hdeclares => hnone className ⟨source, hdeclares⟩
  · rw [Store.HasEdge, hedges, Store.mem_edges_ofEdges]
    refine iff_of_false (by simp) ?_
    rintro ⟨source, hdeclares, -⟩
    exact hnone dependent ⟨source, hdeclares⟩

theorem of_agrees (h : g.Describes c s) (hagrees : s.Agrees s') : g.Describes c s' := by
  refine ⟨fun source => ?_, fun className source => ?_, fun dependency dependent => ?_⟩
  · rw [hagrees.sources, h.sources]
  · rw [hagrees.classes, h.classes]
  · exact (hagrees.edges (dependency, dependent)).trans (h.edges dependency dependent)

/-- What refers to one class of a source refers to all of them. -/
theorem hasEdge_of_same_source (h : g.Describes c s) {dependency dependent other : String}
    (hedge : s.HasEdge dependency dependent) (hsource : s.classes[dependent]? = some source)
    (hother : s.classes[other]? = some source) : s.HasEdge dependency other := by
  obtain ⟨source', hdeclares, huses, hdeclared⟩ := (h.edges dependency dependent).1 hedge
  obtain rfl : source = source' := by
    rw [← h.classes] at hdeclares
    exact Option.some.inj (hsource.symm.trans hdeclares)
  exact (h.edges dependency other).2 ⟨source, (h.classes other source).1 hother, huses, hdeclared⟩

/-- With one class of a source all of them are touched. -/
theorem touched_of_same_source (h : g.Describes c s) {changed : Names} {other : String}
    (htouched : s.Touched changed className) (hsource : s.classes[className]? = some source)
    (hother : s.classes[other]? = some source) : s.Touched changed other := by
  obtain ⟨seed, seedSource, hseed, hchanged, hpath⟩ := htouched
  rcases Relation.ReflTransGen.cases_tail hpath with heq | ⟨before, hbefore, hedge, -⟩
  · obtain rfl : seedSource = source := by
      rw [← heq, hsource] at hseed
      exact (Option.some.inj hseed).symm
    exact Store.touched_of_source hother hchanged
  · have hknown : other ∈ s.classes := (Table.mem_iff_exists_getElem? _ _).2 ⟨source, hother⟩
    exact Store.Touched.step ⟨seed, seedSource, hseed, hchanged, hbefore⟩
      ⟨h.hasEdge_of_same_source hedge hsource hother, hknown⟩

end Describes

end SourceLanguage

end Recompile
