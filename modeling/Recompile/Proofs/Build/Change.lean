import Recompile.Proofs.Build.Language

/-!
# What is compiled again after a change

A store describes the sources of the last success, and now there are others. The sources that a build
compiles again are the changed ones and those with a class that refers to something in a source that
is compiled again or gone. So what is left out is as it was, and what it uses is left out too. That
is all the compiler has to be shown, and it makes the updated store describe the sources that are
there now.
-/

namespace Recompile

open Build

/-- The store describes sources as they were. The table has the digests of those that are there now,
and no digest of an old content is one of a new content. -/
structure SourceLanguage.Change (g : SourceLanguage) (c₀ c : Contents) (store : Store)
    (table : Table) (affected : Names) : Prop where
  describes : g.Describes c₀ store
  sound : store.dependencies.Sound
  digests : ∀ source, table[source]? = (c source).map Sha256.hex
  same : ∀ source content content', c₀ source = some content → c source = some content' →
    Sha256.hex content = Sha256.hex content' → content = content'
  affected : store.affectedSources (Changes.between table store.sources).seeds = .ok affected

namespace SourceLanguage.Change

variable {g : SourceLanguage} {c₀ c : Contents} {store : Store} {table : Table} {affected : Names}
  {source className : String}

/-- What is to be done about the changes. -/
def plan (_ : g.Change c₀ c store table affected) : Plan :=
  Build.plan store (.between table store.sources) affected

/-- The source is neither compiled again nor gone. -/
structure LeftOut (h : g.Change c₀ c store table affected) (source : String) : Prop where
  not_recompiled : source ∉ h.plan.recompile
  not_deleted : source ∉ (Changes.between table store.sources).deleted

variable (h : g.Change c₀ c store table affected)

include h

theorem mem_table_iff : source ∈ table ↔ (c source).isSome := by
  rw [Std.ExtTreeMap.mem_iff_isSome_getElem?, h.digests, Option.isSome_map]

theorem mem_deleted_iff :
    source ∈ (Changes.between table store.sources).deleted ↔ (c₀ source).isSome ∧ c source = none := by
  rw [Changes.mem_deleted_between, h.mem_table_iff, Std.ExtTreeMap.mem_iff_isSome_getElem?,
    h.describes.sources, Option.isSome_map, Option.not_isSome_iff_eq_none]

/-- Only sources that are there are compiled again. -/
theorem isSome_of_recompile (hsource : source ∈ h.plan.recompile) : (c source).isSome :=
  h.mem_table_iff.1 (mem_of_recompile h.describes.inStep h.affected h.sound hsource)

theorem not_deleted_of_isSome (hsource : (c source).isSome) :
    source ∉ (Changes.between table store.sources).deleted := by
  rw [h.mem_deleted_iff]
  rintro ⟨-, hnone⟩
  rw [hnone] at hsource
  cases hsource

/-- A source that is left out is as it was. -/
theorem LeftOut.eq (hout : h.LeftOut source) : c source = c₀ source := by
  obtain ⟨hnot, hdeleted⟩ := hout
  cases hnow : c source with
  | none =>
    rw [h.mem_deleted_iff] at hdeleted
    cases hbefore : c₀ source with
    | none => rfl
    | some content => exact absurd ⟨by simp [hbefore], hnow⟩ hdeleted
  | some content =>
    have hunchanged : source ∉ (Changes.between table store.sources).changed := fun hchanged =>
      hnot ((mem_recompile_plan _ _ _ _).2 ⟨.inl hchanged, hdeleted⟩)
    rw [Table.mem_iff_exists_getElem?, Changes.getElem?_changed_between, h.digests, hnow,
      h.describes.sources] at hunchanged
    cases hbefore : c₀ source with
    | none => simp [hbefore] at hunchanged
    | some before =>
      have hsame : Sha256.hex before = Sha256.hex content := by
        simpa [hbefore, Option.filter] using hunchanged
      rw [h.same source before content hbefore hnow hsame]

/-- Every class of a source that is compiled again or gone is touched by the changes. -/
theorem touched_of_not_leftOut (hclass : store.classes[className]? = some source)
    (hout : ¬h.LeftOut source) :
    store.Touched (Changes.between table store.sources).seeds className := by
  have hin : source ∈ h.plan.recompile ∨ source ∈ (Changes.between table store.sources).deleted := by
    by_contra hnot
    rw [not_or] at hnot
    exact hout ⟨hnot.1, hnot.2⟩
  rcases hin with hrecompile | hdeleted
  · rcases ((mem_recompile_plan _ _ _ _).1 hrecompile).1 with hchanged | haffected
    · exact Store.touched_of_source hclass ((Changes.mem_seeds _ _).2 (.inl hchanged))
    · obtain ⟨affected', heq, hmem⟩ :=
        Store.affectedSources_eq_ok h.sound (Changes.between table store.sources).seeds
      obtain rfl : affected = affected' := Except.ok.inj (h.affected.symm.trans heq)
      obtain ⟨other, htouched, hother⟩ := (hmem source).1 haffected
      exact h.describes.touched_of_same_source htouched hother hclass
  · exact Store.touched_of_source hclass ((Changes.mem_seeds _ _).2 (.inr hdeleted))

theorem not_leftOut_of_touched (hclass : store.classes[className]? = some source)
    (htouched : store.Touched (Changes.between table store.sources).seeds className) :
    ¬h.LeftOut source := by
  rintro ⟨hnot, hdeleted⟩
  obtain ⟨affected', heq, hmem⟩ :=
    Store.affectedSources_eq_ok h.sound (Changes.between table store.sources).seeds
  obtain rfl : affected = affected' := Except.ok.inj (h.affected.symm.trans heq)
  exact hnot ((mem_recompile_plan _ _ _ _).2
    ⟨.inr ((hmem source).2 ⟨className, htouched, hclass⟩), hdeleted⟩)

/-- What a class of a source that is left out refers to is in a source that is left out. -/
theorem leftOut_of_hasEdge {dependency dependent used : String}
    (hedge : store.HasEdge dependency dependent) (hclass : store.classes[dependent]? = some source)
    (hused : store.classes[dependency]? = some used) (hout : h.LeftOut source) : h.LeftOut used := by
  by_contra hnot
  have hknown : dependent ∈ store.classes := (Table.mem_iff_exists_getElem? _ _).2 ⟨source, hclass⟩
  exact h.not_leftOut_of_touched hclass
    ((h.touched_of_not_leftOut hused hnot).step ⟨hedge, hknown⟩) hout

/-- A class is declared in a source that is compiled again, or it was declared in one that is left
out. -/
theorem declares_iff : g.Declares c source className ↔
    source ∈ h.plan.recompile ∧ g.Declares c source className ∨
      h.LeftOut source ∧ g.Declares c₀ source className := by
  constructor
  · intro hdeclares
    by_cases hmem : source ∈ h.plan.recompile
    · exact .inl ⟨hmem, hdeclares⟩
    · have hsome : (c source).isSome := by
        obtain ⟨content, hcontent, -⟩ := hdeclares
        simp [hcontent]
      have hout : h.LeftOut source := ⟨hmem, h.not_deleted_of_isSome hsome⟩
      exact .inr ⟨hout, (declares_congr hout.eq).1 hdeclares⟩
  · rintro (⟨-, hdeclares⟩ | ⟨hout, hdeclares⟩)
    · exact hdeclares
    · exact (declares_congr hout.eq).2 hdeclares

theorem staysCurrent_iff :
    StaysCurrent store h.plan (Changes.between table store.sources).deleted className ↔
      ∃ source, h.LeftOut source ∧ g.Declares c₀ source className := by
  simp only [StaysCurrent, h.describes.classes]
  constructor
  · rintro ⟨source, hdeclares, hnot, hdeleted⟩
    exact ⟨source, ⟨hnot, hdeleted⟩, hdeclares⟩
  · rintro ⟨source, ⟨hnot, hdeleted⟩, hdeclares⟩
    exact ⟨source, hdeclares, hnot, hdeleted⟩

theorem not_mem_stale_iff (hclass : store.classes[className]? = some source) :
    className ∉ h.plan.stale ↔ h.LeftOut source := by
  have hstale := mem_stale_plan store (.between table store.sources) affected className
  rw [plan, hstale]
  simp only [hclass, Option.some.injEq, exists_eq_left', not_or]
  exact ⟨fun hnot => ⟨hnot.1, hnot.2⟩, fun hout => ⟨hout.not_recompiled, hout.not_deleted⟩⟩

/-- The classes of the sources that are compiled again, and those that stay, are all that are
declared. -/
theorem declared_iff : g.Declared c className ↔ g.Declared (c.only h.plan.recompile) className ∨
    StaysCurrent store h.plan (Changes.between table store.sources).deleted className := by
  simp only [Declared, declares_only, h.staysCurrent_iff, ← exists_or]
  exact exists_congr fun source => h.declares_iff

/-! ## What the compiler accepts -/

/-- A compiler that is shown the sources to compile and the classes that stay accepts these sources
as it does among all. -/
theorem accepts_only_iff :
    g.AcceptsWith (c.only h.plan.recompile)
      (StaysCurrent store h.plan (Changes.between table store.sources).deleted) ↔
      ∀ source ∈ h.plan.recompile, g.Accepts c source := by
  simp only [AcceptsWith, ← h.declared_iff, uses_only, erroneous_only, Accepts, Resolves, not_and, and_imp]
  exact forall_congr' fun source => ⟨fun hall hmem => ⟨hall.1 hmem, fun name => hall.2 name hmem⟩,
    fun hall => ⟨fun hmem => (hall hmem).1, fun name hmem => (hall hmem).2 name⟩⟩

variable (hsettled : g.Settled c₀)

include hsettled

/-- What is used in a source with a class that is left out is declared in one that is left out. -/
theorem leftOut_of_uses {name : String} (hout : h.LeftOut source)
    (hclass : g.Declares c₀ source className) (huses : g.Uses c₀ source name) :
    store.HasEdge name className ∧ ∃ used, h.LeftOut used ∧ g.Declares c₀ used name := by
  obtain ⟨used, hused⟩ := (hsettled source).2 ⟨className, hclass⟩ name huses
  have hedge : store.HasEdge name className :=
    (h.describes.edges name className).2 ⟨source, hclass, huses, used, hused⟩
  exact ⟨hedge, used, h.leftOut_of_hasEdge hedge ((h.describes.classes className source).2 hclass)
    ((h.describes.classes name used).2 hused) hout, hused⟩

/-- A source that is left out has no error, and if it has a class it resolves. -/
theorem LeftOut.isSettled (hout : h.LeftOut source) :
    ¬g.Erroneous c source ∧ ((∃ className, g.Declares c source className) → g.Resolves c source) := by
  rw [erroneous_congr hout.eq]
  refine ⟨(hsettled source).1, ?_⟩
  rintro ⟨className, hclass⟩ name huses
  obtain ⟨-, used, hused, hdeclares⟩ := h.leftOut_of_uses hsettled hout
    ((declares_congr hout.eq).1 hclass) ((uses_congr hout.eq).1 huses)
  exact ⟨used, (declares_congr hused.eq).2 hdeclares⟩

theorem isSettled_or (source : String) : source ∈ h.plan.recompile ∨
    ¬g.Erroneous c source ∧ ((∃ className, g.Declares c source className) → g.Resolves c source) := by
  by_cases hmem : source ∈ h.plan.recompile
  · exact .inl hmem
  · by_cases hdeleted : source ∈ (Changes.between table store.sources).deleted
    · have hnone := (h.mem_deleted_iff.1 hdeleted).2
      refine .inr ⟨?_, ?_⟩
      · rintro ⟨content, hcontent, -⟩
        simp [hnone] at hcontent
      · rintro ⟨className, content, hcontent, -⟩
        simp [hnone] at hcontent
    · exact .inr (LeftOut.isSettled h hsettled ⟨hmem, hdeleted⟩)

/-- If what is compiled again is accepted, the sources are settled again. -/
theorem settled_of_accepts (haccepts : ∀ source ∈ h.plan.recompile, g.Accepts c source) : g.Settled c := by
  intro source
  rcases h.isSettled_or hsettled source with hmem | hleft
  · exact ⟨(haccepts source hmem).1, fun _ => (haccepts source hmem).2⟩
  · exact hleft

/-! ## The updated store -/

/-- An edge stays if it is one of a source that is left out. -/
theorem hasEdge_stays_iff {dependency dependent : String} :
    (store.HasEdge dependency dependent ∧ dependency ∉ h.plan.stale ∧ dependent ∉ h.plan.stale) ↔
      ∃ source, h.LeftOut source ∧ g.Declares c source dependent ∧ g.Uses c source dependency := by
  constructor
  · rintro ⟨hedge, -, hstays⟩
    obtain ⟨source, hdeclares, huses, -⟩ := (h.describes.edges dependency dependent).1 hedge
    have hout := (h.not_mem_stale_iff ((h.describes.classes dependent source).2 hdeclares)).1 hstays
    exact ⟨source, hout, (declares_congr hout.eq).2 hdeclares, (uses_congr hout.eq).2 huses⟩
  · rintro ⟨source, hout, hdeclares, huses⟩
    rw [declares_congr hout.eq] at hdeclares
    rw [uses_congr hout.eq] at huses
    obtain ⟨hedge, used, hused, hdeclared⟩ := h.leftOut_of_uses hsettled hout hdeclares huses
    exact ⟨hedge, (h.not_mem_stale_iff ((h.describes.classes dependency used).2 hdeclared)).2 hused,
      (h.not_mem_stale_iff ((h.describes.classes dependent source).2 hdeclares)).2 hout⟩

section Updated

variable {tree : Path} {facts : List ClassFact} (distinct : g.Distinct c) (tells : g.TellsAll c tree)
  (hfacts : ∀ fact, fact ∈ facts ↔ g.IsFact (c.only h.plan.recompile) fact)
  (haccepts : ∀ source ∈ h.plan.recompile, g.Accepts c source)

include distinct tells hfacts haccepts

/-- The updated store describes the sources that are there now. -/
theorem describes_updated :
    g.Describes c (updated store h.plan (.between table store.sources) tree facts) := by
  have hsources : (updated store h.plan (.between table store.sources) tree facts).sources = table :=
    Store.sources_patch_between store table
  have hclasses (className source : String) :
      (updated store h.plan (.between table store.sources) tree facts).classes[className]? = some source ↔
        g.Declares c source className := by
    have hstrip : ((strip store h.plan (Changes.between table store.sources).deleted).addSources
        (Changes.between table store.sources).changed).classes[className]? =
          if className ∈ h.plan.stale then none else store.classes[className]? :=
      store.getElem?_classes_deleteClasses _ _
    have hleft : (if className ∈ h.plan.stale then none else store.classes[className]?) = some source ↔
        h.LeftOut source ∧ g.Declares c₀ source className := by
      rw [← h.describes.classes]
      by_cases hclass : store.classes[className]? = some source
      · simp [hclass, ← h.not_mem_stale_iff hclass]
      · simp [hclass]
    rw [updated, getElem?_classes_record_facts (distinct.only _) (tells.only _) hfacts, hstrip, hleft,
      declares_only]
    refine Iff.trans (or_congr_right (and_iff_right_of_imp ?_)) h.declares_iff.symm
    rintro ⟨hout, hdeclares⟩ ⟨source', hdeclares'⟩
    obtain ⟨hmem, hdeclares'⟩ := declares_only.1 hdeclares'
    obtain rfl := distinct className source source' (h.declares_iff.2 (.inr ⟨hout, hdeclares⟩)) hdeclares'
    exact hout.not_recompiled hmem
  refine ⟨fun source => by rw [hsources, h.digests], hclasses, fun dependency dependent => ?_⟩
  have hknown : dependency ∈ (updated store h.plan (.between table store.sources) tree facts).classes ↔
      g.Declared c dependency := by
    simp only [Table.mem_iff_exists_getElem?, hclasses, Declared]
  have hfact := @exists_fact_dependency_iff g _ tree facts (tells.only _) hfacts dependency dependent
  simp only [declares_only, uses_only] at hfact
  have hresolves := h.settled_of_accepts hsettled haccepts
  rw [hasEdge_updated h.sound, h.hasEdge_stays_iff hsettled, hknown]
  constructor
  · rintro (⟨fact, hmem, hname, hdependency, hdeclared⟩ | ⟨source, hout, hdeclares, huses⟩)
    · obtain ⟨source, ⟨-, hdeclares⟩, -, huses⟩ := hfact.1 ⟨fact, hmem, hname, hdependency⟩
      exact ⟨source, hdeclares, huses, hdeclared⟩
    · exact ⟨source, hdeclares, huses, (hresolves source).2 ⟨dependent, hdeclares⟩ dependency huses⟩
  · rintro ⟨source, hdeclares, huses, hdeclared⟩
    rcases h.declares_iff.1 hdeclares with ⟨hmem, -⟩ | ⟨hout, -⟩
    · obtain ⟨fact, hfact, hname, hdependency⟩ := hfact.2 ⟨source, ⟨hmem, hdeclares⟩, hmem, huses⟩
      exact .inl ⟨fact, hfact, hname, hdependency, hdeclared⟩
    · exact .inr ⟨source, hout, hdeclares, huses⟩

end Updated

omit hsettled

/-! ## What is published -/

/-- Publishing the classes of the sources that were compiled again leaves the class files of all. -/
theorem holdsClasses_published {b o : Location} {d d' : Disk} (distinct : g.Distinct c)
    (hbefore : g.HoldsClasses c₀ o d)
    (hwritten : ∀ source content className, c.only h.plan.recompile source = some content →
      className ∈ (g.read source content).declares →
      d.fileAt (b ++ ClassName.artifactNames className) = some (g.classFile source content className))
    (hpublished : Staging.PublishedFrom b o (· ∈ h.plan.stale) (g.Declared (c.only h.plan.recompile))
      d d') : g.HoldsClasses c o d' := by
  intro names bytes
  by_cases hproduced : ∃ className, g.Declared (c.only h.plan.recompile) className ∧
      names = ClassName.artifactNames className
  · obtain ⟨className, ⟨source, content, hcontent, hmem⟩, rfl⟩ := hproduced
    obtain ⟨bytes', hbytes', hcopied⟩ := hpublished.copied className ⟨source, content, hcontent, hmem⟩
    obtain rfl := hcopied _ (hwritten source content className hcontent hmem)
    have hnow := (Contents.only_eq_some_iff.1 hcontent).2
    rw [hbytes', Option.some.injEq]
    constructor
    · rintro rfl
      exact ⟨source, content, className, hnow, hmem, rfl, rfl⟩
    · rintro ⟨source', content', other, hcontent', hmem', hnames, rfl⟩
      obtain rfl := ClassName.artifactNames_injective hnames
      obtain rfl := distinct className source source' ⟨content, hnow, hmem⟩ ⟨content', hcontent', hmem'⟩
      obtain rfl : content = content' := Option.some.inj (hnow.symm.trans hcontent')
      rfl
  by_cases hdropped : ∃ className, className ∈ h.plan.stale ∧ names = ClassName.artifactNames className
  · obtain ⟨className, hstale, rfl⟩ := hdropped
    have hnot : ¬g.Declared (c.only h.plan.recompile) className := fun hclass =>
      hproduced ⟨className, hclass, rfl⟩
    rw [hpublished.gone className hstale hnot]
    refine iff_of_false (by simp) ?_
    rintro ⟨source, content, other, hcontent, hmem, hnames, -⟩
    obtain rfl := ClassName.artifactNames_injective hnames
    rcases h.declares_iff.1 ⟨content, hcontent, hmem⟩ with hin | ⟨hout, hdeclares⟩
    · exact hnot ⟨source, declares_only.2 hin⟩
    · exact (h.not_mem_stale_iff ((h.describes.classes className source).2 hdeclares)).2 hout hstale
  have hneither (className : String) (hclass : className ∈ h.plan.stale ∨
      g.Declared (c.only h.plan.recompile) className) : names ≠ ClassName.artifactNames className := by
    rintro rfl
    exact hclass.elim (fun hstale => hdropped ⟨className, hstale, rfl⟩)
      fun hdeclared => hproduced ⟨className, hdeclared, rfl⟩
  rw [hpublished.others names hneither, hbefore]
  constructor
  · rintro ⟨source, content, className, hcontent, hmem, rfl, rfl⟩
    have hclass := (h.describes.classes className source).2 ⟨content, hcontent, hmem⟩
    have hout := (h.not_mem_stale_iff hclass).1 fun hstale => hneither className (.inl hstale) rfl
    exact ⟨source, content, className, hout.eq.trans hcontent, hmem, rfl, rfl⟩
  · rintro ⟨source, content, className, hcontent, hmem, rfl, rfl⟩
    rcases h.declares_iff.1 ⟨content, hcontent, hmem⟩ with hin | ⟨hout, -⟩
    · exact absurd rfl (hneither className (.inr ⟨source, declares_only.2 hin⟩))
    · exact ⟨source, content, className, hout.eq.symm.trans hcontent, hmem, rfl, rfl⟩

/-! ## Nothing to compile -/

section Nothing

variable (hempty : h.plan.recompile.isEmpty)

include hempty

theorem not_mem_recompile (source : String) : source ∉ h.plan.recompile := by
  rw [Std.ExtTreeSet.isEmpty_iff.1 hempty]
  exact Std.ExtTreeSet.not_mem_empty

theorem not_declared_only : ¬g.Declared (c.only h.plan.recompile) className := by
  rintro ⟨source, hdeclares⟩
  exact h.not_mem_recompile hempty source (declares_only.1 hdeclares).1

/-- If nothing has to be compiled and no source is gone, nothing has changed. -/
theorem eq_of_nothing (hdeleted : (Changes.between table store.sources).deleted.isEmpty) : c = c₀ := by
  funext source
  refine LeftOut.eq h ⟨h.not_mem_recompile hempty source, ?_⟩
  rw [Std.ExtTreeSet.isEmpty_iff.1 hdeleted]
  exact Std.ExtTreeSet.not_mem_empty

/-- A pruned store describes the sources that are there now. -/
theorem describes_strip {tree : Path} (hsettled : g.Settled c₀) (distinct : g.Distinct c)
    (tells : g.TellsAll c tree) :
    g.Describes c (strip store h.plan (Changes.between table store.sources).deleted) := by
  have hfacts (fact : ClassFact) : fact ∈ [] ↔ g.IsFact (c.only h.plan.recompile) fact := by
    refine iff_of_false List.not_mem_nil ?_
    rintro ⟨source, content, className, hcontent, -⟩
    exact h.not_mem_recompile hempty source (Contents.only_eq_some_iff.1 hcontent).1
  have hupdated := h.describes_updated hsettled distinct tells hfacts fun source hmem =>
    absurd hmem (h.not_mem_recompile hempty source)
  have hreadied : Readied (fun _ => True) tree store (.between table store.sources) h.plan
      (.pruned (strip store h.plan (Changes.between table store.sources).deleted) h.plan.stale) :=
    ⟨hempty, rfl, rfl⟩
  have hsources : (strip store h.plan (Changes.between table store.sources).deleted).sources = table :=
    sources_of_readied hreadied rfl
  exact ⟨fun source => by rw [hsources, h.digests], hupdated.classes, hupdated.edges⟩

end Nothing

end SourceLanguage.Change

end Recompile
