import Recompile.Proofs.Text.Affix
import Recompile.Toolchain.Jdeps

/-!
# Adding listed references

The references of a listing are added line by line. `Added` tells by membership what some lines add
to some facts, and that it depends on the set of the lines alone; adding stops at the first reference
from an unknown class and has then added what the lines before it say.
-/

namespace Recompile.Jdeps

/-- The line begins with a blank and says that the class `source` refers to the class `target`, which
is not of the standard library. -/
structure EdgeLine (line source target : String) : Prop where
  indented : ∃ c ∈ line.toList.head?, Text.isBlank c = true
  words : ∃ more, Text.words line = source :: "->" :: target :: more
  foreign : ∀ start ∈ ["java.", "javax.", "javafx."], ¬start.toList <+: target.toList

variable {line source target : String} {lines : List String} {facts facts' : Facts}

theorem isStandard_eq_false_iff {className : String} : isStandard className = false ↔
    ∀ start ∈ ["java.", "javax.", "javafx."], ¬start.toList <+: className.toList := by
  have key (start : String) :
      Text.startsWith start className = true ↔ start.toList <+: className.toList := by
    rw [Text.startsWith_iff]
    constructor
    · rintro ⟨rest, rfl⟩
      exact ⟨rest.toList, (String.toList_append ..).symm⟩
    · rintro ⟨rest, hrest⟩
      refine ⟨String.ofList rest, ?_⟩
      rw [← String.toList_inj, String.toList_append, String.toList_ofList, hrest]
  simp only [isStandard, List.any_eq_false, key]

theorem reference?_eq_some_iff :
    reference? line = some (source, target) ↔ EdgeLine line source target := by
  have hindented : line.toList.head?.any Text.isBlank = true ↔
      ∃ c ∈ line.toList.head?, Text.isBlank c = true := by
    cases line.toList.head? <;> simp
  constructor
  · intro h
    unfold reference? at h
    split_ifs at h with hblank
    split at h
    case h_1 from' to' more hwords =>
      split_ifs at h with hstandard
      obtain ⟨rfl, rfl⟩ := Prod.mk.inj (Option.some.inj h)
      exact ⟨hindented.1 hblank, ⟨more, hwords⟩,
        isStandard_eq_false_iff.1 (Bool.eq_false_iff.2 hstandard)⟩
    case h_2 => cases h
  · rintro ⟨hblank, ⟨more, hwords⟩, hforeign⟩
    rw [reference?, if_pos (hindented.2 hblank), hwords]
    exact if_neg (Bool.eq_false_iff.1 (isStandard_eq_false_iff.2 hforeign))

theorem EdgeLine.unique {source' target' : String} (h : EdgeLine line source target)
    (h' : EdgeLine line source' target') : source = source' ∧ target = target' := by
  have hsame := reference?_eq_some_iff.2 h
  rw [reference?_eq_some_iff.2 h', Option.some.injEq, Prod.mk.injEq] at hsame
  exact ⟨hsame.1.symm, hsame.2.symm⟩

/-- One fact after what the lines say of its class: it refers to what it did and to what the lines
name, and is the same otherwise. -/
structure Extended (lines : List String) (name : String) (fact fact' : ClassFact) : Prop where
  className : fact'.className = fact.className
  source : fact'.source = fact.source
  mem_dependencies : ∀ target, target ∈ fact'.dependencies ↔
    target ∈ fact.dependencies ∨ ∃ line ∈ lines, EdgeLine line name target

/-- The facts after what the lines say: a class that was unknown is so still, and each fact is
extended by the lines about its class. -/
structure Added (lines : List String) (facts facts' : Facts) : Prop where
  unknown : ∀ name : String, facts[name]? = none → facts'[name]? = none
  known : ∀ (name : String) (fact : ClassFact), facts[name]? = some fact →
    ∃ fact', facts'[name]? = some fact' ∧ Extended lines name fact fact'

/-- Every line that states a reference states it of a known class. -/
def AllKnown (lines : List String) (facts : Facts) : Prop :=
  ∀ line ∈ lines, ∀ source target, EdgeLine line source target → source ∈ facts

section Extended

variable {name : String} {fact fact' fact'' : ClassFact} {lines' : List String}

theorem Extended.of_silent (h : ∀ line ∈ lines, ∀ target, ¬EdgeLine line name target)
    (fact : ClassFact) : Extended lines name fact fact :=
  ⟨rfl, rfl, fun target => ⟨.inl, fun hold =>
    hold.resolve_right fun ⟨line, hline, hedge⟩ => h line hline target hedge⟩⟩

theorem Extended.of_edge (h : EdgeLine line name target) (fact : ClassFact) :
    Extended [line] name fact { fact with dependencies := fact.dependencies.insert target } := by
  refine ⟨rfl, rfl, fun other => ?_⟩
  simp only [Std.ExtTreeSet.mem_insert, Std.LawfulEqCmp.compare_eq_iff_eq, List.mem_singleton,
    exists_eq_left]
  constructor
  · rintro (rfl | hother)
    · exact .inr h
    · exact .inl hother
  · rintro (hother | hedge)
    · exact .inr hother
    · exact .inl (h.unique hedge).2

theorem Extended.trans (h : Extended lines name fact fact') (h' : Extended lines' name fact' fact'') :
    Extended (lines ++ lines') name fact fact'' := by
  refine ⟨h'.className.trans h.className, h'.source.trans h.source, fun target => ?_⟩
  rw [h'.mem_dependencies, h.mem_dependencies, or_assoc]
  simp only [List.mem_append, or_and_right, exists_or]

theorem Extended.unique (h : Extended lines name fact fact') (h' : Extended lines name fact fact'') :
    fact' = fact'' := by
  have hdependencies : fact'.dependencies = fact''.dependencies :=
    Std.ExtTreeSet.ext_mem fun target => (h.mem_dependencies target).trans
      (h'.mem_dependencies target).symm
  obtain ⟨hclass, hsource⟩ := And.intro (h.className.trans h'.className.symm)
    (h.source.trans h'.source.symm)
  cases fact'
  cases fact''
  simp_all

/-- The order and the number of the lines do not matter. -/
theorem Extended.congr (h : Extended lines name fact fact')
    (hlines : ∀ line, line ∈ lines ↔ line ∈ lines') : Extended lines' name fact fact' := by
  refine ⟨h.className, h.source, fun target => ?_⟩
  simp only [h.mem_dependencies, hlines]

theorem Extended.again (h : Extended lines name fact fact') : Extended lines name fact' fact' :=
  ⟨rfl, rfl, fun target => ⟨.inl, fun hold => hold.elim id fun hstated =>
    (h.mem_dependencies target).2 (.inr hstated)⟩⟩

end Extended

namespace Added

variable {facts'' : Facts} {lines' : List String}

theorem of_silent (h : ∀ line ∈ lines, ∀ source target, ¬EdgeLine line source target)
    (facts : Facts) : Added lines facts facts where
  unknown _ := id
  known name fact hfact := ⟨fact, hfact, .of_silent (fun line hline => h line hline name) fact⟩

theorem of_edge {fact : ClassFact} (h : EdgeLine line source target)
    (hfact : facts[source]? = some fact) :
    Added [line] facts
      (facts.insert source { fact with dependencies := fact.dependencies.insert target }) := by
  have hother : ∀ {name : String}, source ≠ name →
      ∀ line' ∈ [line], ∀ target', ¬EdgeLine line' name target' := by
    intro name hname line' hline' target' hedge
    rw [List.mem_singleton.1 hline'] at hedge
    exact hname (h.unique hedge).1
  refine ⟨fun name hnone => ?_, fun name old hold => ?_⟩
  · have hname : source ≠ name := by
      rintro rfl
      rw [hfact] at hnone
      cases hnone
    simpa [Std.ExtTreeMap.getElem?_insert, hname] using hnone
  · by_cases hname : source = name
    · subst hname
      obtain rfl : fact = old := Option.some.inj (hfact.symm.trans hold)
      exact ⟨_, Std.ExtTreeMap.getElem?_insert_self, .of_edge h fact⟩
    · refine ⟨old, ?_, .of_silent (hother hname) old⟩
      simpa [Std.ExtTreeMap.getElem?_insert, hname] using hold

theorem trans (h : Added lines facts facts') (h' : Added lines' facts' facts'') :
    Added (lines ++ lines') facts facts'' where
  unknown name hname := h'.unknown name (h.unknown name hname)
  known name fact hfact := by
    obtain ⟨fact', hfact', hextended⟩ := h.known name fact hfact
    obtain ⟨fact'', hfact'', hextended'⟩ := h'.known name fact' hfact'
    exact ⟨fact'', hfact'', hextended.trans hextended'⟩

theorem unique (h : Added lines facts facts') (h' : Added lines facts facts'') :
    facts' = facts'' := by
  refine Std.ExtTreeMap.ext_getElem? fun name => ?_
  cases hfact : facts[name]? with
  | none => rw [h.unknown name hfact, h'.unknown name hfact]
  | some fact =>
    obtain ⟨fact', hfact', hextended⟩ := h.known name fact hfact
    obtain ⟨fact'', hfact'', hextended'⟩ := h'.known name fact hfact
    rw [hfact', hfact'', hextended.unique hextended']

theorem congr (h : Added lines facts facts') (hlines : ∀ line, line ∈ lines ↔ line ∈ lines') :
    Added lines' facts facts' where
  unknown := h.unknown
  known name fact hfact := by
    obtain ⟨fact', hfact', hextended⟩ := h.known name fact hfact
    exact ⟨fact', hfact', hextended.congr hlines⟩

theorem again (h : Added lines facts facts') : Added lines facts' facts' where
  unknown _ := id
  known name fact' hfact' := by
    cases hfact : facts[name]? with
    | none => rw [h.unknown name hfact] at hfact'; cases hfact'
    | some fact =>
      obtain ⟨other, hother, hextended⟩ := h.known name fact hfact
      obtain rfl : other = fact' := Option.some.inj (hother.symm.trans hfact')
      exact ⟨other, hother, hextended.again⟩

theorem mem_iff (h : Added lines facts facts') (name : String) : name ∈ facts' ↔ name ∈ facts := by
  rw [Std.ExtTreeMap.mem_iff_isSome_getElem?, Std.ExtTreeMap.mem_iff_isSome_getElem?]
  cases hfact : facts[name]? with
  | none => rw [h.unknown name hfact]
  | some fact =>
    obtain ⟨fact', hfact', -⟩ := h.known name fact hfact
    rw [hfact']
    rfl

end Added

/-- Adds what the lines say, one after another. -/
def addLines (lines : List String) (facts : Facts) : Except Failure Unit × Facts :=
  addAll (lines.filterMap reference?) facts

theorem addLines_of_plain (h : reference? line = none) (lines : List String) (facts : Facts) :
    addLines (line :: lines) facts = addLines lines facts := by
  rw [addLines, List.filterMap_cons_none h, addLines]

theorem addLines_of_edge (h : EdgeLine line source target) {fact : ClassFact}
    (hfact : facts[source]? = some fact) (lines : List String) :
    addLines (line :: lines) facts = addLines lines
      (facts.insert source { fact with dependencies := fact.dependencies.insert target }) := by
  rw [addLines, List.filterMap_cons_some (reference?_eq_some_iff.2 h), addAll, hfact, addLines]

theorem addLines_of_unknown (h : EdgeLine line source target) (hfact : facts[source]? = none)
    (lines : List String) :
    addLines (line :: lines) facts = (.error (Cause.classNotFound source : Failure), facts) := by
  rw [addLines, List.filterMap_cons_some (reference?_eq_some_iff.2 h), addAll, hfact]

/-- The lines state only references of known classes, up to a first one that does not. -/
def StopsAt (lines before : List String) (source : String) (facts : Facts) : Prop :=
  ∃ line after target, lines = before ++ line :: after ∧ AllKnown before facts ∧
    EdgeLine line source target ∧ source ∉ facts

theorem StopsAt.not_allKnown {before : List String} (h : StopsAt lines before source facts) :
    ¬AllKnown lines facts := by
  obtain ⟨line, after, target, rfl, -, hedge, hunknown⟩ := h
  intro hknown
  exact hunknown (hknown line (by simp) source target hedge)

theorem AllKnown.cons (h : ∀ source target, EdgeLine line source target → source ∈ facts)
    (hlines : AllKnown lines facts) : AllKnown (line :: lines) facts := by
  intro other hother
  rcases List.mem_cons.1 hother with rfl | hother
  · exact h
  · exact hlines other hother

theorem AllKnown.of_mem_iff (h : AllKnown lines facts) (hfacts : ∀ name, name ∈ facts' ↔ name ∈ facts) :
    AllKnown lines facts' :=
  fun line hline source target hedge => (hfacts source).2 (h line hline source target hedge)

/-- How the additions of some lines to some facts end. -/
inductive Ends (lines : List String) (facts : Facts) : Except Failure Unit × Facts → Prop
  | all {facts' : Facts} (known : AllKnown lines facts) (added : Added lines facts facts') :
    Ends lines facts (.ok (), facts')
  | stopped {before : List String} {source : String} {facts' : Facts}
    (stops : StopsAt lines before source facts) (added : Added before facts facts') :
    Ends lines facts (.error (Cause.classNotFound source : Failure), facts')

/-- A line in front that adds what it says. -/
theorem Ends.cons {step : Facts} {result : Except Failure Unit × Facts} (h : Ends lines step result)
    (hknown : ∀ source target, EdgeLine line source target → source ∈ facts)
    (hstep : Added [line] facts step) : Ends (line :: lines) facts result := by
  have hback : ∀ name, name ∈ facts ↔ name ∈ step := fun name => (hstep.mem_iff name).symm
  cases h with
  | all known added => exact .all (.cons hknown (known.of_mem_iff hback)) (hstep.trans added)
  | @stopped before source _ stops added =>
    obtain ⟨stop, after, target, rfl, hbefore, hedge, hunknown⟩ := stops
    exact .stopped ⟨stop, after, target, rfl, .cons hknown (hbefore.of_mem_iff hback), hedge,
      mt (hback source).1 hunknown⟩ (hstep.trans added)

theorem ends_addLines (lines : List String) (facts : Facts) :
    Ends lines facts (addLines lines facts) := by
  induction lines generalizing facts with
  | nil => exact .all (by simp [AllKnown]) (.of_silent (by simp) facts)
  | cons line lines ih =>
    cases href : reference? line with
    | none =>
      have hsilent : ∀ source target, ¬EdgeLine line source target := by
        intro source target hedge
        rw [reference?_eq_some_iff.2 hedge] at href
        cases href
      rw [addLines_of_plain href]
      exact (ih facts).cons (fun source target hedge => absurd hedge (hsilent source target))
        (.of_silent (by simpa using hsilent) facts)
    | some reference =>
      obtain ⟨source, target⟩ := reference
      have hedge := reference?_eq_some_iff.1 href
      cases hfact : facts[source]? with
      | none =>
        have hunknown : source ∉ facts := by simp [Std.ExtTreeMap.mem_iff_isSome_getElem?, hfact]
        have stops : StopsAt (line :: lines) [] source facts :=
          ⟨line, lines, target, rfl, by simp [AllKnown], hedge, hunknown⟩
        rw [addLines_of_unknown hedge hfact]
        exact .stopped stops (.of_silent (by simp) facts)
      | some fact =>
        have hmem : source ∈ facts := by simp [Std.ExtTreeMap.mem_iff_isSome_getElem?, hfact]
        rw [addLines_of_edge hedge hfact]
        refine (ih _).cons (fun other target' hedge' => ?_) (.of_edge hedge hfact)
        rwa [← (hedge.unique hedge').1]

/-- References of known classes are all added, whichever way the result is known. -/
theorem addLines_eq (h : AllKnown lines facts) (hadded : Added lines facts facts') :
    addLines lines facts = (.ok (), facts') := by
  have hends := ends_addLines lines facts
  generalize addLines lines facts = result at hends
  cases hends with
  | all _ added => rw [added.unique hadded]
  | stopped stops => exact absurd h stops.not_allKnown

/-- Listed references are added exactly, up to the first one from an unknown class. -/
theorem addTo_adds_exactly (listing : String) (facts : Facts) :
    (AllKnown (Text.lines listing) facts ∧
        (addTo facts listing).1 = .ok () ∧
        Added (Text.lines listing) facts (addTo facts listing).2 ∧
        (∀ other, (∀ line, line ∈ Text.lines other ↔ line ∈ Text.lines listing) →
          addTo facts other = addTo facts listing) ∧
        addTo (addTo facts listing).2 listing = addTo facts listing) ∨
      ∃ before source, StopsAt (Text.lines listing) before source facts ∧
        (addTo facts listing).1 = .error (Cause.classNotFound source : Failure) ∧
        Added before facts (addTo facts listing).2 := by
  have hends : Ends (Text.lines listing) facts (addTo facts listing) := ends_addLines _ facts
  generalize hresult : addTo facts listing = result at hends
  cases hends with
  | all known added =>
    refine .inl ⟨known, rfl, added, fun other hother => ?_, ?_⟩
    · have known' : AllKnown (Text.lines other) facts :=
        fun line hline => known line ((hother line).1 hline)
      exact addLines_eq known' (added.congr fun line => (hother line).symm)
    · exact addLines_eq (known.of_mem_iff added.mem_iff) added.again
  | stopped stops added => exact .inr ⟨_, _, stops, rfl, added⟩

end Recompile.Jdeps
