import Recompile.Proofs.Staging

/-!
# What a workspace holds

The classpath of a workspace mirrors the output directory: it holds the files of the classes that
were staged and no other files, each with the bytes that the class has in the output directory. No
place is written twice, since classes with different names have different files, so what was there
stays as it was and can be read as before.
-/

namespace Recompile

open Directory Disk World

theorem ClassName.artifactNames_injective : Function.Injective ClassName.artifactNames := by
  intro c c' h
  simp only [artifactNames] at h
  obtain ⟨hinit, hlast⟩ := List.append_inj' h rfl
  simp only [List.cons.injEq, and_true] at hlast
  have hname : (Text.fields '.' c).getLastD "" = (Text.fields '.' c').getLastD "" := by
    simpa [← String.toList_inj] using hlast
  have hfields : Text.fields '.' c = Text.fields '.' c' := by
    rw [fields_eq c, fields_eq c', hinit, hname]
  rw [← Text.unfields_fields '.' c, hfields, Text.unfields_fields]

namespace Disk

variable {d d' : Disk} {l : Location}

/-- What is on the one disk is on the other, just as it is. -/
def Extends (d d' : Disk) : Prop := ∀ m e, d.find? m = some e → d'.find? m = some e

theorem Extends.trans {d'' : Disk} (h : Extends d d') (h' : Extends d' d'') : Extends d d'' :=
  fun m e hm => h' m e (h m e hm)

theorem Extends.fileAt {m : Location} {bytes : ByteArray} (h : Extends d d')
    (hm : d.fileAt m = some bytes) : d'.fileAt m = some bytes := by
  obtain ⟨runnable, hfind⟩ := fileAt_eq_some_iff.1 hm
  exact fileAt_eq_some_iff.2 ⟨runnable, h m _ hfind⟩

theorem Extends.resolve_file {cwd m : Location} {p : Path} {bytes : ByteArray} (h : Extends d d')
    (hresolve : d.resolve cwd true p = .ok m) (hm : d.fileAt m = some bytes) :
    d'.resolve cwd true p = .ok m := by
  obtain ⟨runnable, hfind⟩ := fileAt_eq_some_iff.1 hm
  exact resolve_of_keeps (.of_subset h) (fun target _ => by simp [hfind]) hresolve

theorem Extends.readFile {cwd : Location} {p : Path} {bytes : ByteArray} (h : Extends d d')
    (hread : d.readFile cwd p = .ok bytes) : d'.readFile cwd p = .ok bytes := by
  obtain ⟨m, hresolve, hm⟩ := readFile_eq_ok_iff_fileAt.1 hread
  exact readFile_eq_ok_iff_fileAt.2 ⟨m, h.resolve_file hresolve hm, h.fileAt hm⟩

theorem DirectoriesAdded.extends (h : d.DirectoriesAdded d') : Extends d d' := by
  intro m e hm
  rcases h m with hsame | ⟨hnone, -⟩
  · rw [hsame, hm]
  · rw [hm] at hnone
    cases hnone

theorem DirectoriesAdded.fileAt (h : d.DirectoriesAdded d') (m : Location) :
    d'.fileAt m = d.fileAt m := by
  unfold Disk.fileAt
  rcases h m with hsame | ⟨hnone, hdir⟩
  · rw [hsame]
  · rw [hnone, hdir]

theorem FilePut.extends (h : FilePut l d d') (hnone : d.find? l = none) : Extends d d' := by
  intro m e hm
  have hne : m ≠ l := by
    rintro rfl
    rw [hnone] at hm
    cases hm
  rw [h.other m hne, hm]

end Disk

namespace Staging

attribute [local irreducible] Action.wp

variable {w w₁ w₂ w₃ : World} {ws : Workspace} {a b l : Location} {output source : Path}
  {classes done : List String} {className : String}

/-- The file of a class was copied to a place where no file was. -/
theorem ClassCopied.extends (h : ClassCopied source l w₁ w₂)
    (hlink : ∀ target, w₁.disk.find? l ≠ some (.link target)) (hnone : w₁.disk.fileAt l = none) :
    w₁.disk.Extends w₂.disk ∧ (∀ m ≠ l, w₂.disk.fileAt m = w₁.disk.fileAt m) ∧
      ∃ bytes, w₂.disk.readFile w₁.cwd source = .ok bytes ∧ w₂.disk.fileAt l = some bytes := by
  obtain ⟨w', spread, copied⟩ := h
  have hfile : w'.disk.fileAt l = none := (spread.added.fileAt l).trans hnone
  have habsent : w'.disk.find? l = none := by
    cases hfind : w'.disk.find? l with
    | none => rfl
    | some e =>
      cases e with
      | file bytes runnable => simp [fileAt, hfind] at hfile
      | directory => exact absurd hfind copied.replaced
      | link target =>
        rcases spread.added l with hsame | ⟨-, hdir⟩
        · exact absurd (hsame.symm.trans hfind) (hlink target)
        · rw [hfind] at hdir
          cases hdir
  obtain ⟨place, bytes, hresolve, hbytes, hcopied⟩ := copied.bytes
  have hne : place ≠ l := by
    rintro rfl
    rw [hfile] at hbytes
    cases hbytes
  have hextends := copied.put.extends habsent
  refine ⟨spread.added.extends.trans hextends, fun m hm => ?_, bytes, ?_, hcopied hne⟩
  · rw [copied.put.fileAt_other hm, spread.added.fileAt]
  · rw [← spread.cwd]
    exact readFile_eq_ok_iff_fileAt.2 ⟨place, hextends.resolve_file hresolve hbytes,
      hextends.fileAt hbytes⟩

/-- The files below `l` are those of the classes, as they are in the output directory. -/
structure Mirrors (output : Path) (l : Location) (classes : List String) (cwd : Location)
    (d : Disk) : Prop where
  file : ∀ className ∈ classes, ∃ bytes,
    d.readFile cwd (output.join (ClassName.artifact className)) = .ok bytes ∧
      d.fileAt (l ++ ClassName.artifactNames className) = some bytes
  only : ∀ names, (d.fileAt (l ++ names)).isSome →
    ∃ className ∈ classes, names = ClassName.artifactNames className

theorem Mirrors.step (h : Mirrors output l done w.cwd w₁.disk) (hcwd : w₁.cwd = w.cwd)
    (hlink : ∀ m : Location, l.covers m = true → ∀ target, w₁.disk.find? m ≠ some (.link target))
    (hnew : className ∉ done)
    (hcopied : ClassCopied (output.join (ClassName.artifact className))
      (l ++ ClassName.artifactNames className) w₁ w₂) :
    Mirrors output l (done ++ [className]) w.cwd w₂.disk ∧ w₁.disk.Extends w₂.disk := by
  have hnone : w₁.disk.fileAt (l ++ ClassName.artifactNames className) = none := by
    by_contra hsome
    obtain ⟨other, hother, heq⟩ := h.only _ (Option.isSome_iff_ne_none.2 hsome)
    exact hnew (ClassName.artifactNames_injective heq ▸ hother)
  obtain ⟨hextends, hothers, bytes, hread, hbytes⟩ := hcopied.extends
    (hlink _ (Location.covers_append l _)) hnone
  rw [hcwd] at hread
  refine ⟨⟨fun other hmem => ?_, fun names hsome => ?_⟩, hextends⟩
  · rcases List.mem_append.1 hmem with hold | hlast
    · obtain ⟨bytes', hread', hbytes'⟩ := h.file other hold
      exact ⟨bytes', hextends.readFile hread', hextends.fileAt hbytes'⟩
    · obtain rfl := List.mem_singleton.1 hlast
      exact ⟨bytes, hread, hbytes⟩
  · by_cases heq : names = ClassName.artifactNames className
    · exact ⟨className, by simp, heq⟩
    · rw [hothers _ fun hsame => heq (List.append_cancel_left hsame)] at hsome
      obtain ⟨other, hother, hnames⟩ := h.only names hsome
      exact ⟨other, List.mem_append_left _ hother, hnames⟩

/-- Copying the files of classes into a directory in which no file is. -/
theorem copyClassFiles_mirrors (hnodup : classes.Nodup)
    (hproper : ∀ className ∈ classes, ClassName.IsProper className) {directory : Path}
    (hreach : (w.disk.erase l).Reaches w.cwd directory l) (h : Filled l w w)
    (hempty : ∀ names, w.disk.fileAt (l ++ names) = none) :
    (copyClassFiles output directory classes).wp w
      (fun _ w' => Mirrors output l classes w.cwd w'.disk ∧ w.disk.Extends w'.disk ∧ Filled l w w')
      fun _ _ => True := by
  have hstep := @copyClassFile_filled w
  unfold copyClassFiles at hstep ⊢
  refine Action.wp_forM_prefix (I := fun done w' => Mirrors output l done w.cwd w'.disk ∧
    w.disk.Extends w'.disk ∧ Filled l w w') (fun done className rest heq w₁ h₁ => ?_) ?_
  · obtain ⟨hmirrors, hextends, hfilled⟩ := h₁
    have hclass := hproper className (by simp [heq])
    have hnew : className ∉ done := by
      rw [heq, List.nodup_append] at hnodup
      intro hmem
      exact hnodup.2.2 className hmem className (by simp) rfl
    refine (hstep output hclass hreach hfilled).mono (fun _ w₂ h₂ => ?_)
      fun _ _ _ => trivial
    obtain ⟨hmirrors₂, hextends₂⟩ := hmirrors.step hfilled.cwd hfilled.not_link hnew h₂.2
    exact ⟨hmirrors₂, hextends.trans hextends₂, h₂.1⟩
  · refine ⟨⟨by simp, fun names hsome => ?_⟩, fun _ _ hm => hm, h⟩
    rw [hempty] at hsome
    cases hsome

/-! ## The staged workspace -/

/-- The directories of a workspace once the files of the classes were staged, on the disk `d`: the
classpath mirrors the output directory, and there is nothing in the destination. -/
structure Staged (w : World) (output : Path) (classes : List String) (ws : Workspace)
    (a b : Location) (d : Disk) : Prop where
  classpath : d.resolve w.cwd true ws.classpath = .ok a
  destination : d.resolve w.cwd true ws.destination = .ok b
  directories : d.find? a = some .directory ∧ d.find? b = some .directory
  absent : w.disk.find? a = none ∧ w.disk.find? b = none
  apart : Location.Apart a b
  rest : (d.erase a).erase b = w.disk
  not_link : ∀ m : Location, a.covers m = true → ∀ target, d.find? m ≠ some (.link target)
  empty : d.children b = []
  mirrors : Mirrors output a classes w.cwd d

namespace Staged

variable {d : Disk}

theorem none_in_destination (h : Staged w output classes ws a b d) {names : List String}
    (tree : d.IsTree) (hne : names ≠ []) : d.find? (b ++ names) = none := by
  obtain ⟨name, more, rfl⟩ := List.exists_cons_of_ne_nil hne
  have hnone := (children_eq_nil_iff d).1 h.empty name
  cases more with
  | nil => exact hnone
  | cons next more =>
    have hbelow : d.find? (b ++ [name] ++ next :: more) = none :=
      tree.find?_append (by simp [hnone]) (by simp)
    simpa using hbelow

/-- Whoever reads the file of a staged class in the output directory finds the bytes that were staged
already when nothing was staged, unless the path leads elsewhere with the workspace than without. -/
theorem readFile_before (h : Staged w output classes ws a b d) (tree : w.disk.IsTree)
    {p : Path} {bytes : ByteArray} (hread : d.readFile w.cwd p = .ok bytes) :
    w.disk.readFile w.cwd p = .ok bytes ∨
      w.disk.resolve w.cwd true p ≠ d.resolve w.cwd true p := by
  rw [or_iff_not_imp_right, not_not]
  intro hsame
  obtain ⟨x, hresolve, hx⟩ := readFile_eq_ok_iff_fileAt.1 hread
  rw [hresolve] at hsame
  obtain ⟨runnable, hfind⟩ := fileAt_eq_some_iff.1 hx
  have hne : x ≠ [] := by
    rintro rfl
    simp at hfind
  obtain ⟨above, last, rfl⟩ : ∃ above last, x = above ++ [last] :=
    ⟨x.dropLast, x.getLast hne, (List.dropLast_append_getLast hne).symm⟩
  -- The place is in a directory that was there before, so it is not in the workspace.
  have habove := tree.directory_above_of_resolve hsame
  rw [List.dropLast_concat] at habove
  have houtside (l : Location) (hdir : d.find? l = some .directory) (hnone : w.disk.find? l = none) :
      l.covers (above ++ [last]) = false := by
    rw [Bool.eq_false_iff]
    intro hcovers
    rcases Location.covers_concat_iff.1 hcovers with heq | hcovers
    · rw [heq, hfind] at hdir
      cases hdir
    · obtain ⟨names, rfl⟩ := Location.covers_iff.1 hcovers
      by_cases hnames : names = []
      · rw [hnames, List.append_nil, hnone] at habove
        cases habove
      · rw [tree.directory_of_append habove hnames] at hnone
        cases hnone
  have hfind' : w.disk.find? (above ++ [last]) = some (.file bytes runnable) := by
    rw [← h.rest, find?_erase_erase _ (houtside a h.directories.1 h.absent.1)
      (houtside b h.directories.2 h.absent.2), hfind]
  exact readFile_eq_ok_iff_fileAt.2 ⟨_, hsame, fileAt_eq_some_iff.2 ⟨runnable, hfind'⟩⟩

end Staged

/-- Staging gives a workspace that mirrors the output directory. -/
theorem stage_staged (tree : w.disk.IsTree) (output : Path) (hnodup : classes.Nodup)
    (hproper : ∀ className ∈ classes, ClassName.IsProper className) :
    (Workspace.stage output classes).wp w
      (fun ws w₁ => w₁.disk.IsTree ∧ ∃ a b, Staged w output classes ws a b w₁.disk)
      fun _ _ => True := by
  unfold Workspace.stage
  rw [Action.wp_bind]
  refine (make_made tree).mono (fun ws w₁ h₁ => ?_) fun _ _ _ => trivial
  obtain ⟨a, b, hmade⟩ := h₁
  have placed := hmade.toPlaced
  have hplain := hmade.plain tree
  have hnone {l : Location} {names : List String} (hl : w.disk.find? l = none) (hne : names ≠ []) :
      w.disk.find? (l ++ names) = none := tree.find?_append (by simp [hl]) hne
  have hempty (names : List String) : w₁.disk.fileAt (a ++ names) = none := by
    rw [fileAt, hmade.find?_eq]
    split_ifs with hnew
    · rfl
    · rw [hnone hmade.classpath_absent]
      rintro rfl
      simp at hnew
  rw [Action.wp_bind, Action.wp_undoing]
  refine (copyClassFiles_mirrors hnodup hproper (hplain.reaches_classpath placed)
    (.refl hplain.tree hplain.not_link) hempty).mono (fun _ w₂ h₂ => ?_) fun _ w₂ _ =>
      Action.wp_of_forall (fun _ _ => trivial) fun _ _ => trivial
  obtain ⟨hmirrors, -, hfilled⟩ := h₂
  have hplain₂ := hplain.of_filled placed hfilled
  have hcwd : w₁.cwd = w.cwd := hplain.cwd
  rw [hcwd] at hmirrors
  refine (Action.wp_pure _).2 ⟨hplain₂.tree, a, b, ?_, ?_, ⟨hplain₂.classpath, hplain₂.destination⟩,
    ⟨hmade.classpath_absent, hmade.destination_absent⟩, placed.apart, hplain₂.rest,
    hplain₂.not_link, ?_, hmirrors⟩
  · rw [← hplain₂.cwd]
    exact hplain₂.resolve_classpath placed
  · rw [← hplain₂.cwd]
    exact hplain₂.resolve_destination placed
  · refine (children_eq_nil_iff _).2 fun name => ?_
    rw [hfilled.outside.eq_of_apart placed.apart (Location.covers_append b [name]),
      hmade.find?_eq, if_neg, hnone hmade.destination_absent (by simp)]
    rintro (heq | heq)
    · simp at heq
    · have hcovers := Location.covers_append b [name]
      rw [heq, placed.apart.2] at hcovers
      cases hcovers

end Staging

end Recompile
