import Recompile.Proofs.Build.Committed
import Recompile.Proofs.Build.Contained

/-!
# A build keeps its input

However a build ends, a source that it has found is there afterwards as it was, unless the source is
at the store or where the store is staged, or the build is a full one and the source is in the output
directory. Where the output directory and the source tree are in relation to each other plays no part
otherwise: the file of a class is never a source.
-/

namespace Recompile.Build

open Directory Disk Staging World

attribute [local irreducible] Action.wp

variable {p : Places} {w w' : World} {tools : Toolchain} {storeRoot output sourceTree : Path}
  {out : Location} {result : Except Failure Outcome}

/-- No fact is excluded. -/
theorem reports_anything (tools : Toolchain) : Reports tools fun _ => True :=
  fun _ _ => Action.wp_of_forall (fun _ _ _ _ => trivial) fun _ _ => trivial

/-- The places where a build may do anything. -/
def Places.open (p : Places) (out : Location) (hasStore : Bool) : List Location :=
  if hasStore then p.saving else out :: p.saving

theorem run_drifted {free spare : Location → Prop} (hfree : ∀ m, IsClassPlace m → free m)
    (drifts : tools.Drifts free spare) (plain : w.disk.PlainClasses)
    (hstore : storeFor storeRoot sourceTree w.cwd = p.storeAt)
    (hincremental : Store.isAt w.disk w.cwd p.storeAt = true → LaidOut p [] w)
    (hfull : Store.isAt w.disk w.cwd p.storeAt = false →
      Layout w.disk w.cwd (Store.sites p.storeAt p.above p.name ++ [(output.absolute w.cwd, out)]) ∧
        ∀ target, w.disk.find? out ≠ some (.link target)) :
    (run tools storeRoot output sourceTree).wp w
      (fun _ w' => w.Drifted free (p.open out (Store.isAt w.disk w.cwd p.storeAt)) w')
      fun _ w' => w.Drifted free (p.open out (Store.isAt w.disk w.cwd p.storeAt)) w' := by
  have tree : w.disk.IsTree := by
    cases hat : Store.isAt w.disk w.cwd p.storeAt with
    | true => exact (hincremental hat).tree
    | false => exact (hfull hat).1.tree
  refine run_wp (fun _ => .refl tree) (fun _ _ _ w₁ hquiet => .of_view tree hquiet.view)
    (fun t hlocate _ hat w₁ hquiet => ?_) fun t _ hat w₁ hquiet => ?_
  · rw [hstore] at hat ⊢
    obtain ⟨layout, hlink⟩ := hfull hat
    rw [← (locate_quiet.of_ok hlocate).2.1, ← hquiet.disk, ← hquiet.cwd] at layout
    simp only [Places.open, hat]
    have before : w.Drifted free (out :: p.saving) w₁ := .of_view tree hquiet.view
    exact (full_completed drifts (reports_anything tools) layout (hquiet.disk ▸ hlink)
      (hquiet.disk ▸ plain)).mono (fun _ _ h => before.trans h.drifted) fun _ _ => before.trans
  · rw [hstore] at hat ⊢
    have laidOut := hincremental hat
    simp only [Places.open, hat, if_true]
    have before : w.Drifted free p.saving w₁ := .of_view tree hquiet.view
    have laidOut₁ := laidOut.of_quiet hquiet
    have plain₁ : w₁.disk.PlainClasses := hquiet.disk ▸ plain
    refine ((prepare_underway hfree drifts laidOut₁ plain₁).and
      (prepare_readied (reports_anything tools))).mono (fun ready w₂ h₂ => ?_)
        fun _ w₂ h₂ => before.trans (h₂.1.mono (List.nil_subset _))
    obtain ⟨hunderway, store, table, affected, c, hreadied⟩ := h₂
    refine (commit_committed hfree laidOut₁ plain₁ hunderway fun s hs => ?_).mono
      (fun _ _ h => before.trans h.drifted) fun _ _ => before.trans
    exact (hreadied.directory_eq hs).trans c.directory_eq

/-- However a build ends, each source that it has found is a file that is as before, unless it is at
the store or where the store is staged or, if there is no store yet, in the output directory. The
places of the store and of the scratch directories do not overlap, nor does, if there is no store
yet, the output directory overlap them; the name of a class file is never that of a link. -/
theorem run_keeps_sources {files : List Path} (drifts : tools.Drifts IsClassPlace fun _ => False)
    (plain : w.disk.PlainClasses) (hstore : storeFor storeRoot sourceTree w.cwd = p.storeAt)
    (hincremental : Store.isAt w.disk w.cwd p.storeAt = true → LaidOut p [] w)
    (hfull : Store.isAt w.disk w.cwd p.storeAt = false →
      Layout w.disk w.cwd (Store.sites p.storeAt p.above p.name ++ [(output.absolute w.cwd, out)]) ∧
        ∀ target, w.disk.find? out ≠ some (.link target))
    (hfiles : (findSources (sourceTree.absolute w.cwd)).on w = (.ok files, w))
    (hrun : (run tools storeRoot output sourceTree).on w = (result, w')) :
    ∀ file ∈ files, ∃ m bytes runnable, Denotes w.disk w.cwd file m ∧
      w.disk.find? m = some (.file bytes runnable) ∧
        (p.store.covers m = false → p.beside.covers m = false →
          (Store.isAt w.disk w.cwd p.storeAt = false → out.covers m = false) →
            w'.disk.find? m = some (.file bytes runnable)) := by
  have tree : w.disk.IsTree := by
    cases hat : Store.isAt w.disk w.cwd p.storeAt with
    | true => exact (hincremental hat).tree
    | false => exact (hfull hat).1.tree
  have hspec := run_drifted (fun _ => id) drifts plain hstore hincremental hfull
  have hdrifted : w.Drifted IsClassPlace (p.open out (Store.isAt w.disk w.cwd p.storeAt)) w' := by
    cases result with
    | ok outcome => exact hspec.of_ok hrun
    | error f => exact hspec.of_error hrun
  have hfound : (findSources (sourceTree.absolute w.cwd)).wp w
      (fun files _ => ∀ file ∈ files, ∃ m bytes runnable, Denotes w.disk w.cwd file m ∧
        w.disk.find? m = some (.file bytes runnable) ∧ file.extension = some "java")
      fun _ _ => True := by
    unfold findSources
    rw [Action.wp_within]
    exact findFiles_denotes tree
  intro file hfile
  obtain ⟨m, bytes, runnable, hdenotes, hfind, hextension⟩ := hfound.of_ok hfiles file hfile
  refine ⟨m, bytes, runnable, hdenotes, hfind, fun hs hb ho => ?_⟩
  obtain ⟨directory, l, name, -, hname, rfl, rfl⟩ := hdenotes
  have hclass : ¬IsClassPlace (l ++ [name]) := by
    rintro ⟨k, other, heq, hother⟩
    obtain ⟨-, hlast⟩ := List.append_inj' heq rfl
    rw [← List.singleton_inj.1 hlast] at hother
    exact Path.not_hasExtension_class_of_java (Path.hasExtension_push hname hextension) hother
  refine (hdrifted.outside _ fun k hk => ?_).eq_of_not_free hclass hfind
  cases hat : Store.isAt w.disk w.cwd p.storeAt <;>
    simp only [Places.open, hat, Places.saving, if_true, Bool.false_eq_true, if_false,
      List.mem_cons, List.not_mem_nil, or_false] at hk
  · rcases hk with rfl | rfl | rfl
    · exact ho hat
    · exact hs
    · exact hb
  · rcases hk with rfl | rfl
    · exact hs
    · exact hb

theorem oneClass_drifts {free spare : Location → Prop} (hspare : ∀ l, ¬spare (l ++ ["A.class"])) :
    oneClass.Drifts free spare :=
  Toolchain.writing_drifts _ (by decide) (by simpa using hspare)

theorem emptySource_eq_of_file {m : Location} {bytes : ByteArray} {runnable : Bool}
    (h : emptySource.disk.find? m = some (.file bytes runnable)) :
    m = ["src", "A.java"] ∧ bytes = .empty ∧ runnable = false := by
  by_cases hm : m = []
  · simp [hm] at h
  · have hentry := (find?_eq_some_iff _ hm).1 h
    simpa [emptySource, World.start, and_assoc] using hentry

theorem run_keeps_sources_emptySource :
    ∃ files, (findSources ⟨"/src"⟩).on emptySource = (.ok files, emptySource) ∧ files ≠ [] ∧
      ∀ result w', (run oneClass ⟨"/meta"⟩ ⟨"/out"⟩ ⟨"/src"⟩).on emptySource = (result, w') →
        w'.disk.find? ["src", "A.java"] = some (.file .empty false) := by
  have hfound : (match (findSources ⟨"/src"⟩).on emptySource with
      | (.ok files, _) => !files.isEmpty
      | (.error _, _) => false) = true := by decide
  have hquiet : (findSources ⟨"/src"⟩).wp emptySource (fun _ w' => w' = emptySource)
      fun _ _ => True := by
    unfold findSources
    rw [Action.wp_within]
    exact findFiles_quiet.mono (fun _ _ h => h.1) fun _ _ _ => trivial
  rcases hfiles : (findSources ⟨"/src"⟩).on emptySource with ⟨f | files, w⟩
  · rw [hfiles] at hfound
    cases hfound
  obtain rfl := hquiet.of_ok hfiles
  have hne : files ≠ [] := by
    simpa [hfiles] using hfound
  refine ⟨files, rfl, hne, fun result w' hrun => ?_⟩
  have hkey := Store.isName_key ⟨"/src"⟩
  let p : Places := ⟨Path.push ⟨"/meta"⟩ (Store.key ⟨"/src"⟩), ⟨"/tmp"⟩, ["meta"],
    Store.key ⟨"/src"⟩, ["tmp"]⟩
  have habsolute : Path.absolute ⟨"/out"⟩ emptySource.cwd = ⟨"/out"⟩ := by decide
  have hsource : Path.absolute ⟨"/src"⟩ emptySource.cwd = ⟨"/src"⟩ := by decide
  have hnot : Store.isAt emptySource.disk emptySource.cwd p.storeAt = false :=
    emptySource_not_isAt hkey
  have hlayout : Layout emptySource.disk emptySource.cwd
      (Store.sites p.storeAt p.above p.name ++ [(Path.absolute ⟨"/out"⟩ emptySource.cwd, ["out"])]) := by
    rw [habsolute]
    exact emptySource_layout hkey
  have hkept := run_keeps_sources (oneClass_drifts (by simp)) (fun l _ => emptySource_ne_link l)
    storeFor_emptySource (by simp [hnot]) (fun _ => ⟨hlayout, emptySource_ne_link _⟩)
    (hsource ▸ hfiles) hrun
  obtain ⟨file, hfile⟩ := List.exists_mem_of_ne_nil files hne
  obtain ⟨m, bytes, runnable, -, hfind, hafter⟩ := hkept file hfile
  obtain ⟨rfl, rfl, rfl⟩ := emptySource_eq_of_file hfind
  refine hafter ?_ ?_ fun _ => ?_ <;>
    simp [p, Places.store, Places.beside, Location.covers, List.isPrefixOf]

/-- Whether a file is among the sources of a tree. -/
def isSource (sourceTree file : Path) (w : World) : Bool :=
  match ((findSources sourceTree).on w).1 with
  | .ok files => files.contains file
  | .error _ => false

/-- A source tree with a source where a build puts the store, if it is told to put it in the tree. -/
def sourceInStore : World :=
  .start ⟨[(["src"], .directory), (["src", sourceKey], .directory),
    (["src", sourceKey, "A.java"], .file .empty false)], by decide⟩ [] ∅

theorem sourceInStore_tree : sourceInStore.disk.IsTree :=
  isTree_of_isWellFormed (by decide)

theorem sourceInStore_ne_link (l : Location) (target : Path) :
    sourceInStore.disk.find? l ≠ some (.link target) := find?_ne_link (by decide) l target

theorem sourceInStore_compiled :
    isSource ⟨"/src"⟩ ⟨"/src/" ++ sourceKey ++ "/A.java"⟩ sourceInStore = true ∧
    (match (run oneClass ⟨"/src"⟩ ⟨"/out"⟩ ⟨"/src"⟩).on sourceInStore with
      | (.ok outcome, w') => outcome == .compiled 1 &&
          (w'.disk.find? ["src", sourceKey, "A.java"]).isNone
      | (.error _, _) => false) = true := by
  refine ⟨by decide +kernel, ?_⟩
  have hplace : Path.push ⟨"/src"⟩ sourceKey =
      ⟨"/src/.incjc-meta-56c9e1c4b5360a5b089004396ed37fe3a20f7c4f5954072098039789ba3ab68a"⟩ := by
    decide +kernel
  have hsrc : Path.IsName "src" ∧ Path.push ⟨"/"⟩ "src" = ⟨"/src"⟩ := by decide
  have hout : Path.IsName "out" ∧ Path.push ⟨"/"⟩ "out" = ⟨"/out"⟩ := by decide
  rw [on_run_by_of_ne_link oneClass_staysInside sourceInStore_tree sourceInStore_ne_link rfl hsrc
    (by decide) hout (by decide) (by decide) hplace (by decide +kernel) (.inr rfl) rfl]
  decide +kernel

/-- The new source with a link to it in the output directory, where the file of its class is to be. -/
def linkedOutput : World :=
  .start ⟨[(["src"], .directory), (["src", "A.java"], .file ⟨#[65]⟩ false), (["tmp"], .directory),
    (["out"], .directory), (["out", "A.class"], .link ⟨"../src/A.java"⟩),
    (["meta"], .directory), (["meta", sourceKey], .directory),
    (["meta", sourceKey, "classes.txt"], .file .empty false),
    (["meta", sourceKey, "sources.txt"], .file .empty false),
    (["meta", sourceKey, "deps.txt"], .file .empty false)], by decide⟩ [] ∅

theorem linkedOutput_hasEmptyStore : HasEmptyStore linkedOutput where
  tree := isTree_of_isWellFormed (by decide)
  cwd := rfl
  empty := by
    simp [Store.tableNames, linkedOutput, World.start, Disk.find?, List.lookup_cons]

/-- The build that empties the source tree, and the one that writes through the link. -/
theorem cleaned_and_overwritten :
    ((run oneClass ⟨"/meta"⟩ ⟨"/src"⟩ ⟨"/src"⟩).on emptySource).2.disk.find? ["src", "A.java"] =
        none ∧
      (((run oneClass ⟨"/meta"⟩ ⟨"/out"⟩ ⟨"/src"⟩).on linkedOutput).2.disk.find? ["src", "A.java"]
        matches some (.file ⟨#[]⟩ _)) = true := by
  constructor
  · have hsrc : Path.IsName "src" ∧ Path.push ⟨"/"⟩ "src" = ⟨"/src"⟩ := by decide
    rw [emptySource_on_run_by oneClass_staysInside hsrc (by decide) (by decide),
      ← Option.isNone_iff_eq_none]
    decide +kernel
  · rw [linkedOutput_hasEmptyStore.on_run_by (by decide) rfl oneClass_staysInside]
    decide +kernel

/-- A source outside of the place to which the path of the metadata leads by a link in the output
directory. -/
def linkedMetadata : World :=
  .start ⟨[(["a"], .directory), (["a", "b"], .directory), (["a", "b", "c"], .directory),
    (["out"], .directory), (["out", "x"], .link ⟨"/a/b/c"⟩), (["src"], .directory),
    (["src", sourceKey], .directory), (["src", sourceKey, "A.java"], .file .empty false)],
    by decide⟩ [] ∅

/-- The path of the store of `/src` that goes through that link. -/
def linkedStore : Path :=
  ⟨"/out/x/../../src/.incjc-meta-56c9e1c4b5360a5b089004396ed37fe3a20f7c4f5954072098039789ba3ab68a"⟩

/-- The source is found, and there is no store. When it is time to save one, its path leads into the
source tree. -/
theorem linkedMetadata_begun :
    isSource ⟨"/src"⟩ ⟨"/src/" ++ sourceKey ++ "/A.java"⟩ linkedMetadata = true ∧
    Store.isAt linkedMetadata.disk linkedMetadata.cwd linkedStore = false ∧
    (match (locate ⟨"/out"⟩ ⟨"/src"⟩).on linkedMetadata with
      | (.ok t, w) => !t.sources.isEmpty &&
        match (do
          log .debug "all sources"
          announceFull linkedStore
          beginBy (Store.reset linkedStore) oneClass t linkedStore).on w with
        | (.ok (some store), w') => store.directory == linkedStore && w'.disk.isWellFormed &&
          decide (Leads (w'.disk.eraseAll [["src", sourceKey], ["src", Store.besideName sourceKey]])
            w'.cwd ⟨"/out/x/../../src"⟩ ["src"])
        | _ => false
      | _ => false) = true := by
  refine ⟨?_, ?_, ?_⟩ <;> decide +kernel

theorem linkedMetadata_removed :
    ((run oneClass ⟨"/out/x/../../src"⟩ ⟨"/out"⟩ ⟨"/src"⟩).on linkedMetadata).2.disk.find?
      ["src", sourceKey, "A.java"] = none := by
  have hplace : Path.push ⟨"/out/x/../../src"⟩ sourceKey = linkedStore := by decide
  have hstore : storeFor ⟨"/out/x/../../src"⟩ ⟨"/src"⟩ linkedMetadata.cwd = linkedStore :=
    (storeFor_source _).trans hplace
  have hshort : linkedStore.check = .ok () ∧ linkedStore.text.utf8ByteSize + 16 ≤ Path.sizeLimit := by
    decide
  obtain ⟨-, hat, hbegun⟩ := linkedMetadata_begun
  rcases hlocate : (locate ⟨"/out"⟩ ⟨"/src"⟩).on linkedMetadata with ⟨f | t, w⟩
  · rw [hlocate] at hbegun
    cases hbegun
  obtain ⟨rfl, -, -⟩ := locate_quiet.of_ok hlocate
  simp only [hlocate, Bool.and_eq_true, Bool.not_eq_true'] at hbegun
  obtain ⟨hsources, hbegun⟩ := hbegun
  rcases hbegin : (do
      log .debug "all sources"
      announceFull linkedStore
      beginBy (Store.reset linkedStore) oneClass t linkedStore).on linkedMetadata
    with ⟨f | found, w⟩
  · rw [hbegin] at hbegun
    cases hbegun
  cases found with
  | none =>
    rw [hbegin] at hbegun
    cases hbegun
  | some store =>
    simp only [hbegin, Bool.and_eq_true, beq_iff_eq, decide_eq_true_eq] at hbegun
    obtain ⟨⟨hdirectory, hformed⟩, hleads⟩ := hbegun
    have hdir := hleads.directory
    rw [find?_eraseAll] at hdir
    split_ifs at hdir
    have can : Store.CanSave store.directory ["src"] sourceKey w := by
      rw [hdirectory, ← hplace]
      rw [← hplace] at hshort
      exact Store.canSave_of_root (Store.layout_of_leads (isTree_of_isWellFormed hformed)
        isName_sourceKey hleads) (.inr hdir) (by decide) size_beside_sourceKey hshort.1 hshort.2
    have hsaved := endBy_leaves_tables (t := t) can (by decide : "A.java" ∉ Store.tableNames)
    rw [on_run_eq_endBy hlocate hsources hstore hat hbegin]
    rcases hend : (endBy Store.save t store).on w with ⟨f | outcome, w'⟩
    · exact (hsaved.of_error hend).elim
    · exact hsaved.of_ok hend

/-- Tools that write class files into the destination only do not keep a build from losing a source:
one in the output directory, which a full build empties; one in the place of the store; one to which
a link leads from where the file of a class is put; and one in the place to which the path of the
store leads only after the output directory was emptied. -/
theorem not_keeps_sources :
    oneClass.StaysInside ∧ oneClass.Drifts IsClassPlace (fun _ => False) ∧
      (isSource ⟨"/src"⟩ ⟨"/src/A.java"⟩ emptySource = true ∧
        emptySource.disk.find? ["src", "A.java"] = some (.file .empty false) ∧
        ((run oneClass ⟨"/meta"⟩ ⟨"/src"⟩ ⟨"/src"⟩).on emptySource).2.disk.find? ["src", "A.java"] =
          none) ∧
      (isSource ⟨"/src"⟩ ⟨"/src/" ++ sourceKey ++ "/A.java"⟩ sourceInStore = true ∧
        sourceInStore.disk.find? ["src", sourceKey, "A.java"] = some (.file .empty false) ∧
        ((run oneClass ⟨"/src"⟩ ⟨"/out"⟩ ⟨"/src"⟩).on sourceInStore).2.disk.find?
          ["src", sourceKey, "A.java"] = none) ∧
      (isSource ⟨"/src"⟩ ⟨"/src/A.java"⟩ linkedOutput = true ∧
        linkedOutput.disk.find? ["src", "A.java"] = some (.file ⟨#[65]⟩ false) ∧
        ((run oneClass ⟨"/meta"⟩ ⟨"/out"⟩ ⟨"/src"⟩).on linkedOutput).2.disk.find? ["src", "A.java"] ≠
          some (.file ⟨#[65]⟩ false)) ∧
      isSource ⟨"/src"⟩ ⟨"/src/" ++ sourceKey ++ "/A.java"⟩ linkedMetadata = true ∧
        linkedMetadata.disk.find? ["src", sourceKey, "A.java"] = some (.file .empty false) ∧
        ((run oneClass ⟨"/out/x/../../src"⟩ ⟨"/out"⟩ ⟨"/src"⟩).on linkedMetadata).2.disk.find?
          ["src", sourceKey, "A.java"] = none := by
  obtain ⟨hcleaned, hlink⟩ := cleaned_and_overwritten
  obtain ⟨hsource, hcompiled⟩ := sourceInStore_compiled
  have hremoved : ((run oneClass ⟨"/src"⟩ ⟨"/out"⟩ ⟨"/src"⟩).on sourceInStore).2.disk.find?
      ["src", sourceKey, "A.java"] = none := by
    rcases hrun : (run oneClass ⟨"/src"⟩ ⟨"/out"⟩ ⟨"/src"⟩).on sourceInStore with ⟨f | outcome, w'⟩
    · rw [hrun] at hcompiled
      cases hcompiled
    simp only [hrun, Bool.and_eq_true] at hcompiled
    exact Option.isNone_iff_eq_none.1 hcompiled.2
  refine ⟨oneClass_staysInside, oneClass_drifts (by simp),
    ⟨by decide, ?_, hcleaned⟩, ⟨hsource, ?_, hremoved⟩,
    ⟨by decide, ?_, fun hsame => ?_⟩, linkedMetadata_begun.1, ?_, linkedMetadata_removed⟩
  · simp [Disk.find?, emptySource, World.start, List.lookup_cons]
  · simp [Disk.find?, sourceInStore, World.start, List.lookup_cons]
  · simp [Disk.find?, linkedOutput, World.start, List.lookup_cons]
  · rw [hsame] at hlink
    cases hlink
  · simp [Disk.find?, linkedMetadata, World.start, List.lookup_cons]

end Recompile.Build
