import Recompile.Proofs.Store.Saving

/-!
# Saves that are interrupted

A save is a sequence of single operations and can be stopped between any two of them. Where it is
stopped, the tables of the old store are what they were, or there is no store, or the new one is
complete; and a later save makes good whatever was left. For this no link in the place of the store
may lead to where the store is staged.
-/

namespace Recompile

namespace Disk

variable {d d' : Disk} {l : Location} {files : String → Option ByteArray}
  {items : List (String × ByteArray)}

/-! ## Writing files one after the other -/

theorem Goal.Op.find?_write {bytes : ByteArray} (h : (Goal.write l bytes).Op d d') :
    ∃ part runnable, ∀ m, d'.find? m = if m = l then some (.file part runnable) else d.find? m := by
  generalize hgoal : Goal.write l bytes = goal at h
  cases h with
  | remove => cases hgoal
  | make => cases hgoal
  | move => cases hgoal
  | create hname hsize hdir hnone =>
    cases hgoal
    exact ⟨.empty, _, fun m => find?_put _ (by simp) _ m⟩
  | @write d m bytes old part rest runnable hfile hpart =>
    cases hgoal
    have hne : l ≠ [] := by
      rintro rfl
      simp at hfile
    exact ⟨part, runnable, fun m => find?_put _ hne _ m⟩

/-- A file that is being written is there in part or not at all. -/
theorem Holds.op_write {name : String} {bytes : ByteArray} {content : Option ByteArray}
    (h : d.Holds l (Function.update files name content))
    (hop : (Goal.write (l ++ [name]) bytes).Op d d') :
    ∃ content, d'.Holds l (Function.update files name content) := by
  obtain ⟨part, runnable, hfind⟩ := hop.find?_write
  have hupdate := h.update hfind
  rw [Function.update_idem] at hupdate
  exact ⟨_, hupdate⟩

theorem Runs.holds_writing (h : Runs (writing l items) d d') (hholds : d.Holds l files) :
    d'.Holds l (updates files items) := by
  induction items generalizing d files with
  | nil =>
    cases h
    exact hholds
  | cons item rest ih =>
    have hsplit : writing l (item :: rest) = [.write (l ++ [item.1]) item.2] ++ writing l rest := rfl
    rw [hsplit] at h
    obtain ⟨d₁, hfirst, hrest⟩ := h.of_append
    have hinit : ∃ content, d.Holds l (Function.update files item.1 content) :=
      ⟨files item.1, by rwa [Function.update_eq_self]⟩
    have hstep (x y : Disk) (hop : (Goal.write (l ++ [item.1]) item.2).Op x y)
        (hx : ∃ content, x.Holds l (Function.update files item.1 content)) :
        ∃ content, y.Holds l (Function.update files item.1 content) := by
      obtain ⟨_, hpart⟩ := hx
      exact hpart.op_write hop
    obtain ⟨⟨content, hpart⟩, runnable, hmet⟩ := hfirst.of_singleton hstep hinit
    have hcontent : content = some item.2 := by
      cases content with
      | none =>
        have hnone := hpart.none item.1 (by simp)
        rw [hmet] at hnone
        cases hnone
      | some bytes =>
        obtain ⟨runnable', hfind⟩ := hpart.file item.1 bytes (by simp)
        rw [hmet] at hfind
        cases hfind
        rfl
    rw [hcontent] at hpart
    exact ih hrest hpart

/-- Whatever was at a place, there is an empty directory after it was removed and made. -/
theorem Runs.holds_nothing (h : Runs [.remove l, .make l] d d') (tree : d.IsTree) :
    d'.Holds l fun _ => none := by
  have hsplit : [Goal.remove l, Goal.make l] = [.remove l] ++ [.make l] := rfl
  rw [hsplit] at h
  obtain ⟨d₁, hremove, hmake⟩ := h.of_append
  have hwithin : (Goal.remove l).Within l := Location.covers_self l
  obtain ⟨htree, hnone⟩ := hremove.of_singleton (I := IsTree) (fun _ _ hop => hop.tree hwithin) tree
  have hdir : d₁.find? l ≠ some .directory := by
    intro hthere
    rw [hnone] at hthere
    cases hthere
  have hinit : ∀ rest : List String, rest ≠ [] → d₁.find? (l ++ rest) = none := fun rest hne =>
    htree.find?_append hdir hne
  have hstep (x y : Disk) (hop : (Goal.make l).Op x y)
      (hx : ∀ rest : List String, rest ≠ [] → x.find? (l ++ rest) = none) :
      ∀ rest : List String, rest ≠ [] → y.find? (l ++ rest) = none := by
    intro rest hne
    cases hop with
    | @make _ _ k name hcovers =>
      rw [find?_put _ (by simp), if_neg, hx rest hne]
      intro heq
      rw [← heq] at hcovers
      have hsame := Location.covers_antisymm hcovers (Location.covers_append l rest)
      exact hne (by simpa using hsame)
  obtain ⟨hbelow, hmade⟩ := hmake.of_singleton hstep hinit
  exact ⟨hmade, by simp, fun name _ => hbelow [name] (by simp)⟩

/-- Some of what is at and below `l` was taken away. -/
structure Removing (l : Location) (d d' : Disk) : Prop where
  tree : d'.IsTree
  subset : ∀ m e, d'.find? m = some e → d.find? m = some e
  outside : ∀ m : Location, l.covers m = false → d'.find? m = d.find? m

theorem Removing.op {d'' : Disk} (h : Removing l d d') (hop : (Goal.remove l).Op d' d'') :
    Removing l d d'' := by
  cases hop with
  | @remove _ _ m hcovers =>
    refine ⟨h.tree.erase m, fun x e hfind => ?_, fun x hx => ?_⟩
    · rw [find?_erase] at hfind
      split_ifs at hfind
      exact h.subset x e hfind
    · rw [find?_erase, if_neg, h.outside x hx]
      rintro ⟨-, hm⟩
      rw [Location.covers_trans hcovers hm] at hx
      cases hx

theorem Stops.removing (h : Stops [.remove l] d d') (tree : d.IsTree) : Removing l d d' :=
  h.invariant (I := Removing l d) (fun goal hgoal _ _ hop hx => by
    rw [List.mem_singleton.1 hgoal] at hop
    exact hx.op hop) ⟨tree, fun _ _ => id, fun _ _ => rfl⟩

/-- A move is made or not. -/
theorem Stops.moved {source target : Location} (h : Stops [.move source target] d d')
    (hmoved : (d.move source target).find? source = none) : d' = d ∨ d' = d.move source target := by
  cases h with
  | here => exact .inl rfl
  | op first rest =>
    cases first with
    | move hsource htarget =>
      cases rest with
      | here => exact .inr rfl
      | op again _ =>
        cases again with
        | move hsource' =>
          rw [hmoved] at hsource'
          cases hsource'
      | next _ rest =>
        cases rest
        exact .inr rfl
  | next _ rest =>
    cases rest
    exact .inl rfl

end Disk

namespace Store

open Disk

attribute [local irreducible] Action.wp

variable {w : World} {d d' : Disk} {k l : Location} {name : String} {directory : Path}

/-! ## The stages of a save -/

theorem within_of_mem_stagingGoals {s : Store} {goal : Goal} (h : goal ∈ s.stagingGoals l) :
    goal.Within l := by
  rcases List.mem_append.1 h with hfirst | hwrite
  · simp only [List.mem_cons, List.not_mem_nil, or_false] at hfirst
    rcases hfirst with rfl | rfl
    · exact Location.covers_self l
    · rfl
  · obtain ⟨item, -, rfl⟩ := List.mem_map.1 hwrite
    exact Location.covers_append l [item.1]

theorem holds_of_runs_staging {s : Store} (h : Runs (s.stagingGoals l) d d') (tree : d.IsTree) :
    d'.Holds l s.contents := by
  obtain ⟨d₁, hempty, hwrite⟩ := h.of_append
  rw [← updates_staged]
  exact hwrite.holds_writing (hempty.holds_nothing tree)

/-- Where a save may be stopped: while it stages, while it removes the old store, or at its end. -/
inductive Stage (s : Store) (k : Location) (name : String) (d d' : Disk) : Prop
  | staging (tree : d'.IsTree) (outside : SameOutside (k ++ [besideName name]) d d')
  | removing {d₁ : Disk} (tree : d₁.IsTree) (outside : SameOutside (k ++ [besideName name]) d d₁)
      (holds : d₁.Holds (k ++ [besideName name]) s.contents)
      (removing : Removing (k ++ [name]) d₁ d')
  | moved {d₁ d₂ : Disk} (tree : d₁.IsTree) (outside : SameOutside (k ++ [besideName name]) d d₁)
      (holds : d₁.Holds (k ++ [besideName name]) s.contents)
      (removing : Removing (k ++ [name]) d₁ d₂)
      (eq : d' = d₂.move (k ++ [besideName name]) (k ++ [name]))

theorem stage_of_stops {s : Store} (h : Stops (s.savingGoals k name) d d') (tree : d.IsTree) :
    Stage s k name d d' := by
  have hne := besideName_ne name
  have hst := Location.covers_sibling (l := k) hne
  have hts := Location.covers_sibling (l := k) hne.symm
  rcases h.of_append with hstaging | ⟨d₁, hruns, hrest⟩
  · obtain ⟨htree, houtside⟩ :=
      hstaging.sameOutside tree fun _ hgoal => within_of_mem_stagingGoals hgoal
    exact .staging htree houtside
  obtain ⟨htree, houtside⟩ :=
    hruns.stops.sameOutside tree fun _ hgoal => within_of_mem_stagingGoals hgoal
  have hholds := holds_of_runs_staging hruns tree
  rcases hrest.of_append with hremove | ⟨d₂, hremove, hmove⟩
  · exact .removing htree houtside hholds (hremove.removing htree)
  have hremoving := hremove.stops.removing htree
  have hgone : (d₂.move (k ++ [besideName name]) (k ++ [name])).find? (k ++ [besideName name]) =
      none := by
    rw [@find?_move d₂ (k ++ [besideName name]) (k ++ [name]) (by simp) (by simp) hst hts,
      if_pos (Location.covers_self _)]
  rcases hmove.moved hgone with rfl | heq
  · exact .removing htree houtside hholds hremoving
  · exact .moved htree houtside hholds hremoving heq

/-! ## What is found where a save was stopped -/

/-- The tables of a store hold the same bytes, or cannot be read as before. -/
def SameTables (directory : Path) (cwd : Location) (d d' : Disk) : Prop :=
  ∀ table ∈ tableNames, ∀ bytes, d'.readFile cwd (directory.push table) = .ok bytes ↔
    d.readFile cwd (directory.push table) = .ok bytes

/-- The tables of a store are not looked for where it is staged: there is no link in their place, or
they are found without what is staged, somewhere else. -/
def Independent (d : Disk) (cwd : Location) (directory : Path) (k : Location) (name : String) :
    Prop :=
  Unlinked d (k ++ [name]) ∨ ∀ table ∈ tableNames, ∃ l,
    (d.erase (k ++ [besideName name])).resolve cwd true (directory.push table) = .ok l ∧
      Location.covers (k ++ [besideName name]) l = false

theorem keeps_of_sameOutside (h : SameOutside l d d') : Keeps (d.erase l) d' := by
  refine .of_subset fun m e hfind => ?_
  rw [find?_erase] at hfind
  split_ifs at hfind with hcond
  by_cases hm : m = []
  · subst hm
    simpa using hfind
  · have hcovers : l.covers m = false := by simpa [hm] using hcond
    rw [h.eq_of_isSome hcovers (by simp [hfind]), hfind]

/-- Outside of a place the same links and files are found. -/
theorem resolve_of_sameOutside {m : Location} {p : Path} {cwd : Location}
    (h : SameOutside l d d') (hresolve : (d.erase l).resolve cwd true p = .ok m)
    (hm : l.covers m = false) : d'.resolve cwd true p = .ok m := by
  refine resolve_of_keeps (keeps_of_sameOutside h) (fun target hlink => ?_) hresolve
  rcases h m hm with hsame | ⟨-, -, hdir⟩
  · rw [find?_erase, if_neg (by simp [hm]), ← hsame, hlink]
    rfl
  · rw [hdir] at hlink
    cases hlink

theorem file_iff_of_sameOutside {m : Location} {e : Entry} (h : SameOutside l d d')
    (hm : l.covers m = false) (hfile : e.isFile = true) :
    d'.find? m = some e ↔ d.find? m = some e := by
  rcases h m hm with hsame | ⟨-, hnone, hdir⟩
  · rw [hsame]
  · rw [hnone, hdir]
    refine iff_of_false (fun heq => ?_) (by simp)
    rw [← Option.some.inj heq] at hfile
    cases hfile

/-- Staging does not change the tables. -/
theorem sameTables_of_sameOutside {cwd : Location} (layout : Layout d cwd (sites directory k name))
    (independent : Independent d cwd directory k name) (tree : d'.IsTree)
    (h : SameOutside (k ++ [besideName name]) d d') : SameTables directory cwd d d' := by
  intro table htable bytes
  have hne := besideName_ne name
  have hapart : Location.Apart (k ++ [besideName name]) (k ++ [name]) :=
    ⟨Location.covers_sibling hne, Location.covers_sibling hne.symm⟩
  rcases independent with unlinked | hlinks
  · have hsite : (directory, k ++ [name]) ∈ sites directory k name := by simp [sites]
    have hstaged : (stagingDirectory directory, k ++ [besideName name]) ∈
        sites directory k name := by simp [sites]
    have hsame : ∀ m : Location, Location.covers (k ++ [name]) m = true →
        d'.find? m = d.find? m := fun m hm => h.eq_of_apart hapart hm
    have unlinked' := unlinked.congr hsame
    have layout' := layout.of_sameOutside hstaged tree h
    have hreach := (layout.reaches_self hsite).push (isName_tableNames htable) unlinked.directory
    have hreach' :=
      (layout'.reaches_self hsite).push (isName_tableNames htable) unlinked'.directory
    rw [hreach'.readFile_eq_ok_iff tree (unlinked'.table table htable),
      hreach.readFile_eq_ok_iff layout.tree (unlinked.table table htable),
      hsame _ (Location.covers_append _ _)]
  · obtain ⟨m, hresolve, hm⟩ := hlinks table htable
    have hbefore := resolve_of_sameOutside (.refl _ d) hresolve hm
    have hafter := resolve_of_sameOutside h hresolve hm
    simp only [Disk.readFile_eq_ok_iff, hbefore, hafter, Except.ok.injEq, exists_and_left,
      exists_eq_left']
    exact exists_congr fun runnable => file_iff_of_sameOutside h hm rfl

/-- While the old store is being removed its tables are the same, or it is none any more. -/
theorem sameTables_of_removing {cwd : Location} {d₁ : Disk}
    (same : SameTables directory cwd d d₁) (h : Removing l d₁ d') :
    SameTables directory cwd d d' ∨ isAt d' cwd directory = false := by
  cases hat : isAt d' cwd directory with
  | false => exact .inr rfl
  | true =>
    left
    intro table htable bytes
    rw [isAt, tables_eq, Bool.and_eq_true, List.all_map, List.all_eq_true] at hat
    obtain ⟨x, found, runnable, hresolve, hfind⟩ := Disk.isFile_iff.1 (hat.2 table htable)
    have hread := Disk.readFile_eq_ok_iff.2 ⟨x, runnable, hresolve, hfind⟩
    have hread₁ := readFile_of_subset h.subset hread
    rw [← same table htable, hread, hread₁]

theorem layout_of_stage {s : Store} {cwd : Location} (layout : Layout d cwd (sites directory k name))
    (h : Stage s k name d d') : Layout d' cwd (sites directory k name) := by
  have hne := besideName_ne name
  have hst := Location.covers_sibling (l := k) hne
  have hts := Location.covers_sibling (l := k) hne.symm
  have hsite : (directory, k ++ [name]) ∈ sites directory k name := by simp [sites]
  have hstaged : (stagingDirectory directory, k ++ [besideName name]) ∈ sites directory k name := by
    simp [sites]
  cases h with
  | staging tree houtside => exact layout.of_sameOutside hstaged tree houtside
  | removing tree houtside hholds hremoving =>
    have layout₁ := layout.of_sameOutside hstaged tree houtside
    exact layout₁.of_sameOutside hsite hremoving.tree (.of_eq hremoving.outside)
  | @moved d₁ d₂ tree houtside hholds hremoving heq =>
    have layout₁ := layout.of_sameOutside hstaged tree houtside
    have layout₂ := layout₁.of_sameOutside hsite hremoving.tree (.of_eq hremoving.outside)
    obtain ⟨hname, hsize⟩ := isName_of_holds (w := .start d₁ cwd ∅) layout₁ hholds
    have hdir : d₂.find? k = some .directory := by
      rw [hremoving.outside k (Location.not_covers_parent k name)]
      exact tree.parent _ _ _ hholds.directory
    have hfind := @find?_move d₂ (k ++ [besideName name]) (k ++ [name]) (by simp) (by simp) hst hts
    rw [heq]
    refine layout₂.of_same (hremoving.tree.move (by simp) hst hts hdir hname hsize) fun m hm => ?_
    rw [hfind, if_neg (by simp [hm _ (List.mem_map_of_mem hstaged)]),
      if_neg (by simp [hm _ (List.mem_map_of_mem hsite)])]
    exact .inl rfl

/-- Where a save is stopped the old tables are as they were, or there is no store, or the new one is
complete. -/
theorem unmixed_of_stage {s : Store} {cwd : Location}
    (layout : Layout d cwd (sites directory k name))
    (independent : Independent d cwd directory k name) (h : Stage s k name d d') :
    SameTables directory cwd d d' ∨ isAt d' cwd directory = false ∨
      d'.Holds (k ++ [name]) s.contents := by
  have hne := besideName_ne name
  cases h with
  | staging tree houtside => exact .inl (sameTables_of_sameOutside layout independent tree houtside)
  | removing tree houtside hholds hremoving =>
    have hsame := sameTables_of_sameOutside layout independent tree houtside
    exact (sameTables_of_removing hsame hremoving).imp id .inl
  | moved tree houtside hholds hremoving heq =>
    have hapart : Location.Apart (k ++ [name]) (k ++ [besideName name]) :=
      ⟨Location.covers_sibling hne.symm, Location.covers_sibling hne⟩
    have hholds₂ := hholds.congr fun m hm => hremoving.outside m (hapart.symm.not_covers hm)
    exact .inr (.inr (heq ▸ hholds₂.move hne))

/-- A save is a sequence of single operations. Wherever it is stopped, the tables of the old store are
as they were, or there is no store, or the new one is complete; and a store that is saved later is
then all there is. -/
theorem save_interrupted (s : Store) (layout : Layout w.disk w.cwd (sites s.directory k name))
    (independent : Independent w.disk w.cwd s.directory k name) :
    (∀ result w', s.save.on w = (result, w') →
      Stops (s.savingGoals k name) w.disk w'.disk) ∧
    ∀ d, Stops (s.savingGoals k name) w.disk d →
      (SameTables s.directory w.cwd w.disk d ∨ isAt d w.cwd s.directory = false ∨
        d.Reaches w.cwd s.directory (k ++ [name]) ∧ d.Holds (k ++ [name]) s.contents) ∧
      ∀ (next : Store) (w₁ w₂ : World), next.directory = s.directory → w₁.disk = d →
        w₁.cwd = w.cwd → next.save.on w₁ = (.ok (), w₂) →
          w₂.disk.Reaches w₂.cwd s.directory (k ++ [name]) ∧
            w₂.disk.Holds (k ++ [name]) next.contents ∧
              ∀ m : Location, Location.covers (k ++ [besideName name]) m = true →
                w₂.disk.find? m = none := by
  have hsite : (s.directory, k ++ [name]) ∈ sites s.directory k name := by simp [sites]
  constructor
  · intro result w' hon
    have hruns := save_runs s layout
    cases result with
    | ok => exact (hruns.of_ok hon).stops
    | error f => exact hruns.of_error hon
  intro d hstops
  have hstage := stage_of_stops hstops layout.tree
  have layout' := layout_of_stage layout hstage
  constructor
  · have hunmixed := unmixed_of_stage layout independent hstage
    exact hunmixed.imp id (Or.imp id fun hholds => ⟨layout'.reaches_self hsite, hholds⟩)
  · intro next w₁ w₂ hdirectory hdisk hcwd hsave
    rw [← hdisk, ← hcwd, ← hdirectory] at layout'
    obtain ⟨hsaved, -⟩ := (save_saves next layout').of_ok hsave
    have hreach := reaches_of_saved layout' hsaved
    rw [← hdirectory]
    exact ⟨hreach, hsaved.holds, hsaved.gone⟩

/-- A disk with a store, and with a file in the place where it is staged. -/
def debris : World :=
  .start ⟨[(["m"], .directory), (["m", "classes.txt"], .file "A->/A.java\n".toUTF8 false),
    (["m", "sources.txt"], .file .empty false), (["m", "deps.txt"], .file .empty false),
    (["m.tmp"], .file .empty false)], by decide⟩ [] ∅

theorem debris_layout : Layout debris.disk debris.cwd (sites ⟨"/m"⟩ [] "m") := by
  have hproper : ∀ x ∈ [(([] : Location), "m"), ([], "m.tmp")],
      Location.IsProper (x.1 ++ [x.2]) := by decide
  exact layout_toPath (isTree_of_isWellFormed (by decide)) hproper
    (fun _ _ top _ => find?_ne_link (by decide) top) (by decide)

/-- The disk when the file was removed and the directory was made. -/
def half : Disk := (debris.disk.erase ["m.tmp"]).put ["m.tmp"] .directory

theorem stops_half : Stops ((new ⟨"/m"⟩).savingGoals [] "m") debris.disk half := by
  have hsome : (debris.disk.find? ["m.tmp"]).isSome := by decide
  have hleaf (name : String) : debris.disk.find? (["m.tmp"] ++ [name]) = none := by
    simp [Disk.find?, debris, World.start, List.lookup_cons]
  have hgone : (debris.disk.erase ["m.tmp"]).find? ["m.tmp"] = none := by
    rw [find?_erase, if_pos]
    exact ⟨by simp, Location.covers_self _⟩
  have hmake : (Goal.make ["m.tmp"]).Op (debris.disk.erase ["m.tmp"]) half :=
    .make (k := []) (Location.covers_self _) (by decide) (by decide) (find?_nil _) hgone
  exact .op (.remove (Location.covers_self _) (by simp) hsome hleaf) (.next hgone (.op hmake .here))

theorem save_interrupted_debris :
    Stops ((new ⟨"/m"⟩).savingGoals [] "m") debris.disk half ∧
      (SameTables ⟨"/m"⟩ [] debris.disk half ∨ isAt half [] ⟨"/m"⟩ = false ∨
        half.Reaches [] ⟨"/m"⟩ ["m"] ∧ half.Holds ["m"] (new ⟨"/m"⟩).contents) ∧
      ∃ w₂, (new ⟨"/m"⟩).save.on (.start half [] ∅) = (.ok (), w₂) ∧
        w₂.disk.Holds ["m"] (new ⟨"/m"⟩).contents := by
  have hsaved : ((new ⟨"/m"⟩).save.on (.start half [] ∅)).1 matches .ok _ := by
    decide +kernel
  have hlink := find?_ne_link (d := debris.disk) (by decide)
  have hspec := (save_interrupted (new ⟨"/m"⟩) debris_layout
    (.inl ⟨hlink _, fun _ _ => hlink _⟩)).2 half stops_half
  rcases hsave : (new ⟨"/m"⟩).save.on (.start half [] ∅) with ⟨f | _, w₂⟩
  · rw [hsave] at hsaved
    cases hsaved
  · have hnext := hspec.2 (new ⟨"/m"⟩) (.start half [] ∅) w₂ rfl rfl rfl hsave
    exact ⟨stops_half, hspec.1, w₂, rfl, hnext.2.1⟩

/-- A disk on which a link in the place of a store leads to where it is staged. -/
def linkedStaging : Disk := ⟨[(["m"], .link ⟨"m.tmp"⟩)], by decide⟩

/-- The disk when the empty tables were staged. -/
def emptyStaged : Disk :=
  ((linkedStaging.put ["m.tmp"] .directory).put ["m.tmp", "classes.txt"] (.file .empty false)).put
    ["m.tmp", "sources.txt"] (.file .empty false) |>.put ["m.tmp", "deps.txt"] (.file .empty false)

/-- A store with one class. -/
def oneClass : Store := { new ⟨"m"⟩ with classes := {("A", "/A.java")} }

/-- An empty file can be written in a directory where it is missing. -/
theorem stops_create {goals : List Goal} {table : String} (hdir : d.find? l = some .directory)
    (hname : Path.IsName table) (hsize : table.utf8ByteSize ≤ Path.nameLimit)
    (hnone : d.find? (l ++ [table]) = none)
    (rest : Stops goals (d.put (l ++ [table]) (.file .empty false)) d') :
    Stops (.write (l ++ [table]) .empty :: goals) d d' := by
  have hfile : (d.put (l ++ [table]) (.file .empty false)).find? (l ++ [table]) =
      some (.file .empty false) := by
    rw [find?_put _ (by simp), if_pos rfl]
  exact .op (.create hname hsize hdir hnone) (.next ⟨false, hfile⟩ rest)

theorem stops_emptyStaged : Stops (oneClass.savingGoals [] "m") linkedStaging emptyStaged := by
  have hmake : (Goal.make ["m.tmp"]).Op linkedStaging (linkedStaging.put ["m.tmp"] .directory) :=
    .make (k := []) (Location.covers_self _) (by decide) (by decide) rfl rfl
  refine .next rfl (.op hmake (.next rfl ?_))
  refine stops_create (l := ["m.tmp"]) rfl (by decide) (by decide) rfl ?_
  refine stops_create (l := ["m.tmp"]) rfl (by decide) (by decide) rfl ?_
  exact stops_create (l := ["m.tmp"]) rfl (by decide) (by decide) rfl .here

/-- A store whose path goes through where it is staged is not there after it was saved, and one whose
place is a link to it is there with empty tables while it is being staged. -/
theorem not_save_interrupted_staging :
    (∃ w', (new ⟨"m.tmp/../m"⟩).save.on (.start .empty [] ∅) = (.ok (), w') ∧
      isAt w'.disk w'.cwd ⟨"m.tmp/../m"⟩ = false) ∧
      Stops (oneClass.savingGoals [] "m") linkedStaging emptyStaged ∧
        ¬SameTables ⟨"m"⟩ [] linkedStaging emptyStaged ∧
          isAt emptyStaged [] ⟨"m"⟩ = true ∧ ¬emptyStaged.Holds ["m"] oneClass.contents := by
  constructor
  · have hsaved : (((new ⟨"m.tmp/../m"⟩).save.on (.start .empty [] ∅)).1 matches .ok _) = true := by
      decide +kernel
    have hat : isAt ((new ⟨"m.tmp/../m"⟩).save.on (.start .empty [] ∅)).2.disk
        ((new ⟨"m.tmp/../m"⟩).save.on (.start .empty [] ∅)).2.cwd ⟨"m.tmp/../m"⟩ = false := by
      decide +kernel
    rcases hsave : (new ⟨"m.tmp/../m"⟩).save.on (.start .empty [] ∅) with ⟨f | _, w'⟩
    · rw [hsave] at hsaved
      cases hsaved
    · rw [hsave] at hat
      exact ⟨w', rfl, hat⟩
  · refine ⟨stops_emptyStaged, fun hsame => ?_, by decide +kernel, fun hholds => ?_⟩
    · have hafter : (emptyStaged.readFile [] (Path.push ⟨"m"⟩ "classes.txt") matches .ok _) = true := by
        decide +kernel
      have hbefore : (linkedStaging.readFile [] (Path.push ⟨"m"⟩ "classes.txt") matches .error _) =
          true := by decide +kernel
      cases hread : emptyStaged.readFile [] (Path.push ⟨"m"⟩ "classes.txt") with
      | error fault =>
        rw [hread] at hafter
        cases hafter
      | ok bytes =>
        rw [(hsame "classes.txt" (by simp [tableNames]) bytes).1 hread] at hbefore
        cases hbefore
    · have hlink : emptyStaged.find? ["m"] = some (.link ⟨"m.tmp"⟩) := rfl
      rw [hholds.directory] at hlink
      cases hlink

end Store

end Recompile
