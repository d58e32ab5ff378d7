import Recompile.Proofs.Store.Save

/-!
# A save as a sequence of single operations

A save stages the new store, removes the old one and moves the new one into its place. However it ends,
what it has done is a sequence of single operations for these goals, one goal after the other.
-/

namespace Recompile

namespace Disk

/-- The goals of writing files in a directory. -/
def writing (l : Location) (items : List (String × ByteArray)) : List Goal :=
  items.map fun item => .write (l ++ [item.1]) item.2

/-- The files of a directory in which others were written. -/
def updates (files : String → Option ByteArray) (items : List (String × ByteArray)) :
    String → Option ByteArray :=
  items.foldl (fun files item => Function.update files item.1 (some item.2)) files

end Disk

namespace Store

open Disk

attribute [local irreducible] Action.wp

variable {w : World} {d d' : Disk} {k l : Location} {name : String} {directory : Path}

/-! ## The goals -/

/-- What is written where a store is staged: empty tables first. -/
def staged (s : Store) : List (String × ByteArray) :=
  tableNames.map (fun table => (table, .empty)) ++
    [("classes.txt", (writeRows s.classes.toList).toUTF8),
      ("sources.txt", (writeRows s.sources.toList).toUTF8),
      ("deps.txt", (writeRows s.dependencies.sortedEdges).toUTF8)]

theorem updates_staged (s : Store) : updates (fun _ => none) s.staged = s.contents := by
  funext name
  by_cases hname : name ∈ tableNames
  · simp only [tableNames, List.mem_cons, List.not_mem_nil, or_false] at hname
    rcases hname with rfl | rfl | rfl <;> simp [updates, staged, tableNames, contents, files]
  · simp only [tableNames, List.mem_cons, List.not_mem_nil, or_false, not_or] at hname
    simp [updates, staged, tableNames, contents, files, hname]

/-- The goals of staging a store. -/
def stagingGoals (s : Store) (l : Location) : List Goal :=
  [.remove l, .make l] ++ writing l s.staged

/-- The goals of saving a store. -/
def savingGoals (s : Store) (k : Location) (name : String) : List Goal :=
  s.stagingGoals (k ++ [besideName name]) ++
    ([.remove (k ++ [name])] ++ [.move (k ++ [besideName name]) (k ++ [name])])

/-! ## Working on them -/

/-- Working on some goals and then on more. -/
theorem runs_bind {α β : Type} {a : Action α} {next : α → Action β} {goals more : List Goal}
    {P : α → World → Prop}
    (first : a.wp w (fun x w' => Runs goals w.disk w'.disk ∧ P x w')
      fun _ w' => Stops goals w.disk w'.disk)
    (rest : ∀ x w', P x w' → (next x).wp w' (fun _ w'' => Runs more w'.disk w''.disk)
      fun _ w'' => Stops more w'.disk w''.disk) :
    (a >>= next).wp w (fun _ w'' => Runs (goals ++ more) w.disk w''.disk)
      fun _ w'' => Stops (goals ++ more) w.disk w''.disk := by
  rw [Action.wp_bind]
  refine first.mono (fun x w' h => ?_) fun _ w' h => h.append
  exact (rest x w' h.2).mono (fun _ _ h' => h.1.append h') fun _ _ h' => h.1.stops_append h'

theorem runs_erase (tree : d.IsTree) (hne : l ≠ []) : Runs [.remove l] d (d.erase l) := by
  refine runs_of_reflTransGen (reflTransGen_erase tree hne) ?_
  change (d.erase l).find? l = none
  rw [find?_erase, if_pos ⟨hne, Location.covers_self l⟩]

/-- Writing files one after the other into a directory that is being made. -/
def writeFiles (directory : Path) (items : List (String × ByteArray)) : Action Unit :=
  items.forM fun item => Action.change fun d cwd => d.writeFile cwd (directory.push item.1) item.2

theorem runs_writeFile (bytes : ByteArray) {w' : World}
    {files : String → Option ByteArray} (h : Making directory l files w w') {table : String}
    (htable : Path.IsName table) :
    (Action.change fun d cwd => d.writeFile cwd (directory.push table) bytes).wp w'
      (fun _ w'' => Runs [.write (l ++ [table]) bytes] w'.disk w''.disk ∧
        Making directory l (Function.update files table (some bytes)) w w'')
      fun _ w'' => w'' = w' := by
  have hmake := h.writeFile htable bytes
  rw [Action.wp_change] at hmake ⊢
  cases hwrite : w'.disk.writeFile w'.cwd (directory.push table) bytes with
  | error fault => rfl
  | ok d =>
    rw [hwrite] at hmake
    refine ⟨?_, hmake.1⟩
    have hpush := h.holds.reaches_push h.reaches htable
    obtain ⟨-, runnable, hfind, rfl⟩ := hpush.writeFile_eq_ok (h.holds.not_link table) hwrite
    have hne : l ++ [table] ≠ [] := by simp
    have hempty : (w'.disk.put (l ++ [table]) (.file .empty runnable)).find? (l ++ [table]) =
        some (.file .empty runnable) := by rw [find?_put _ hne, if_pos rfl]
    have hfull : ((w'.disk.put (l ++ [table]) (.file .empty runnable)).put (l ++ [table])
        (.file bytes runnable)).find? (l ++ [table]) = some (.file bytes runnable) := by
      rw [find?_put _ hne, if_pos rfl]
    have hparts : bytes = bytes ++ .empty := by simp
    have hnothing : bytes = .empty ++ bytes := by simp
    have hlast : Runs [.write (l ++ [table]) bytes]
        (w'.disk.put (l ++ [table]) (.file .empty runnable))
        ((w'.disk.put (l ++ [table]) (.file .empty runnable)).put (l ++ [table])
          (.file bytes runnable)) := .op (.write hempty hparts) (.next ⟨runnable, hfull⟩ .done)
    rcases hfind with hnone | ⟨old, hold⟩
    · obtain ⟨-, hsize⟩ := hmake.1.tree.isName l table _ hfull
      exact .op (.create htable hsize h.holds.directory hnone) hlast
    · exact .op (.write hold hnothing) hlast

theorem runs_writeFiles {w' : World} {files : String → Option ByteArray}
    (items : List (String × ByteArray)) (h : Making directory l files w w')
    (hitems : ∀ item ∈ items, Path.IsName item.1) :
    (writeFiles directory items).wp w'
      (fun _ w'' => Runs (writing l items) w'.disk w''.disk ∧
        Making directory l (updates files items) w w'')
      fun _ w'' => Stops (writing l items) w'.disk w''.disk := by
  induction items generalizing w' files with
  | nil => exact (Action.wp_pure _).2 ⟨.done, h⟩
  | cons item rest ih =>
    have hfirst := runs_writeFile item.2 h (hitems item List.mem_cons_self)
    unfold writeFiles
    rw [List.forM, Action.wp_bind]
    refine hfirst.mono (fun _ w₁ h₁ => ?_) fun _ w₁ h₁ => h₁ ▸ .here
    have hrest := ih h₁.2 fun other hother => hitems other (List.mem_cons_of_mem item hother)
    exact hrest.mono (fun _ _ h₂ => ⟨h₁.1.append h₂.1, h₂.2⟩) fun _ _ h₂ => h₁.1.stops_append h₂

/-- Putting an empty directory in the place of whatever is there. -/
def remake (directory : Path) : Action Unit := do
  Directory.removeAny directory
  Directory.create directory

theorem runs_remake (tree : w.disk.IsTree) (hreach : (w.disk.erase l).Reaches w.cwd directory l) :
    (remake directory).wp w
      (fun _ w' => Runs [.remove l, .make l] w.disk w'.disk ∧
        Making directory l (fun _ => none) w w' ∧ directory.check = Except.ok ())
      fun _ w' => Stops [.remove l, .make l] w.disk w'.disk := by
  have hmake := making_create tree hreach
  have hlink : ∀ target, (w.disk.erase l).find? l ≠ some (.link target) := by
    rw [find?_erase, if_pos ⟨hreach.ne_nil, Location.covers_self l⟩]
    simp
  have hruns : (remake directory).wp w
      (fun _ w' => Runs ([Goal.remove l] ++ [Goal.make l]) w.disk w'.disk)
      fun _ w' => Stops ([Goal.remove l] ++ [Goal.make l]) w.disk w'.disk := by
    have hremove := Directory.removeAny_reached tree hreach
    refine runs_bind (P := fun _ w' => w' = { w with disk := w.disk.erase l })
      (hremove.mono (fun _ w' h => ?_) fun _ w' h => h ▸ .here) fun _ w' h => ?_
    · rw [h]
      exact ⟨runs_erase tree hreach.ne_nil, rfl⟩
    · subst h
      have hcreate := Directory.makes_create (w := { w with disk := w.disk.erase l })
        (tree.erase l) hreach hlink
      refine hcreate.mono (fun _ w' h => ?_) fun _ w' h => stops_of_reflTransGen h.2.chain
      exact runs_of_reflTransGen h.2.1.chain h.2.2.1
  exact (hruns.and hmake).mono (fun _ _ h => h) fun _ _ h => h.1

/-- Putting what is staged in the place of the old store. -/
def replace (directory : Path) : Action Unit := do
  Directory.removeAny directory
  Action.change fun d cwd => d.rename cwd (stagingDirectory directory) directory

theorem runs_replace {files : String → Option ByteArray}
    (layout : Layout w.disk w.cwd (sites directory k name))
    (hholds : w.disk.Holds (k ++ [besideName name]) files)
    (hbeside : (stagingDirectory directory).check = .ok ()) :
    (replace directory).wp w
      (fun _ w' =>
        Runs ([Goal.remove (k ++ [name])] ++ [Goal.move (k ++ [besideName name]) (k ++ [name])])
          w.disk w'.disk)
      fun _ w' =>
        Stops ([Goal.remove (k ++ [name])] ++ [Goal.move (k ++ [besideName name]) (k ++ [name])])
          w.disk w'.disk := by
  have hne := besideName_ne name
  have hst := Location.covers_sibling (l := k) hne
  have hts := Location.covers_sibling (l := k) hne.symm
  refine (replace_moves layout hholds hbeside).mono (fun _ w' h => ?_) fun _ _ => False.elim
  subst h
  have herase := runs_erase layout.tree (l := k ++ [name]) (by simp)
  have hsource : ((w.disk.erase (k ++ [name])).find? (k ++ [besideName name])).isSome := by
    rw [find?_erase, if_neg, hholds.directory]
    · rfl
    · simp [hts]
  have htarget : (w.disk.erase (k ++ [name])).find? (k ++ [name]) = none := by
    rw [find?_erase, if_pos]
    exact ⟨by simp, Location.covers_self _⟩
  have hgone : ((w.disk.erase (k ++ [name])).move (k ++ [besideName name]) (k ++ [name])).find?
      (k ++ [besideName name]) = none := by
    rw [@find?_move _ (k ++ [besideName name]) (k ++ [name]) (by simp) (by simp) hst hts,
      if_pos (Location.covers_self _)]
  exact herase.append (.op (.move hsource htarget) (.next hgone .done))

/-- A save without the names of its steps. -/
def steps (s : Store) : Action Unit := do
  remake (stagingDirectory s.directory)
  writeFiles (stagingDirectory s.directory) s.staged
  replace s.directory

theorem wp_save_iff {s : Store} {ok : Unit → World → Prop} {P : World → Prop} :
    s.save.wp w ok (fun _ => P) ↔ s.steps.wp w ok fun _ => P := by
  simp only [save, steps, remake, replace, reset, writeTable, writeFiles, staged, tables, tableNames, classesTable,
    sourcesTable, dependenciesTable, Action.wp_bind, Action.wp_within, Action.wp_pure, List.forM,
    List.map_cons, List.map_nil, List.cons_append, List.nil_append]

/-- However a save ends, what it has done is a sequence of single operations for its goals. -/
theorem save_runs (s : Store) (layout : Layout w.disk w.cwd (sites s.directory k name)) :
    s.save.wp w (fun _ w' => Runs (s.savingGoals k name) w.disk w'.disk)
      fun _ w' => Stops (s.savingGoals k name) w.disk w'.disk := by
  have hstaged : (stagingDirectory s.directory, k ++ [besideName name]) ∈
      sites s.directory k name := by simp [sites]
  have hnames : ∀ item ∈ s.staged, Path.IsName item.1 := by
    have hall : ∀ table ∈ s.staged.map Prod.fst, Path.IsName table := by
      simp only [staged, tableNames, List.map_cons, List.map_nil, List.cons_append,
        List.nil_append]
      decide
    exact fun item hitem => hall item.1 (List.mem_map_of_mem hitem)
  rw [wp_save_iff]
  unfold steps savingGoals stagingGoals
  rw [List.append_assoc]
  refine runs_bind (runs_remake layout.tree (layout.reaches_erase hstaged)) fun _ w₁ h₁ => ?_
  obtain ⟨hmade, hbeside⟩ := h₁
  refine runs_bind (runs_writeFiles s.staged hmade hnames) fun _ w₂ h₂ => ?_
  have layout₂ : Layout w₂.disk w₂.cwd (sites s.directory k name) := by
    rw [h₂.cwd]
    exact layout.of_sameOutside hstaged h₂.tree h₂.outside
  exact runs_replace layout₂ h₂.holds hbeside

end Store

end Recompile
