import Recompile.Proofs.Build.Sources

/-!
# A search finds every matching file once

From a directory that a path opens, the files found are exactly those below it to which directories
lead, no link among them, and whose names have the extension: each of them once, in whatever order the
directories are listed. A greater limit changes nothing. The search fails only if the path of a
directory on the way is refused, as one that is too long is.
-/

namespace Recompile

namespace Path

variable {p : Path} {name extension : String} {names names' : List String}

/-- The extension is what follows the last dot of a name, unless that dot is its first character. -/
theorem splitExtension_eq_some_iff : (splitExtension name).2 = some extension ↔
    ∃ stem, stem ≠ "" ∧ name = stem ++ "." ++ extension ∧ '.' ∉ extension.toList := by
  have hdot : ("." : String).toList = ['.'] := rfl
  have hcut (stem : String) : Text.cutLast? "." name = some (stem, extension) ↔
      name = stem ++ "." ++ extension ∧ '.' ∉ extension.toList := by
    rw [Text.cutLast?, hdot, Option.map_eq_some_iff, ← String.toList_inj]
    constructor
    · rintro ⟨⟨before, rest⟩, hof, heq⟩
      simp only [Prod.mk.injEq] at heq
      obtain ⟨rfl, rfl⟩ := heq
      obtain ⟨htext, hfree⟩ := (Text.cutLastOf_eq_some_iff (by simp)).1 hof
      refine ⟨by simpa [hdot] using htext, fun hmem => hfree ?_⟩
      rw [String.toList_ofList] at hmem
      exact (List.singleton_infix_iff ..).2 hmem
    · rintro ⟨htext, hfree⟩
      refine ⟨(stem.toList, extension.toList), ?_, by simp⟩
      refine (Text.cutLastOf_eq_some_iff (by simp)).2 ⟨by simpa [hdot] using htext, fun hinfix => ?_⟩
      exact hfree ((List.singleton_infix_iff ..).1 (by simpa using hinfix))
  unfold splitExtension
  cases hlast : Text.cutLast? "." name with
  | none =>
    refine iff_of_false (by simp) ?_
    rintro ⟨stem, -, h⟩
    rw [(hcut stem).2 h] at hlast
    cases hlast
  | some cut =>
    obtain ⟨stem, tail⟩ := cut
    dsimp only
    constructor
    · intro h
      split_ifs at h with hstem
      cases h
      exact ⟨stem, hstem, (hcut stem).1 hlast⟩
    · rintro ⟨stem', hstem, h⟩
      rw [(hcut stem').2 h] at hlast
      cases hlast
      rw [if_neg hstem]

/-- Different names pushed onto a path give different paths. -/
theorem foldl_push_injective (hne : names ≠ []) (hne' : names' ≠ [])
    (hnames : ∀ name ∈ names, IsName name) (hnames' : ∀ name ∈ names', IsName name)
    (h : names.foldl push p = names'.foldl push p) : names = names' := by
  have hparts := congrArg parts h
  rw [parts_foldl_push hne hnames, parts_foldl_push hne' hnames'] at hparts
  exact List.append_cancel_left hparts

end Path

namespace Disk

variable {d d' : Disk} {cwd s l x : Location} {p : Path}

/-- A walk that ends behind a slash has ended before it. -/
theorem walkUntilLink_of_slash {jump jump' : Location → List String → Except Fault Location}
    (hjump : ∀ l parts, jump l (parts ++ [""]) = .ok x → jump' l parts = .ok x) (l : Location)
    (parts : List String) (h : d.walkUntilLink true jump l (parts ++ [""]) = .ok x) :
    d.walkUntilLink true jump' l parts = .ok x := by
  induction parts generalizing l with
  | nil =>
    rw [List.nil_append, walkUntilLink_skip (find?_of_walkUntilLink_cons h) (.inl rfl)] at h
    exact h
  | cons part rest ih =>
    rw [List.cons_append] at h
    have hd := find?_of_walkUntilLink_cons h
    rcases part_cases part with hskip | rfl | hdown
    · rw [walkUntilLink_skip hd hskip] at h ⊢
      exact ih l h
    · rw [walkUntilLink_up hd] at h ⊢
      exact ih l.dropLast h
    · have hsize := size_of_walkUntilLink_cons hdown h
      by_cases hl : ∃ target, d.find? (l ++ [part]) = some (.link target)
      · obtain ⟨target, htarget⟩ := hl
        rw [walkUntilLink_link hd hdown hsize htarget, if_neg (by simp)] at h ⊢
        rw [← List.append_assoc] at h
        exact hjump _ _ h
      · rw [walkUntilLink_down hd hdown hsize (not_exists.1 hl)] at h ⊢
        exact ih _ h

theorem walk_of_slash (links : Nat) (l : Location) (parts : List String)
    (h : d.walk true links l (parts ++ [""]) = .ok x) : d.walk true links l parts = .ok x := by
  induction links generalizing l parts with
  | zero =>
    refine walkUntilLink_of_slash (fun _ _ hjump => ?_) l parts h
    cases hjump
  | succ links ih => exact walkUntilLink_of_slash ih l parts h

/-- A path that opens a directory leads to it. -/
theorem leads_of_resolve (hresolve : d.resolve cwd true p = .ok s)
    (hdir : d.find? s = some .directory) : Leads d cwd p s := by
  refine ⟨?_, hdir⟩
  unfold resolve at hresolve
  rw [Except.bind_eq_ok_iff] at hresolve
  obtain ⟨-, -, hwalk⟩ := hresolve
  rcases p.parts_eq_trunk_or with hparts | hparts
  · rwa [hparts] at hwalk
  · rw [hparts] at hwalk
    exact walk_of_slash _ _ _ hwalk

/-- Where something stands does not depend on the order of the entries. -/
theorem find?_perm (h : d'.entries.Perm d.entries) (l : Location) : d'.find? l = d.find? l := by
  by_cases hl : l = []
  · simp [hl]
  · ext e
    rw [find?_eq_some_iff _ hl, find?_eq_some_iff _ hl, h.mem_iff]

theorem IsTree.perm (tree : d.IsTree) (h : d'.entries.Perm d.entries) : d'.IsTree := by
  constructor
  · simpa only [find?_perm h] using tree.parent
  · simpa only [find?_perm h] using tree.isName

theorem Leads.perm (hleads : Leads d cwd p s) (h : d'.entries.Perm d.entries) :
    Leads d' cwd p s :=
  hleads.of_keeps (.of_subset fun l _ hfind => (find?_perm h l).trans hfind)

end Disk

namespace Directory

open Disk

variable {d d' : Disk} {cwd s : Location} {directory file : Path} {extension : String}

/-- The names lead down from `s` through directories to a file whose name has the extension. -/
structure Matches (d : Disk) (s : Location) (extension : String) (names : List String) : Prop where
  through : ∀ before name after, names = before ++ name :: after →
    d.find? (s ++ before) = some .directory
  file : ∃ bytes runnable, d.find? (s ++ names) = some (.file bytes runnable)
  extension : ∃ init stem, names = init ++ [stem ++ "." ++ extension] ∧ stem ≠ "" ∧
    '.' ∉ extension.toList

theorem finds_iff_matches (tree : d.IsTree) : Finds d s directory extension [] file ↔
    ∃ names, Matches d s extension names ∧ file = names.foldl Path.push directory := by
  have hextension (init : List String) (last : String) {e : Entry}
      (hfind : d.find? (s ++ (init ++ [last])) = some e) :
      ((init ++ [last]).foldl Path.push directory).extension = some extension ↔
        ∃ stem, stem ≠ "" ∧ last = stem ++ "." ++ extension ∧ '.' ∉ extension.toList := by
    rw [List.foldl_append, List.foldl_cons, List.foldl_nil,
      Path.extension_push (tree.isName_of_mem hfind (by simp)), Path.splitExtension_eq_some_iff]
  constructor
  · rintro ⟨names, bytes, runnable, hne, hfind, hfile, hhas⟩
    rw [List.nil_append] at hfind hfile
    refine ⟨names, ⟨fun before name after heq => ?_, ⟨bytes, runnable, hfind⟩, ?_⟩, hfile⟩
    · exact (tree.directory_of_concat_append hfind heq).1
    · obtain ⟨init, last, rfl⟩ := List.eq_nil_or_concat' names |>.resolve_left hne
      rw [hfile, hextension init last hfind] at hhas
      obtain ⟨stem, hstem, rfl, hfree⟩ := hhas
      exact ⟨init, stem, rfl, hstem, hfree⟩
  · rintro ⟨names, ⟨-, ⟨bytes, runnable, hfind⟩, init, stem, rfl, hstem, hfree⟩, rfl⟩
    exact ⟨init ++ [stem ++ "." ++ extension], bytes, runnable, by simp, hfind, rfl,
      (hextension init _ hfind).2 ⟨stem, hstem, rfl, hfree⟩⟩

/-! ## Nothing is found twice -/

/-- The path names a file in the directory `p` below `s`. -/
def StandsIn (d : Disk) (s : Location) (directory : Path) (p : Location) (file : Path) : Prop :=
  ∃ name bytes runnable, d.find? (s ++ (p ++ [name])) = some (.file bytes runnable) ∧
    file = (p ++ [name]).foldl Path.push directory

theorem StandsIn.unique (tree : d.IsTree) {p q : Location} (h : StandsIn d s directory p file)
    (h' : StandsIn d s directory q file) : p = q := by
  obtain ⟨name, bytes, runnable, hfind, rfl⟩ := h
  obtain ⟨name', bytes', runnable', hfind', heq⟩ := h'
  have hsame := Path.foldl_push_injective (by simp) (by simp)
    (fun _ => tree.isName_of_mem hfind) (fun _ => tree.isName_of_mem hfind') heq
  exact (List.append_inj' hsame rfl).1

theorem nodup_matching (tree : d.IsTree) (p : Location) :
    (matching extension (p.foldl Path.push directory) (d.children (s ++ p))).Nodup := by
  refine List.Nodup.filter _ ?_
  have hpairs := (d.nodup_children (s ++ p))
  rw [List.nodup_iff_pairwise_ne, List.pairwise_map] at hpairs
  rw [List.nodup_iff_pairwise_ne, List.pairwise_filterMap]
  refine hpairs.imp_of_mem fun {a b} ha hb hne file hfile file' hfile' => ?_
  have hname {e : String × Entry} (he : e ∈ d.children (s ++ p)) : Path.IsName e.1 :=
    (tree.isName _ _ _ (d.mem_children_iff.1 he)).1
  split_ifs at hfile hfile'
  cases hfile
  cases hfile'
  intro heq
  refine hne ?_
  have hsame := @Path.foldl_push_injective _ [a.1] [b.1] (by simp) (by simp)
    (by simpa using hname ha) (by simpa using hname hb) heq
  exact List.singleton_inj.1 hsame

theorem standsIn_of_matching {p : Location}
    (h : file ∈ matching extension (p.foldl Path.push directory) (d.children (s ++ p))) :
    StandsIn d s directory p file := by
  simp only [matching, List.mem_filter, List.mem_filterMap] at h
  obtain ⟨⟨⟨name, e⟩, hentry, heq⟩, -⟩ := h
  split_ifs at heq with hfile
  cases heq
  have hfind := d.mem_children_iff.1 hentry
  cases e with
  | file bytes runnable => exact ⟨name, bytes, runnable, by simpa using hfind, by simp⟩
  | directory => cases hfile
  | link => cases hfile

/-- A search finds no file twice, and none in a directory that was visited before. -/
theorem nodup_search (tree : d.IsTree) (lists : Lists d cwd s directory) (limit : Nat)
    {visited pending : List Location} (frontier : Frontier d s visited pending) {files : List Path}
    (h : search d cwd extension limit (pending.map fun p => p.foldl Path.push directory) =
      .ok files) :
    files.Nodup ∧ ∀ file ∈ files, ∃ p, p ∉ visited ∧ StandsIn d s directory p file := by
  induction limit generalizing visited pending files with
  | zero =>
    cases h
    simp
  | succ limit ih =>
    cases pending with
    | nil =>
      cases h
      simp
    | cons p pending =>
      have hp : p ∉ visited := fun hmem =>
        (List.nodup_append.1 frontier.nodup).2.2 p hmem p List.mem_cons_self rfl
      rw [List.map_cons, search, lists p (frontier.directory p (by simp))] at h
      cases hcheck : (p.foldl Path.push directory).check with
      | error fault =>
        rw [hcheck] at h
        cases h
      | ok u =>
        rw [hcheck] at h
        simp only [bind, Except.bind, pure, Except.pure, subdirectories_eq, ← List.map_append] at h
        cases hsearch : search d cwd extension limit
            ((kids d s p ++ pending).map fun p => p.foldl Path.push directory) with
        | error failure =>
          rw [hsearch] at h
          cases h
        | ok more =>
          rw [hsearch] at h
          cases h
          obtain ⟨hnodup, hmore⟩ := ih frontier.step hsearch
          refine ⟨List.nodup_append.2 ⟨nodup_matching tree p, hnodup, ?_⟩, fun file hfile => ?_⟩
          · rintro file hfile _ hlater rfl
            obtain ⟨q, hq, hstands⟩ := hmore file hlater
            have hpq := (standsIn_of_matching hfile).unique tree hstands
            exact hq (hpq ▸ List.mem_cons_self)
          · rcases List.mem_append.1 hfile with hfile | hfile
            · exact ⟨p, hp, standsIn_of_matching hfile⟩
            · obtain ⟨q, hq, hstands⟩ := hmore file hfile
              exact ⟨q, fun hmem => hq (List.mem_cons_of_mem p hmem), hstands⟩

/-! ## The search ends -/

/-- One more step makes no difference where all directories fit below the limit. -/
theorem search_succ (lists : Lists d cwd s directory) (limit : Nat)
    {visited pending : List Location} (frontier : Frontier d s visited pending)
    (hlimit : d.entries.length + 2 ≤ limit + visited.length) :
    search d cwd extension (limit + 1) (pending.map fun p => p.foldl Path.push directory) =
      search d cwd extension limit (pending.map fun p => p.foldl Path.push directory) := by
  induction limit generalizing visited pending with
  | zero =>
    have hbound := frontier.length_le
    omega
  | succ limit ih =>
    cases pending with
    | nil => rfl
    | cons p pending =>
      have hrest := ih frontier.step (by simp only [List.length_cons]; omega)
      rw [List.map_append, ← subdirectories_eq] at hrest
      rw [List.map_cons, search, search, lists p (frontier.directory p (by simp))]
      cases hcheck : (p.foldl Path.push directory).check with
      | error fault => rfl
      | ok u =>
        simp only [bind, Except.bind, pure, Except.pure]
        rw [hrest]

theorem frontier_start (hdir : d.find? s = some .directory) : Frontier d s [] [[]] := by
  refine ⟨by simp, by simpa using hdir, fun p name hmem => ?_⟩
  simp at hmem

theorem search_of_le (lists : Lists d cwd s directory) (hdir : d.find? s = some .directory)
    {limit : Nat} (hlimit : d.entries.length + 2 ≤ limit) :
    search d cwd extension limit [directory] =
      search d cwd extension (d.entries.length + 2) [directory] := by
  induction limit, hlimit using Nat.le_induction with
  | base => rfl
  | succ limit hle ih =>
    rw [← ih]
    exact @search_succ d cwd s directory extension lists limit [] [[]] (frontier_start hdir) hle

/-- Where the same things stand, the same is found, whatever the order of the entries. -/
theorem findFiles_perm {w : World} (tree : w.disk.IsTree)
    (hleads : Leads w.disk w.cwd directory s) (hperm : d'.entries.Perm w.disk.entries)
    {files : List Path} (h : (findFiles directory extension).on w = (.ok files, w)) :
    ∃ files', (findFiles directory extension).on { w with disk := d' } =
      (.ok files', { w with disk := d' }) ∧ ∀ file, file ∈ files' ↔ file ∈ files := by
  have tree' := tree.perm hperm
  have hleads' := hleads.perm hperm
  have hall : ∀ m : Location, s.covers m = true →
      ({ w with disk := d' } : World).disk.find? m = w.disk.find? m :=
    fun m _ => find?_perm hperm m
  obtain ⟨-, hnameable, hfiles⟩ :=
    (findFiles_lists tree (lists_of_leads tree hleads) hleads.directory).of_ok h
  have hspec := @findFiles_lists s directory extension { w with disk := d' } tree'
    (lists_of_leads tree' hleads') hleads'.directory
  rcases hon : (findFiles directory extension).on { w with disk := d' } with ⟨f | files', w'⟩
  · obtain ⟨-, hnot⟩ := hspec.of_error hon
    exact absurd ((nameable_congr hall).2 hnameable) hnot
  · obtain ⟨rfl, -, hfiles'⟩ := hspec.of_ok hon
    refine ⟨files', rfl, fun file => ?_⟩
    rw [hfiles, hfiles', finds_congr hall]

theorem nodup_findFiles {w : World} (tree : w.disk.IsTree)
    (hleads : Leads w.disk w.cwd directory s) {files : List Path} {w' : World}
    (h : (findFiles directory extension).on w = (.ok files, w')) : files.Nodup := by
  have hspec : (findFiles directory extension).wp w (fun files _ => files.Nodup) fun _ _ => True := by
    unfold findFiles
    simp only [Action.wp_bind, Action.wp_get, Action.wp_ofExcept]
    cases hsearch : search w.disk w.cwd extension (w.disk.entries.length + 2) [directory] with
    | error failure => trivial
    | ok files =>
      have hnodup := nodup_search tree (lists_of_leads tree hleads) _
        (frontier_start hleads.directory) hsearch
      exact hnodup.1
  exact hspec.of_ok h

/-- From a directory that a path opens, the search ends: a greater limit makes no difference. It
succeeds unless a directory below has a path that is refused, and what it finds are the matching files,
each of them once. Another order of the entries gives the same. -/
theorem findFiles_exactly {w : World} (tree : w.disk.IsTree)
    (hopen : w.disk.resolve w.cwd true directory = .ok s)
    (hdir : w.disk.find? s = some .directory) (extension : String) :
    (∀ limit, w.disk.entries.length + 2 ≤ limit →
      search w.disk w.cwd extension limit [directory] =
        search w.disk w.cwd extension (w.disk.entries.length + 2) [directory]) ∧
    ((∃ files, (findFiles directory extension).on w = (.ok files, w)) ↔
      ∀ names, w.disk.find? (s ++ names) = some .directory →
        (names.foldl Path.push directory).check = .ok ()) ∧
    ∀ files, (findFiles directory extension).on w = (.ok files, w) →
      files.Nodup ∧
      (∀ file, file ∈ files ↔
        ∃ names, Matches w.disk s extension names ∧ file = names.foldl Path.push directory) ∧
      ∀ d', d'.entries.Perm w.disk.entries →
        ∃ files', (findFiles directory extension).on { w with disk := d' } =
          (.ok files', { w with disk := d' }) ∧ files'.Perm files := by
  have hleads := leads_of_resolve hopen hdir
  have hspec := @findFiles_lists s directory extension w tree (lists_of_leads tree hleads) hdir
  refine ⟨fun limit hle => search_of_le (lists_of_leads tree hleads) hdir hle, ⟨?_, ?_⟩,
    fun files hfiles => ?_⟩
  · rintro ⟨files, hfiles⟩ names hnames
    obtain ⟨-, hnameable, -⟩ := hspec.of_ok hfiles
    simpa using hnameable names (by simpa using hnames)
  · intro hcheck
    have hnameable : Nameable w.disk s directory [] := fun rest hrest => by
      simpa using hcheck rest (by simpa using hrest)
    rcases hon : (findFiles directory extension).on w with ⟨f | files, w'⟩
    · exact absurd hnameable (hspec.of_error hon).2
    · rw [(hspec.of_ok hon).1]
      exact ⟨files, rfl⟩
  · have hnodup := nodup_findFiles tree hleads hfiles
    refine ⟨hnodup, fun file => ?_, fun d' hperm => ?_⟩
    · rw [(hspec.of_ok hfiles).2.2, finds_iff_matches tree]
    · obtain ⟨files', hfiles', hmem⟩ := findFiles_perm tree hleads hperm hfiles
      have hnodup' :=
        nodup_findFiles (w := { w with disk := d' }) (tree.perm hperm) (hleads.perm hperm) hfiles'
      exact ⟨files', hfiles', (List.perm_ext_iff_of_nodup hnodup' hnodup).2 hmem⟩

/-- Files in a tree, in a directory that is called like one and by a name that is all stem, and a link
back to the root. -/
def scattered : World :=
  .start ⟨[(["src"], .directory), (["src", "A.java"], .file .empty false),
    (["src", "old.java"], .directory), (["src", "old.java", "a.b.java"], .file .empty false),
    (["src", ".java"], .file .empty false), (["src", "back"], .link ⟨".."⟩)], by decide⟩ [] ∅

theorem findFiles_exactly_scattered :
    scattered.disk.IsTree ∧ scattered.disk.resolve scattered.cwd true ⟨"/src/"⟩ = .ok ["src"] ∧
      scattered.disk.find? ["src"] = some .directory ∧
      ∃ files, (findFiles ⟨"/src/"⟩ "java").on scattered = (.ok files, scattered) ∧
        files.Nodup ∧ ⟨"/src/old.java/a.b.java"⟩ ∈ files := by
  have tree : scattered.disk.IsTree := isTree_of_isWellFormed (by decide)
  have hopen : scattered.disk.resolve scattered.cwd true ⟨"/src/"⟩ = .ok ["src"] := by decide
  have hdir : scattered.disk.find? ["src"] = some .directory := rfl
  have hfound : (findFiles ⟨"/src/"⟩ "java").on scattered =
      (.ok [⟨"/src/A.java"⟩, ⟨"/src/old.java/a.b.java"⟩], scattered) := by rfl
  obtain ⟨-, -, hexact⟩ := findFiles_exactly tree hopen hdir "java"
  exact ⟨tree, hopen, hdir, _, hfound, (hexact _ hfound).1, by simp⟩

/-! ## Directories below one another -/

/-- A file, and beside it that many directories one in the other. -/
def nested : ℕ → Disk
  | 0 => Disk.empty.put ["A.java"] (.file .empty false)
  | n + 1 => (nested n).put (List.replicate (n + 1) "d") .directory

theorem find?_nested {n k : ℕ} (h : k ≤ n) :
    (nested n).find? (List.replicate k "d") = some .directory := by
  induction n with
  | zero =>
    obtain rfl : k = 0 := by omega
    rfl
  | succ n ih =>
    rw [nested, find?_put _ (by simp)]
    split_ifs with hlast
    · rfl
    · have hne : k ≠ n + 1 := fun heq => hlast (heq ▸ rfl)
      exact ih (by omega)

theorem find?_nested_file (n : ℕ) :
    (nested n).find? ["A.java"] = some (.file .empty false) := by
  induction n with
  | zero => rfl
  | succ n ih =>
    have hne : ["A.java"] ≠ List.replicate (n + 1) "d" := by
      rw [List.replicate_succ]
      simp
    rw [nested, find?_put _ (by simp), if_neg hne, ih]

theorem isTree_nested (n : ℕ) : (nested n).IsTree := by
  induction n with
  | zero => exact isTree_of_isWellFormed (by decide)
  | succ n ih =>
    rw [nested, List.replicate_succ']
    exact ih.put (find?_nested le_rfl) (by decide) (by decide) fun _ => rfl

theorem utf8ByteSize_foldl_push_le {p : Path} (n : ℕ) :
    n ≤ ((List.replicate n "d").foldl Path.push p).text.utf8ByteSize := by
  have hname : Path.IsName "d" := by decide
  have hpush (q : Path) : q.text.utf8ByteSize + 1 ≤ (q.push "d").text.utf8ByteSize := by
    have hd : ("d" : String).utf8ByteSize = 1 := by decide
    unfold Path.push
    rw [hname.not_startsWith]
    simp only [Bool.false_eq_true, if_false]
    split_ifs <;> simp only [String.utf8ByteSize_append] <;> omega
  induction n with
  | zero => exact Nat.zero_le _
  | succ n ih =>
    rw [List.replicate_succ', List.foldl_append, List.foldl_cons, List.foldl_nil]
    have := hpush ((List.replicate n "d").foldl Path.push p)
    omega

theorem not_nameable_nested {n : ℕ} (h : Path.sizeLimit < n) (p : Path) :
    ¬Nameable (nested n) [] p [] := by
  intro hnameable
  have hcheck := hnameable (List.replicate n "d") (by simpa using find?_nested (n := n) le_rfl)
  rw [List.nil_append] at hcheck
  have hsize := (Path.check_eq_ok_iff.1 hcheck).2.2
  have hlong := utf8ByteSize_foldl_push_le (p := p) n
  omega

theorem resolve_nested (n : ℕ) : (nested n).resolve [] true ⟨"/"⟩ = .ok [] := by
  have hcheck : (⟨"/"⟩ : Path).check = .ok () := by decide
  rw [((nested n).leads_root []).resolve_self, hcheck]
  rfl

theorem matches_nested (n : ℕ) : Matches (nested n) [] "java" ["A.java"] := by
  refine ⟨fun before name after heq => ?_, ⟨_, _, find?_nested_file n⟩, [], "A", by decide,
    by decide, by decide⟩
  cases before with
  | nil => exact find?_nil _
  | cons first rest => simp at heq

theorem findFiles_nested {n : ℕ} (h : Path.sizeLimit < n) :
    ¬∃ files, (findFiles ⟨"/"⟩ "java").on (.start (nested n) [] ∅) =
      (.ok files, .start (nested n) [] ∅) := by
  rintro ⟨files, hfiles⟩
  have hspec := @findFiles_lists [] ⟨"/"⟩ "java" (.start (nested n) [] ∅) (isTree_nested n)
    (lists_of_leads (isTree_nested n) ((nested n).leads_root [])) (find?_nil _)
  exact not_nameable_nested h _ (hspec.of_ok hfiles).2.1

/-- Where directories are nested so deep that the path of one is too long, a file beside them is not
found either. -/
theorem not_findFiles_nested :
    (nested 4096).IsTree ∧ (nested 4096).resolve [] true ⟨"/"⟩ = .ok [] ∧
      (nested 4096).find? [] = some .directory ∧ Matches (nested 4096) [] "java" ["A.java"] ∧
      ¬∃ files, (findFiles ⟨"/"⟩ "java").on (.start (nested 4096) [] ∅) =
        (.ok files, .start (nested 4096) [] ∅) :=
  ⟨isTree_nested _, resolve_nested _, find?_nil _, matches_nested _, findFiles_nested (by decide)⟩

end Directory

end Recompile
