import Recompile.Proofs.Directory.Clean
import Recompile.Proofs.Disk.Layout

/-!
# What cleaning leaves at a path

However a path leads to a directory, cleaning the directory leaves nothing that could be listed at
the path. The empty directory can be listed, unless the path goes through a link that is in the
directory itself: the link is removed with the rest, and then the path leads nowhere.
-/

namespace Recompile

theorem Location.toPath_cases {l : Location} (hl : l.IsProper) :
    l.toPath = ⟨"/"⟩ ∨ l.toPath.IsOpen := by
  by_cases hne : l = []
  · left
    rw [hne]
    decide
  · right
    rw [Location.toPath_eq_foldl_push hne hl]
    exact Path.isOpen_foldl_push_of_ne_nil hne hl

theorem Location.toPath_check_ne_noEntry (l : Location) : l.toPath.check ≠ .error .noEntry := by
  have hne : l.toPath.text ≠ "" := by simp [toPath]
  unfold Path.check
  rw [if_neg hne]
  split_ifs <;> simp

namespace Disk

variable {d d' : Disk} {cwd l x : Location} {p : Path} {name : String}

theorem resolve_root (d : Disk) (cwd : Location) : d.resolve cwd true ⟨"/"⟩ = .ok [] := by
  have hparts : (⟨"/"⟩ : Path).parts = ["", ""] := by decide
  have hstart : (⟨"/"⟩ : Path).start cwd = [] := by
    have : (⟨"/"⟩ : Path).isAbsolute = true := by decide
    simp [Path.start, this]
  have hcheck : (⟨"/"⟩ : Path).check = .ok () := by decide
  obtain ⟨links, hlinks⟩ : ∃ links, Path.linkLimit = links + 1 := ⟨_, rfl⟩
  unfold resolve
  rw [hcheck, hparts, hstart, hlinks, walk]
  dsimp only [bind, Except.bind]
  rw [walkUntilLink_skip d.find?_nil (.inl rfl), walkUntilLink_skip d.find?_nil (.inl rfl),
    walkUntilLink]

/-- The path of a place leads to a directory exactly if names pushed onto it go down from there. -/
theorem leads_toPath_iff (hl : l.IsProper) :
    Leads d cwd l.toPath x ∧ l.toPath.check = .ok () ↔
      d.resolve cwd true l.toPath = .ok x ∧ d.find? x = some .directory := by
  rcases Location.toPath_cases hl with hroot | hopen
  · have hcheck : (⟨"/"⟩ : Path).check = .ok () := by decide
    rw [hroot, resolve_root, hcheck]
    constructor
    · rintro ⟨h, -⟩
      rw [h.unique (d.leads_root cwd)]
      exact ⟨rfl, d.find?_nil⟩
    · rintro ⟨h, -⟩
      cases h
      exact ⟨d.leads_root cwd, rfl⟩
  · constructor
    · rintro ⟨h, hcheck⟩
      have hwalk := h.walk
      rw [hopen.trunk] at hwalk
      unfold resolve
      rw [hcheck]
      exact ⟨hwalk, h.directory⟩
    · rintro ⟨hresolve, hdir⟩
      refine ⟨.of_resolve hopen hresolve hdir, ?_⟩
      unfold resolve at hresolve
      rw [Except.bind_eq_ok_iff] at hresolve
      obtain ⟨_, hcheck, -⟩ := hresolve
      exact hcheck

theorem Leads.reaches_push (h : Leads d cwd p x) (hname : Path.IsName name) :
    d.Reaches cwd (p.push name) (x ++ [name]) := by
  refine ⟨p, x, [], name, h, by simp, hname, rfl, by simp, fun rest hne hprefix => ?_⟩
  exact absurd (List.prefix_nil.1 hprefix) hne

/-- Without its entries a directory is as if it was emptied. -/
theorem clear_keeps_eraseAll (d : Disk) (x : Location) (names : List String) :
    (d.clear x).Keeps (d.eraseAll (names.map fun name => x ++ [name])) := by
  refine .of_subset fun m e hm => ?_
  rw [find?_clear] at hm
  split_ifs at hm with hbelow
  rw [find?_eraseAll, if_neg]
  · exact hm
  · rintro ⟨hne, l, hl, hcovers⟩
    obtain ⟨name, -, rfl⟩ := List.mem_map.1 hl
    refine hbelow ⟨Location.covers_trans (Location.covers_append x [name]) hcovers, ?_, hne⟩
    rintro rfl
    rw [Location.not_covers_parent] at hcovers
    cases hcovers

theorem IsTree.eraseAll (tree : d.IsTree) (places : List Location) : (d.eraseAll places).IsTree := by
  induction places generalizing d with
  | nil => exact tree
  | cons l rest ih => exact ih (tree.erase l)

theorem find?_eraseAll_children (d : Disk) (x : Location) (name : String) :
    (d.eraseAll (((d.children x).map Prod.fst).map fun name => x ++ [name])).find? (x ++ [name]) =
      none := by
  rw [find?_eraseAll]
  split_ifs with hcond
  · rfl
  · by_contra hfind
    obtain ⟨e, he⟩ := Option.ne_none_iff_exists'.1 hfind
    refine hcond ⟨by simp, x ++ [name], List.mem_map.2 ⟨name, ?_, rfl⟩, Location.covers_self _⟩
    exact List.mem_map_of_mem (d.mem_children_iff.2 he)

theorem eraseAll_children_keeps (tree : d.IsTree) (x : Location) :
    (d.eraseAll (((d.children x).map Prod.fst).map fun name => x ++ [name])).Keeps (d.clear x) := by
  refine .of_subset fun m e hm => ?_
  have hfind := hm
  rw [find?_eraseAll] at hfind
  split_ifs at hfind
  rw [find?_clear, if_neg]
  · exact hfind
  · rintro ⟨hcovers, hne, -⟩
    obtain ⟨names, rfl⟩ := Location.covers_iff.1 hcovers
    obtain ⟨name, rest, rfl⟩ := List.exists_cons_of_ne_nil (by simpa using hne)
    have hnone := d.find?_eraseAll_children x name
    by_cases hrest : rest = []
    · rw [hrest, hnone] at hm
      cases hm
    · have hnot := hnone.trans_ne (Option.some_ne_none Entry.directory).symm
      have hbelow := (tree.eraseAll _).find?_append hnot hrest
      rw [List.append_assoc, List.singleton_append, hm] at hbelow
      cases hbelow

/-- The path leads where it leads also when the directory there is emptied. -/
def StaysPut (d : Disk) (cwd : Location) (p : Path) : Prop :=
  ∀ x, d.resolve cwd true p = .ok x → (d.clear x).resolve cwd true p = .ok x

end Disk

namespace Directory

open Disk World

variable {w : World} {p base : Path} {x : Location} {name : String}

attribute [local irreducible] Action.wp

/-- An entry that was removed is gone, as long as the path still leads to the directory. -/
theorem removeAny_push (tree : w.disk.IsTree) (hname : Path.IsName name)
    (hleads : Leads w.disk w.cwd p x) :
    (removeAny (p.push name)).wp w
      (fun _ w' => w'.disk = w.disk.erase (x ++ [name]) ∨ ¬ Leads w'.disk w.cwd p x)
      fun _ _ => True := by
  have hreach := hleads.reaches_push hname
  unfold removeAny
  simp only [Action.wp_bind, Action.wp_ask]
  cases hlook : w.disk.lookAt w.cwd (p.push name) with
  | error fault =>
    by_cases hfault : fault = .noEntry
    · subst hfault
      have hnone : w.disk.find? (x ++ [name]) = none := by
        by_contra hfind
        obtain ⟨e, he⟩ := Option.ne_none_iff_exists'.1 hfind
        cases hcheck : (p.push name).check with
        | ok u =>
          rw [(hreach.lookAt_eq_ok_iff tree).2 ⟨hcheck, he⟩] at hlook
          cases hlook
        | error fault =>
          unfold lookAt Disk.resolve at hlook
          rw [hcheck] at hlook
          cases hlook
          exact hreach.check_ne_noEntry hcheck
      exact (Action.wp_pure _).2 (.inl (tree.erase_of_none (by simp) hnone).symm)
    · cases fault <;> first | exact absurd rfl hfault | exact (Action.wp_failed _).2 trivial
  | ok e =>
    obtain ⟨hcheck, hfind⟩ := (hreach.lookAt_eq_ok_iff tree).1 hlook
    have hfile (hne : e ≠ .directory) :
        (Action.change fun d cwd => d.removeFile cwd (p.push name)).wp w
          (fun _ w' => w'.disk = w.disk.erase (x ++ [name]) ∨ ¬ Leads w'.disk w.cwd p x)
          fun _ _ => True := by
      have hremove := (hreach.removeFile_eq_ok_iff tree).2 ⟨hcheck, ⟨e, hfind, hne⟩, rfl⟩
      simp only [Action.wp_change, hremove]
      exact .inl trivial
    cases e with
    | file => exact hfile (by simp)
    | link => exact hfile (by simp)
    | directory =>
      unfold removeTree
      simp only [Action.wp_bind, Action.wp_query, hlook]
      have hresolve : w.disk.resolve w.cwd false (p.push name) = .ok (x ++ [name]) :=
        hreach.resolve_of_find? tree hcheck hfind (by simp)
      have hclear : (do return w.disk.clear (← w.disk.resolve w.cwd false (p.push name)) :
          Except Fault Disk) = .ok (w.disk.clear (x ++ [name])) := by
        rw [hresolve]
        rfl
      simp only [Action.wp_change, hclear, Action.wp_attempt]
      by_cases hstill : Leads (w.disk.clear (x ++ [name])) w.cwd p x
      · obtain ⟨-, hsize⟩ := tree.isName _ _ _ hfind
        have hremove : (w.disk.clear (x ++ [name])).removeDirectory w.cwd (p.push name) =
            .ok (w.disk.erase (x ++ [name])) := by
          refine Disk.removeDirectory_eq_ok_iff.2 ⟨x, name, false,
            (slot_push_eq_ok_iff hname).2 ⟨hcheck, hsize, x, hstill, rfl⟩, ?_, ?_,
            (w.disk.erase_clear _).symm⟩
          · rw [find?_clear, if_neg (by simp), hfind]
          · rw [children_eq_nil_iff]
            intro other
            rw [find?_clear, if_pos ⟨Location.covers_append _ _, by simp, by simp⟩]
        rw [hremove]
        exact (Action.wp_pure _).2 (.inl rfl)
      · cases hremove : (w.disk.clear (x ++ [name])).removeDirectory w.cwd (p.push name) with
        | ok d =>
          exact (Action.wp_pure _).2
            (.inr fun hleads' => hstill (hleads'.of_keeps (Disk.removeDirectory_keeps hremove)))
        | error fault =>
          cases fault <;> first
            | exact (Action.wp_failed _).2 trivial
            | exact (Action.wp_pure _).2 (.inr hstill)

/-- Entries that were removed one after the other are gone, as long as the path still leads to the
directory. -/
theorem removeEntries_emptied (tree : w.disk.IsTree) {entries : List (String × Entry)}
    (hnames : ∀ e ∈ entries, Path.IsName e.1) :
    (entries.forM fun e => Action.within (.removing (p.push e.1)) (removeAny (p.push e.1))).wp w
      (fun _ w' => w.Shrunk w' ∧
        (Leads w'.disk w.cwd p x →
          w'.disk = w.disk.eraseAll ((entries.map Prod.fst).map fun name => x ++ [name])) ∧
        (Leads (w.disk.clear x) w.cwd p x → Leads w'.disk w.cwd p x))
      fun _ _ => True := by
  refine Action.wp_forM_prefix (I := fun done w' => w.Shrunk w' ∧
    (Leads w'.disk w.cwd p x →
      w'.disk = w.disk.eraseAll ((done.map Prod.fst).map fun name => x ++ [name])) ∧
    (Leads (w.disk.clear x) w.cwd p x → Leads w'.disk w.cwd p x))
    (fun done e rest heq w₁ h₁ => ?_) ⟨.refl w, fun _ => rfl, fun h => h.of_keeps (w.disk.clear_keeps x)⟩
  obtain ⟨hshrunk, hgone, hstays⟩ := h₁
  have hname := hnames e (by simp [heq])
  simp only [List.forM, Action.wp_bind, Action.wp_within, Action.wp_pure]
  have hshrinks : (removeAny (p.push e.1)).wp w₁ (fun _ w₂ => w₁.Shrunk w₂) fun _ _ => True :=
    (removeAny_shrunk _).mono (fun _ _ h => h) fun _ _ _ => trivial
  have heraseAll (hleads₁ : Leads w₁.disk w.cwd p x) : w₁.disk.erase (x ++ [e.1]) =
      w.disk.eraseAll (((done ++ [e]).map Prod.fst).map fun name => x ++ [name]) := by
    rw [hgone hleads₁]
    simp [eraseAll]
  by_cases hkept : Leads (w₁.disk.erase (x ++ [e.1])) w.cwd p x
  · have hleads₁ := hkept.of_keeps (w₁.disk.erase_keeps _)
    have hreach := hkept.reaches_push hname
    rw [← hshrunk.cwd] at hreach
    have hremove := removeAny_reached (hshrunk.tree tree) hreach
    refine (hshrinks.and hremove).mono (fun _ w₂ h₂ => ?_) fun _ _ _ => trivial
    obtain ⟨hshrunk₂, rfl⟩ := h₂
    exact ⟨hshrunk.trans hshrunk₂, fun _ => heraseAll hleads₁, fun _ => hkept⟩
  by_cases hleads₁ : Leads w₁.disk w.cwd p x
  · have hleads₁' := hleads₁
    rw [← hshrunk.cwd] at hleads₁'
    refine (hshrinks.and (removeAny_push (hshrunk.tree tree) hname hleads₁')).mono
      (fun _ w₂ h₂ => ?_) fun _ _ _ => trivial
    obtain ⟨hshrunk₂, hremoved⟩ := h₂
    have hlost : ¬ Leads w₂.disk w.cwd p x := by
      rcases hremoved with hdisk | hnot
      · rwa [hdisk]
      · rwa [← hshrunk.cwd]
    refine ⟨hshrunk.trans hshrunk₂, fun h => absurd h hlost, fun hclear => absurd ?_ hkept⟩
    rw [heraseAll hleads₁]
    exact hclear.of_keeps (w.disk.clear_keeps_eraseAll x _)
  · refine hshrinks.mono (fun _ w₂ h₂ => ?_) fun _ _ _ => trivial
    exact ⟨hshrunk.trans h₂, fun h => absurd (h.of_keeps h₂.keeps) hleads₁,
      fun hclear => absurd (hstays hclear) hleads₁⟩

/-- The path leads to a directory in which nothing is. -/
def LeadsToEmpty (d : Disk) (cwd : Location) (p : Path) : Prop :=
  ∃ x, Leads d cwd p x ∧ d.children x = []

theorem makeDirectory_emptied {d' : Disk} (tree : w.disk.IsTree) (hname : Path.IsName name)
    (h : w.disk.makeDirectory w.cwd (p.push name) = .ok d') :
    LeadsToEmpty d' w.cwd (p.push name) := by
  obtain ⟨l, last, slash, hslot, hnone, rfl⟩ := Disk.makeDirectory_eq_ok_iff.1 h
  obtain ⟨-, hsize, s, hleads, heq⟩ := (slot_push_eq_ok_iff hname).1 hslot
  cases heq
  have hput : (w.disk.put (l ++ [name]) .directory).find? (l ++ [name]) = some .directory := by
    simp [find?_put]
  refine ⟨l ++ [name], (hleads.of_keeps (keeps_put_of_none hnone)).push hname hsize hput, ?_⟩
  rw [children_eq_nil_iff]
  intro other
  rw [find?_put _ (by simp), if_neg (by simp), tree.find?_append (by simp [hnone]) (by simp)]

theorem attempt_emptied (tree : w.disk.IsTree) (hname : Path.IsName name)
    (hmissing : w.disk.isDirectory w.cwd (p.push name) = false) :
    (Action.attempt fun d cwd => d.makeDirectory cwd (p.push name)).wp w
      (fun answer w₁ => (createFirst.existing (p.push name) answer).wp w₁
        (fun _ w' => LeadsToEmpty w'.disk w.cwd (p.push name)) fun _ _ => True) fun _ _ => True := by
  rw [Action.wp_attempt]
  cases hmake : w.disk.makeDirectory w.cwd (p.push name) with
  | ok d =>
    refine (existing_quiet _ _).mono (fun _ w₂ h₂ => ?_) fun _ _ _ => trivial
    rw [h₂.1]
    exact makeDirectory_emptied tree hname hmake
  | error fault =>
    refine (existing_quiet _ _).mono (fun _ w₂ h₂ => ?_) fun _ _ _ => trivial
    rcases h₂.2 with heq | hdir
    · cases heq
    · rw [hmissing] at hdir
      cases hdir

theorem createFirst_cons_emptied {above : List Path} (tree : w.disk.IsTree)
    (hname : Path.IsName name) (hmissing : w.disk.isDirectory w.cwd (p.push name) = false)
    (habove : w.disk.makeDirectory w.cwd (p.push name) = .error .noEntry →
      (createFirst above).wp w (fun _ w' => LeadsToEmpty w'.disk w.cwd p) fun _ _ => True) :
    (createFirst (p.push name :: above)).wp w
      (fun _ w' => LeadsToEmpty w'.disk w.cwd (p.push name)) fun _ _ => True := by
  have hfirst := attempt_emptied tree hname hmissing
  unfold createFirst
  rw [Action.wp_attempt] at hfirst
  simp only [Action.wp_bind, Action.wp_attempt]
  cases hmake : w.disk.makeDirectory w.cwd (p.push name) with
  | ok d =>
    rw [hmake] at hfirst
    exact hfirst
  | error fault =>
    rw [hmake] at hfirst
    by_cases hfault : fault = .noEntry
    · subst hfault
      simp only [Action.wp_bind]
      refine ((createFirst_spread above).and (habove hmake)).mono (fun _ w₁ h₁ => ?_)
        fun _ _ _ => trivial
      obtain ⟨hspread, x, hleads, hempty⟩ := h₁
      rw [← hspread.cwd] at hleads ⊢
      have hnone := (children_eq_nil_iff _).1 hempty name
      have hmissing₁ : w₁.disk.isDirectory w₁.cwd (p.push name) = false := by
        rw [Bool.eq_false_iff, Ne,
          (hleads.reaches_push hname).isDirectory_iff (hspread.tree tree) (by simp [hnone]), hnone]
        simp
      exact attempt_emptied (hspread.tree tree) hname hmissing₁
    · cases fault <;> first | exact absurd rfl hfault | exact hfirst

/-- Making a directory that was not there, and what is missing above it. -/
theorem createFirst_emptied (names : List String) (last : String) (limit : Nat)
    (hlimit : names.length ≤ limit) (tree : w.disk.IsTree) (hleads : Leads w.disk w.cwd base x)
    (hnames : ∀ name ∈ names, Path.IsName name) (hlast : Path.IsName last)
    (hmissing : w.disk.isDirectory w.cwd ((names.foldl Path.push base).push last) = false) :
    (createFirst (Path.ancestors (limit + 1) ((names.foldl Path.push base).push last))).wp w
      (fun _ w' => LeadsToEmpty w'.disk w.cwd ((names.foldl Path.push base).push last))
      fun _ _ => True := by
  induction names using List.reverseRecOn generalizing limit last with
  | nil =>
    have hreach := hleads.reaches_push hlast
    rw [List.foldl_nil, Path.ancestors, if_neg hreach.isOpen.ne_empty]
    refine createFirst_cons_emptied tree hlast hmissing fun hnoEntry => ?_
    exact absurd hnoEntry (hreach.makeDirectory_ne_noEntry tree rfl hleads.directory)
  | append_singleton init prev ih =>
    have hprev := hnames prev (by simp)
    have hinit : ∀ name ∈ init, Path.IsName name := fun name hname => hnames name (by simp [hname])
    obtain ⟨limit, rfl⟩ : ∃ n, limit = n + 1 :=
      ⟨limit - 1, by simp only [List.length_append, List.length_singleton] at hlimit; omega⟩
    rw [Path.ancestors_foldl_push _ (by simp) hnames hlast]
    refine createFirst_cons_emptied tree hlast hmissing fun hnoEntry => ?_
    rw [List.foldl_append, List.foldl_cons, List.foldl_nil]
    refine ih prev limit ?_ hinit hprev ?_
    · simp only [List.length_append, List.length_singleton] at hlimit
      omega
    · -- below a directory nothing would be missing on the way
      rw [Bool.eq_false_iff, Ne, Disk.isDirectory_iff]
      rintro ⟨y, hresolve, hdir⟩
      have hleads' : Leads w.disk w.cwd ((init ++ [prev]).foldl Path.push base) y :=
        .of_resolve (Path.isOpen_foldl_push_of_ne_nil (by simp) hnames) (by simpa using hresolve) hdir
      exact (hleads'.reaches_push hlast).makeDirectory_ne_noEntry tree rfl hdir hnoEntry

/-- What can be listed at the path on the disk `d`, after the directory there was cleaned. -/
structure Emptied (w : World) (p : Path) (d : Disk) : Prop where
  nothing : ∀ entries, d.readDirectory w.cwd p = .ok entries → entries = []
  listed_iff : d.readDirectory w.cwd p = .ok [] ↔ w.disk.StaysPut w.cwd p

theorem Emptied.of_quiet {w₁ : World} {d : Disk} (hquiet : w.Quiet w₁) (h : Emptied w₁ p d) :
    Emptied w p d := by
  obtain ⟨hnothing, hlisted⟩ := h
  rw [hquiet.cwd] at hnothing hlisted
  rw [hquiet.disk] at hlisted
  exact ⟨hnothing, hlisted⟩

theorem LeadsToEmpty.readDirectory_eq {d : Disk} {cwd l : Location} (hl : l.IsProper)
    (h : LeadsToEmpty d cwd l.toPath) (hcheck : l.toPath.check = .ok ()) :
    d.readDirectory cwd l.toPath = .ok [] := by
  obtain ⟨y, hleads, hempty⟩ := h
  obtain ⟨hresolve, hdir⟩ := (leads_toPath_iff hl).1 ⟨hleads, hcheck⟩
  exact readDirectory_eq_ok_iff.2 ⟨y, hresolve, hdir, hempty.symm⟩

theorem Emptied.of_removed {l : Location} {d : Disk} (tree : w.disk.IsTree) (hl : l.IsProper)
    (hresolve : w.disk.resolve w.cwd true l.toPath = .ok x) (hdir : w.disk.find? x = some .directory)
    (hkeeps : d.Keeps w.disk)
    (hgone : Leads d w.cwd l.toPath x → d =
      w.disk.eraseAll (((w.disk.children x).map Prod.fst).map fun name => x ++ [name]))
    (hstays : Leads (w.disk.clear x) w.cwd l.toPath x → Leads d w.cwd l.toPath x) :
    Emptied w l.toPath d := by
  obtain ⟨hleads, hcheck⟩ := (leads_toPath_iff hl).2 ⟨hresolve, hdir⟩
  have hempty (h : Leads d w.cwd l.toPath x) : d.children x = [] := by
    rw [children_eq_nil_iff]
    intro name
    rw [hgone h, find?_eraseAll_children]
  have hplace {entries : List (String × Entry)} (hread : d.readDirectory w.cwd l.toPath = .ok entries) :
      Leads d w.cwd l.toPath x ∧ entries = d.children x := by
    obtain ⟨y, hy, hydir, rfl⟩ := readDirectory_eq_ok_iff.1 hread
    have hleads' := ((leads_toPath_iff hl).2 ⟨hy, hydir⟩).1
    obtain rfl := hleads.unique (hleads'.of_keeps hkeeps)
    exact ⟨hleads', rfl⟩
  refine ⟨fun entries hread => ?_, fun hread y hy => ?_, fun hput => ?_⟩
  · obtain ⟨h, rfl⟩ := hplace hread
    exact hempty h
  · obtain ⟨h, -⟩ := hplace hread
    obtain rfl := Except.ok.inj (hresolve.symm.trans hy)
    have hclear := h.of_keeps (hgone h ▸ eraseAll_children_keeps tree x)
    exact ((leads_toPath_iff hl).1 ⟨hclear, hcheck⟩).1
  · have hclear : (w.disk.clear x).find? x = some .directory := by
      rw [find?_clear, if_neg (by simp), hdir]
    have h := hstays ((leads_toPath_iff hl).2 ⟨hput x hresolve, hclear⟩).1
    exact LeadsToEmpty.readDirectory_eq hl ⟨x, h, hempty h⟩ hcheck

/-- Making the directory at the path of a place where nothing was found. -/
theorem create_emptied (tree : w.disk.IsTree) {l : Location} (hl : l.IsProper)
    (hlook : w.disk.look w.cwd l.toPath = .error .noEntry) :
    (create l.toPath).wp w (fun _ w' => Emptied w l.toPath w'.disk) fun _ _ => True := by
  have hcheck : l.toPath.check = .ok () := by
    cases hcheck : l.toPath.check with
    | ok u => rfl
    | error fault =>
      unfold look Disk.resolve at hlook
      rw [hcheck] at hlook
      cases hlook
      exact absurd hcheck l.toPath_check_ne_noEntry
  have hput : w.disk.StaysPut w.cwd l.toPath := by
    intro x hresolve
    have hnone : w.disk.find? x = none := by
      unfold look at hlook
      rw [hresolve] at hlook
      cases hfind : w.disk.find? x with
      | none => rfl
      | some e => simp [bind, Except.bind, hfind] at hlook
    have hkeeps : w.disk.Keeps (w.disk.clear x) := by
      refine .of_subset fun m e hm => ?_
      rw [find?_clear, if_neg]
      · exact hm
      · rintro ⟨hcovers, hne, -⟩
        obtain ⟨rest, rfl⟩ := Location.covers_iff.1 hcovers
        rw [tree.find?_append (by simp [hnone]) (by simpa using hne)] at hm
        cases hm
    refine resolve_of_keeps hkeeps (fun target htarget => ?_) hresolve
    rw [find?_clear, if_neg (by simp), hnone] at htarget
    cases htarget
  have hcreate : (create l.toPath).wp w (fun _ w' => LeadsToEmpty w'.disk w.cwd l.toPath)
      fun _ _ => True := by
    have hmissing : w.disk.isDirectory w.cwd l.toPath = false := by
      unfold isDirectory
      rw [hlook]
    have hne : l ≠ [] := by
      rintro rfl
      have hroot : w.disk.isDirectory w.cwd (Location.toPath []) = true :=
        Disk.isDirectory_iff.2 ⟨[], w.disk.resolve_root w.cwd, w.disk.find?_nil⟩
      rw [hmissing] at hroot
      cases hroot
    obtain ⟨names, last, rfl⟩ : ∃ names last, l = names ++ [last] :=
      ⟨_, _, (List.dropLast_append_getLast hne).symm⟩
    have hnames : ∀ name ∈ names, Path.IsName name := fun name hname => hl name (by simp [hname])
    have hlast : Path.IsName last := hl last (by simp)
    rw [Location.toPath_eq_foldl_push hne hl, List.foldl_append, List.foldl_cons,
      List.foldl_nil] at hmissing ⊢
    unfold create Path.selfAndAbove
    rw [Path.parts_push hlast, List.length_append, List.length_singleton]
    exact createFirst_emptied names last _ (Path.length_le_trunk hnames) tree
      (w.disk.leads_root w.cwd) hnames hlast hmissing
  refine hcreate.mono (fun _ w' h => ?_) fun _ _ _ => trivial
  have hread := h.readDirectory_eq hl hcheck
  refine ⟨fun entries hentries => ?_, iff_of_true hread hput⟩
  exact Except.ok.inj (hentries.symm.trans hread)

/-- Cleaning the directory at the path of a place. -/
theorem clean_emptied (tree : w.disk.IsTree) {l : Location} (hl : l.IsProper) :
    (clean l.toPath).wp w (fun _ w' => Emptied w l.toPath w'.disk) fun _ _ => True := by
  unfold clean
  simp only [Action.wp_bind, Action.wp_ask]
  cases hlook : w.disk.look w.cwd l.toPath with
  | ok e =>
    cases e with
    | file => exact (Action.wp_failed _).2 trivial
    | link => exact (Action.wp_failed _).2 trivial
    | directory =>
      simp only [Action.wp_bind, Action.wp_within, Action.wp_query]
      cases hread : w.disk.readDirectory w.cwd l.toPath with
      | error fault => exact trivial
      | ok entries =>
        obtain ⟨x, hresolve, hdir, rfl⟩ := readDirectory_eq_ok_iff.1 hread
        have hremove := removeEntries_emptied (p := l.toPath) (x := x) tree fun e he =>
          isName_of_readDirectory tree hread he
        refine hremove.mono (fun _ w' h => ?_) fun _ _ _ => trivial
        exact .of_removed tree hl hresolve hdir h.1.keeps h.2.1 h.2.2
  | error fault =>
    by_cases hfault : fault = .noEntry
    · subst hfault
      rw [Action.wp_within]
      exact create_emptied tree hl hlook
    · have hfail : (Action.within (.looking l.toPath) (Action.failed (.fault fault)) :
          Action Unit).wp w (fun _ w' => Emptied w l.toPath w'.disk) fun _ _ => True :=
        (Action.wp_within _ _).2 ((Action.wp_failed _).2 trivial)
      cases fault <;> first | exact absurd rfl hfault | exact hfail

end Directory

end Recompile
