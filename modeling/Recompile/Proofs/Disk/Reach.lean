import Recompile.Proofs.Disk.Operation

/-!
# Paths that reach a place without a link

A path reaches a place if it is spelled as proper names pushed onto a path that leads to a directory,
and none of the names is a link. On a tree the operations on such a path act on that place or on
nothing. The normal form of a place reaches it from the root.
-/

namespace Recompile

namespace Location

/-- A place that can be reached by names. -/
def IsProper (l : Location) : Prop := ∀ name ∈ l, Path.IsName name

instance (l : Location) : Decidable l.IsProper :=
  inferInstanceAs (Decidable (∀ name ∈ l, Path.IsName name))

theorem toPath_eq_foldl_push {l : Location} (hne : l ≠ []) (h : l.IsProper) :
    l.toPath = l.foldl Path.push ⟨"/"⟩ := by
  have hstart := Path.not_startsWith_ofParts hne h
  have hend : Text.endsWith "/" "/" = true := by decide
  rw [← Path.push_ofParts hne h, Path.push, hstart]
  simp [hend, toPath, Path.ofParts]

theorem toPath_push {l : Location} {name : String} (hne : l ≠ []) (h : IsProper (l ++ [name])) :
    toPath (l ++ [name]) = l.toPath.push name := by
  have hl : l.IsProper := fun part hpart => h part (List.mem_append_left _ hpart)
  rw [toPath_eq_foldl_push (by simp) h, toPath_eq_foldl_push hne hl, List.foldl_append,
    List.foldl_cons, List.foldl_nil]

end Location

namespace Disk

variable {d d' : Disk} {cwd l : Location} {p : Path} {name : String}

theorem leads_root (d : Disk) (cwd : Location) : Leads d cwd ⟨"/"⟩ [] := by
  refine ⟨?_, d.find?_nil⟩
  have htrunk : (⟨"/"⟩ : Path).trunk = [""] := by decide
  have hstart : (⟨"/"⟩ : Path).start cwd = [] := by
    have : (⟨"/"⟩ : Path).isAbsolute = true := by decide
    simp [Path.start, this]
  rw [htrunk, hstart]
  exact walkUntilLink_skip d.find?_nil (.inl rfl)

/-- The path reaches the place by names from a directory. None of them is a link, except perhaps the
last. -/
def Reaches (d : Disk) (cwd : Location) (p : Path) (l : Location) : Prop :=
  ∃ base s names last, Leads d cwd base s ∧ (∀ name ∈ names, Path.IsName name) ∧
    Path.IsName last ∧ p = (names.foldl Path.push base).push last ∧ l = s ++ names ++ [last] ∧
    d.NoLinks true s names

/-- No link stands at a place or above it. -/
def IsPlain (d : Disk) (l : Location) : Prop :=
  ∀ top : Location, top.covers l = true → ∀ target, d.find? top ≠ some (.link target)

theorem find?_ne_link (h : d.entries.all (fun e => !e.2.isLink) = true) (l : Location)
    (target : Path) : d.find? l ≠ some (.link target) := by
  intro hfind
  by_cases hl : l = []
  · simp [hl] at hfind
  · have hlink := List.all_eq_true.1 h _ ((d.find?_eq_some_iff hl).1 hfind)
    simp [Entry.isLink] at hlink

theorem IsPlain.of_subset (h : d.IsPlain l) (hsub : ∀ m e, d'.find? m = some e → d.find? m = some e) :
    d'.IsPlain l := fun top htop target hfind => h top htop target (hsub top _ hfind)

/-- What stands above something on a tree is no link. -/
theorem IsTree.isPlain (tree : d.IsTree) {rest : Location} {e : Entry} (hne : rest ≠ [])
    (hfind : d.find? (l ++ rest) = some e) : d.IsPlain l := by
  intro top htop target
  obtain ⟨more, rfl⟩ := Location.covers_iff.1 htop
  rw [List.append_assoc] at hfind
  rw [tree.directory_of_append hfind (by simp [hne])]
  simp

theorem IsPlain.erase (h : d.IsPlain l) (m : Location) : (d.erase m).IsPlain l := by
  refine h.of_subset fun k e hfind => ?_
  rw [find?_erase] at hfind
  split_ifs at hfind
  exact hfind

theorem reaches_toPath (hproper : Location.IsProper (l ++ [name])) (plain : d.IsPlain l) :
    Reaches d cwd (Location.toPath (l ++ [name])) (l ++ [name]) := by
  refine ⟨⟨"/"⟩, [], l, name, d.leads_root cwd, fun other hother => hproper other (by simp [hother]),
    hproper name (by simp), ?_, rfl, fun rest _ hrest _ => ?_⟩
  · rw [Location.toPath_eq_foldl_push (by simp) hproper]
    simp
  · exact plain rest (by simpa [Location.covers] using hrest)

namespace Reaches

theorem isOpen (h : Reaches d cwd p l) : p.IsOpen := by
  obtain ⟨base, s, names, last, -, -, hlast, rfl, -, -⟩ := h
  exact Path.isOpen_push hlast

theorem ne_nil (h : Reaches d cwd p l) : l ≠ [] := by
  obtain ⟨base, s, names, last, -, -, -, -, rfl, -⟩ := h
  simp

/-- A place is reached as before while the directories and links on the way are there, unless a name
on the way is now a link. -/
theorem of_ways (h : Reaches d cwd p l) (ways : KeepsWays d d')
    (hlinks : ∀ top : Location, top.covers l = true → top ≠ l →
      (∀ target, d.find? top ≠ some (.link target)) →
      ∀ target, d'.find? top ≠ some (.link target)) : Reaches d' cwd p l := by
  obtain ⟨base, s, names, last, hleads, hnames, hlast, rfl, rfl, hplain⟩ := h
  refine ⟨base, s, names, last, hleads.of_ways ways, hnames, hlast, rfl, rfl,
    fun rest hrest hprefix hall => ?_⟩
  obtain ⟨tail, rfl⟩ := hprefix
  refine hlinks _ (Location.covers_iff.2 ⟨tail ++ [last], by simp⟩) ?_
    (hplain rest hrest (List.prefix_append _ _) hall)
  intro heq
  have := congrArg List.length heq
  simp only [List.length_append, List.length_singleton] at this
  omega

theorem of_keeps (h : Reaches d cwd p l) (keeps : Keeps d d')
    (hlinks : ∀ top : Location, top.covers l = true → top ≠ l →
      (∀ target, d.find? top ≠ some (.link target)) →
      ∀ target, d'.find? top ≠ some (.link target)) : Reaches d' cwd p l :=
  h.of_ways keeps.ways hlinks

/-- What is reached without what is there is reached with it. -/
theorem of_erase (h : Reaches (d.erase l) cwd p l) : Reaches d cwd p l := by
  refine h.of_keeps (d.erase_keeps l) fun top htop hne hlink target hfind => hlink target ?_
  rw [find?_erase, if_neg]
  · exact hfind
  · rintro ⟨-, hcovers⟩
    exact hne (Location.covers_antisymm htop hcovers)

/-- The path ends in the last name of the place, pushed onto a path that leads to the directory. -/
theorem exists_leads {k : Location} (tree : d.IsTree) (h : Reaches d cwd p l) (hl : l = k ++ [name])
    (hdir : d.find? k = some .directory) :
    Path.IsName name ∧ ∃ q, Leads d cwd q k ∧ p = q.push name := by
  obtain ⟨base, s, names, last, hleads, hnames, hlast, rfl, hplace, hplain⟩ := h
  rw [hplace] at hl
  obtain ⟨rfl, hsame⟩ := List.append_inj' hl rfl
  simp only [List.cons.injEq, and_true] at hsame
  subst hsame
  exact ⟨hlast, names.foldl Path.push base, (hleads.foldl_push_iff hnames hplain).2
    (tree.descend_and_directory_iff.2 ⟨rfl, hdir⟩), rfl⟩

theorem push (h : Reaches d cwd p l) (hname : Path.IsName name)
    (hlink : ∀ target, d.find? l ≠ some (.link target)) :
    Reaches d cwd (p.push name) (l ++ [name]) := by
  obtain ⟨base, s, names, last, hleads, hnames, hlast, rfl, rfl, hplain⟩ := h
  refine ⟨base, s, names ++ [last], name, hleads, ?_, hname, by simp, by simp, ?_⟩
  · simp only [List.mem_append, List.mem_singleton]
    rintro other (hother | rfl)
    · exact hnames other hother
    · exact hlast
  · intro rest hrest hprefix _
    rcases List.prefix_concat_iff.1 hprefix with rfl | hprefix
    · rwa [← List.append_assoc]
    · exact hplain rest hrest hprefix fun _ => rfl

theorem foldl_push {names : List String} (h : Reaches d cwd p l)
    (hnames : ∀ name ∈ names, Path.IsName name)
    (hlinks : ∀ m : Location, l.covers m = true → ∀ target, d.find? m ≠ some (.link target)) :
    Reaches d cwd (names.foldl Path.push p) (l ++ names) := by
  induction names generalizing p l with
  | nil => simpa using h
  | cons name rest ih =>
    have hpush := h.push (hnames name List.mem_cons_self) (hlinks l (Location.covers_self l))
    have hrest := ih hpush (fun other hother => hnames other (List.mem_cons_of_mem name hother))
      fun m hm => hlinks m (Location.covers_trans (Location.covers_append l [name]) hm)
    simpa using hrest

theorem resolve_eq {follow : Bool} (h : Reaches d cwd p l)
    (hlink : follow = true → ∀ target, d.find? l ≠ some (.link target)) :
    ∃ s names, l = s ++ names ∧ d.resolve cwd follow p = (do p.check; d.descend s names) := by
  obtain ⟨base, s, names, last, hleads, hnames, hlast, rfl, rfl, hplain⟩ := h
  refine ⟨s, names ++ [last], by simp, ?_⟩
  have hpath : (names.foldl Path.push base).push last = (names ++ [last]).foldl Path.push base := by
    simp
  have hall : ∀ name ∈ names ++ [last], Path.IsName name := by
    simp only [List.mem_append, List.mem_singleton]
    rintro other (hother | rfl)
    · exact hnames other hother
    · exact hlast
  rw [hpath]
  refine hleads.resolve (by simp) hall fun rest hrest hprefix hfollow => ?_
  rcases List.prefix_concat_iff.1 hprefix with rfl | hprefix
  · rw [← List.append_assoc]
    exact hlink (hfollow rfl)
  · exact hplain rest hrest hprefix fun _ => rfl

theorem check_ne_noEntry (h : Reaches d cwd p l) : p.check ≠ .error .noEntry := by
  unfold Path.check
  rw [if_neg h.isOpen.ne_empty]
  split_ifs <;> simp

theorem resolve_eq_ok {x : Location} {follow : Bool} (h : Reaches d cwd p l)
    (hlink : follow = true → ∀ target, d.find? l ≠ some (.link target))
    (hresolve : d.resolve cwd follow p = .ok x) : x = l ∧ p.check = .ok () := by
  obtain ⟨s, names, rfl, heq⟩ := h.resolve_eq hlink
  rw [heq, Except.bind_eq_ok_iff] at hresolve
  obtain ⟨_, hcheck, hdescend⟩ := hresolve
  exact ⟨(descend_eq_ok_iff.1 hdescend).1, hcheck⟩

theorem resolve_of_find? {e : Entry} (tree : d.IsTree) (h : Reaches d cwd p l)
    (hcheck : p.check = .ok ()) (hfind : d.find? l = some e) {follow : Bool}
    (hlink : follow = true → ∀ target, e ≠ .link target) : d.resolve cwd follow p = .ok l := by
  have hplain : follow = true → ∀ target, d.find? l ≠ some (.link target) := by
    intro hf target htarget
    rw [hfind] at htarget
    exact hlink hf target (Option.some.inj htarget)
  obtain ⟨s, names, rfl, heq⟩ := h.resolve_eq hplain
  rw [heq, hcheck]
  exact tree.descend_of_find? hfind

theorem isFile_iff (tree : d.IsTree) (h : Reaches d cwd p l)
    (hlink : ∀ target, d.find? l ≠ some (.link target)) :
    d.isFile cwd p = true ↔
      p.check = .ok () ∧ ∃ bytes runnable, d.find? l = some (.file bytes runnable) := by
  rw [Disk.isFile_iff]
  constructor
  · rintro ⟨x, bytes, runnable, hresolve, hfind⟩
    obtain ⟨rfl, hcheck⟩ := h.resolve_eq_ok (fun _ => hlink) hresolve
    exact ⟨hcheck, bytes, runnable, hfind⟩
  · rintro ⟨hcheck, bytes, runnable, hfind⟩
    exact ⟨l, bytes, runnable, h.resolve_of_find? tree hcheck hfind (by simp), hfind⟩

theorem readFile_eq_ok_iff {bytes : ByteArray} (tree : d.IsTree) (h : Reaches d cwd p l)
    (hlink : ∀ target, d.find? l ≠ some (.link target)) :
    d.readFile cwd p = .ok bytes ↔
      p.check = .ok () ∧ ∃ runnable, d.find? l = some (.file bytes runnable) := by
  rw [Disk.readFile_eq_ok_iff]
  constructor
  · rintro ⟨x, runnable, hresolve, hfind⟩
    obtain ⟨rfl, hcheck⟩ := h.resolve_eq_ok (fun _ => hlink) hresolve
    exact ⟨hcheck, runnable, hfind⟩
  · rintro ⟨hcheck, runnable, hfind⟩
    exact ⟨l, runnable, h.resolve_of_find? tree hcheck hfind (by simp), hfind⟩

theorem isDirectory_iff (tree : d.IsTree) (h : Reaches d cwd p l)
    (hlink : ∀ target, d.find? l ≠ some (.link target)) :
    d.isDirectory cwd p = true ↔ p.check = .ok () ∧ d.find? l = some .directory := by
  rw [Disk.isDirectory_iff]
  constructor
  · rintro ⟨x, hresolve, hfind⟩
    obtain ⟨rfl, hcheck⟩ := h.resolve_eq_ok (fun _ => hlink) hresolve
    exact ⟨hcheck, hfind⟩
  · rintro ⟨hcheck, hfind⟩
    exact ⟨l, h.resolve_of_find? tree hcheck hfind (by simp), hfind⟩

/-- The slot of the path is the last name in the directory above the place. -/
theorem slot_eq_ok_iff (tree : d.IsTree) (h : Reaches d cwd p l) {slot : Slot} :
    d.slot cwd p = .ok slot ↔ p.check = .ok () ∧ ∃ k name, l = k ++ [name] ∧
      Path.IsName name ∧ name.utf8ByteSize ≤ Path.nameLimit ∧ d.find? k = some .directory ∧
      slot = ⟨k, .name name, false⟩ := by
  constructor
  · intro hslot
    obtain ⟨base, s, names, last, hleads, hnames, hlast, rfl, rfl, hplain⟩ := h
    obtain ⟨hcheck, hsize, x, hx, rfl⟩ := (slot_push_eq_ok_iff hlast).1 hslot
    rw [hleads.foldl_push_iff hnames hplain, tree.descend_and_directory_iff] at hx
    obtain ⟨rfl, hdir⟩ := hx
    exact ⟨hcheck, s ++ names, last, rfl, hlast, hsize, hdir, rfl⟩
  · rintro ⟨hcheck, k, name, hl, hname, hsize, hdir, rfl⟩
    obtain ⟨-, q, hq, rfl⟩ := h.exists_leads tree hl hdir
    exact (slot_push_eq_ok_iff hname).2 ⟨hcheck, hsize, k, hq, rfl⟩

/-! ## Operations on a path that reaches a place -/

theorem lookAt_eq_ok_iff {e : Entry} (tree : d.IsTree) (h : Reaches d cwd p l) :
    d.lookAt cwd p = .ok e ↔ p.check = .ok () ∧ d.find? l = some e := by
  unfold lookAt
  rw [Except.bind_eq_ok_iff]
  constructor
  · rintro ⟨x, hresolve, hfind⟩
    obtain ⟨rfl, hcheck⟩ := h.resolve_eq_ok (by simp) hresolve
    refine ⟨hcheck, ?_⟩
    split at hfind
    · next e' he' =>
      cases hfind
      exact he'
    · cases hfind
  · rintro ⟨hcheck, hfind⟩
    exact ⟨l, h.resolve_of_find? tree hcheck hfind (by simp), by simp [hfind]⟩

theorem makeDirectory_eq_ok_iff (tree : d.IsTree) (h : Reaches d cwd p l) :
    d.makeDirectory cwd p = .ok d' ↔ p.check = .ok () ∧ d.find? l = none ∧
      (∃ k name, l = k ++ [name] ∧ Path.IsName name ∧ name.utf8ByteSize ≤ Path.nameLimit ∧
        d.find? k = some .directory) ∧ d' = d.put l .directory := by
  rw [Disk.makeDirectory_eq_ok_iff]
  constructor
  · rintro ⟨k, name, slash, hslot, hnone, rfl⟩
    obtain ⟨hcheck, k', name', rfl, hname, hsize, hdir, heq⟩ := (h.slot_eq_ok_iff tree).1 hslot
    cases heq
    exact ⟨hcheck, hnone, ⟨k, name, rfl, hname, hsize, hdir⟩, rfl⟩
  · rintro ⟨hcheck, hnone, ⟨k, name, rfl, hname, hsize, hdir⟩, rfl⟩
    exact ⟨k, name, false, (h.slot_eq_ok_iff tree).2 ⟨hcheck, k, name, rfl, hname, hsize, hdir, rfl⟩,
      hnone, rfl⟩

/-- Making a directory in a directory does not miss anything on the way. -/
theorem makeDirectory_ne_noEntry (tree : d.IsTree) (h : Reaches d cwd p l) {k : Location}
    (hl : l = k ++ [name]) (hdir : d.find? k = some .directory) :
    d.makeDirectory cwd p ≠ .error .noEntry := by
  have hcheck := h.check_ne_noEntry
  obtain ⟨hname, q, hq, rfl⟩ := h.exists_leads tree hl hdir
  unfold makeDirectory
  rw [hq.slot_push hname]
  cases hc : (q.push name).check with
  | error fault =>
    rw [hc] at hcheck
    simpa [bind, Except.bind] using hcheck
  | ok u =>
    simp only [bind, Except.bind]
    split_ifs with hsize
    · simp
    · dsimp only
      split_ifs <;> simp

theorem removeFile_eq_ok_iff (tree : d.IsTree) (h : Reaches d cwd p l) :
    d.removeFile cwd p = .ok d' ↔ p.check = .ok () ∧
      (∃ e, d.find? l = some e ∧ e ≠ .directory) ∧ d' = d.erase l := by
  rw [Disk.removeFile_eq_ok_iff]
  constructor
  · rintro ⟨k, name, hslot, hfind, rfl⟩
    obtain ⟨hcheck, k', name', rfl, -, -, -, heq⟩ := (h.slot_eq_ok_iff tree).1 hslot
    cases heq
    exact ⟨hcheck, hfind, rfl⟩
  · rintro ⟨hcheck, ⟨e, hfind, hne⟩, rfl⟩
    obtain ⟨k, name, rfl⟩ := List.eq_nil_or_concat l |>.resolve_left h.ne_nil
    rw [List.concat_eq_append] at *
    obtain ⟨hname, hsize⟩ := tree.isName k name e hfind
    exact ⟨k, name, (h.slot_eq_ok_iff tree).2
      ⟨hcheck, k, name, rfl, hname, hsize, tree.parent k name e hfind, rfl⟩, ⟨e, hfind, hne⟩, rfl⟩

/-- Removing a cleared directory succeeds. -/
theorem removeDirectory_clear (tree : d.IsTree) (h : Reaches (d.erase l) cwd p l)
    (hcheck : p.check = .ok ()) (hdir : d.find? l = some .directory) :
    (d.clear l).removeDirectory cwd p = .ok (d.erase l) := by
  have htree := tree.clear l
  have hreach : Reaches (d.clear l) cwd p l := by
    refine of_erase ?_
    rwa [erase_clear]
  obtain ⟨k, name, rfl⟩ := List.eq_nil_or_concat l |>.resolve_left h.ne_nil
  rw [List.concat_eq_append] at *
  obtain ⟨hname, hsize⟩ := tree.isName k name _ hdir
  have hself : (d.clear (k ++ [name])).find? (k ++ [name]) = some .directory := by
    rw [find?_clear, if_neg (by simp), hdir]
  refine Disk.removeDirectory_eq_ok_iff.2 ⟨k, name, false, (hreach.slot_eq_ok_iff htree).2
    ⟨hcheck, k, name, rfl, hname, hsize, htree.parent _ _ _ hself, rfl⟩, hself, ?_,
    (d.erase_clear _).symm⟩
  rw [children_eq_nil_iff]
  intro other
  rw [find?_clear, if_pos]
  exact ⟨Location.covers_append _ _, by simp, by simp⟩

theorem writeFile_eq_ok {bytes : ByteArray} (h : Reaches d cwd p l)
    (hlink : ∀ target, d.find? l ≠ some (.link target))
    (hwrite : d.writeFile cwd p bytes = .ok d') : p.check = .ok () ∧ ∃ runnable,
      (d.find? l = none ∨ ∃ bytes, d.find? l = some (.file bytes runnable)) ∧
        d' = (d.put l (.file .empty runnable)).put l (.file bytes runnable) := by
  obtain ⟨x, runnable, hresolve, -, hfind, hd⟩ := Disk.writeFile_eq_ok hwrite
  obtain ⟨rfl, hcheck⟩ := h.resolve_eq_ok (fun _ => hlink) hresolve
  exact ⟨hcheck, runnable, hfind, hd⟩

/-- Making a file empty at the place. -/
theorem createFile_eq_ok {x : Location} (tree : d.IsTree) (h : Reaches d cwd p l)
    (hlink : ∀ target, d.find? l ≠ some (.link target))
    (hcreate : d.createFile cwd p = .ok (x, d')) :
    x = l ∧ ∃ runnable, d' = d.put l (.file .empty runnable) ∧ d'.IsTree := by
  obtain ⟨hresolve, runnable, rfl, hfind⟩ := Disk.createFile_eq_ok hcreate
  obtain ⟨rfl, -⟩ := h.resolve_eq_ok (fun _ => hlink) hresolve
  refine ⟨rfl, runnable, rfl, ?_⟩
  unfold createFile at hcreate
  rw [Except.bind_eq_ok_iff] at hcreate
  obtain ⟨slot, hslot, -⟩ := hcreate
  obtain ⟨-, k, name, rfl, hname, hsize, hdir, -⟩ := (h.slot_eq_ok_iff tree).1 hslot
  refine tree.put hdir hname hsize fun hdirectory => ?_
  rcases hfind with hnone | ⟨bytes, hfile⟩
  · rw [hnone] at hdirectory
    cases hdirectory
  · rw [hfile] at hdirectory
    cases hdirectory

/-- Moving a directory beside itself. -/
theorem rename_eq_ok {q : Path} {k : Location} {other : String} (tree : d.IsTree)
    (hp : Reaches d cwd p (k ++ [name])) (hq : Reaches d cwd q (k ++ [other]))
    (hpcheck : p.check = .ok ()) (hqcheck : q.check = .ok ()) (hne : name ≠ other)
    (hother : Path.IsName other) (hsize : other.utf8ByteSize ≤ Path.nameLimit)
    (hsource : d.find? (k ++ [name]) = some .directory) (htarget : d.find? (k ++ [other]) = none) :
    d.rename cwd p q = .ok (d.move (k ++ [name]) (k ++ [other])) := by
  have hdir := tree.parent _ _ _ hsource
  obtain ⟨hname, hnamesize⟩ := tree.isName _ _ _ hsource
  have hpslot := (hp.slot_eq_ok_iff tree).2 ⟨hpcheck, k, name, rfl, hname, hnamesize, hdir, rfl⟩
  have hqslot := (hq.slot_eq_ok_iff tree).2 ⟨hqcheck, k, other, rfl, hother, hsize, hdir, rfl⟩
  unfold rename
  simp only [hpslot, hqslot, bind, Except.bind, hsource, htarget, Entry.isDirectory, Bool.not_true,
    Bool.false_and, Bool.false_eq_true, if_false, Location.covers_sibling hne, Location.covers_sibling (Ne.symm hne)]
  rw [if_neg]
  simpa using hne

end Reaches

end Disk

end Recompile
