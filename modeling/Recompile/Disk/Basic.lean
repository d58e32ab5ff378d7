import Recompile.Path.Absolute

/-!
# The contents of a disk

A disk says what stands at each location: a file with its bytes, a directory, or a link with the
path it stands for. The root is a directory on every disk. The order of the entries is the order in
which directories are listed.
-/

namespace Recompile

/-- What stands at a location. -/
inductive Entry where
  | file (bytes : ByteArray) (runnable : Bool)
  | directory
  | link (target : Path)

namespace Entry

def isDirectory : Entry → Bool
  | directory => true
  | _ => false

def isFile : Entry → Bool
  | file .. => true
  | _ => false

def isLink : Entry → Bool
  | link _ => true
  | _ => false

end Entry

namespace Location

/-- Whether `top` is `l` or lies above it. -/
def covers (top l : Location) : Bool := top.isPrefixOf l

/-- Where `l` gets to when `source` becomes `target`. -/
def moved (source target l : Location) : Location :=
  if source.covers l then target ++ l.drop source.length else l

theorem covers_iff {top l : Location} : top.covers l = true ↔ ∃ rest, l = top ++ rest := by
  simp only [covers, List.isPrefixOf_iff_prefix]
  exact ⟨fun ⟨rest, h⟩ => ⟨rest, h.symm⟩, fun ⟨rest, h⟩ => ⟨rest, h.symm⟩⟩

theorem moved_append (source target rest : Location) :
    moved source target (source ++ rest) = target ++ rest := by
  rw [moved, if_pos (covers_iff.2 ⟨rest, rfl⟩), List.drop_left]

/-- Two locations outside the target are moved to the same place only if they are the same. -/
theorem moved_injective {source target l m : Location} (hl : target.covers l = false)
    (hm : target.covers m = false) (h : moved source target l = moved source target m) :
    l = m := by
  have notUnder {k rest : Location} (hk : target.covers k = false) (e : k = target ++ rest) :
      False := by
    have := covers_iff.2 ⟨rest, e⟩
    simp_all
  cases hs : source.covers l <;> cases ht : source.covers m
  · simpa [moved, hs, ht] using h
  · obtain ⟨rest, rfl⟩ := covers_iff.1 ht
    rw [moved_append] at h
    simp only [moved, hs] at h
    exact (notUnder hl h).elim
  · obtain ⟨rest, rfl⟩ := covers_iff.1 hs
    rw [moved_append] at h
    simp only [moved, ht] at h
    exact (notUnder hm h.symm).elim
  · obtain ⟨rest, rfl⟩ := covers_iff.1 hs
    obtain ⟨more, rfl⟩ := covers_iff.1 ht
    rw [moved_append, moved_append] at h
    rw [List.append_cancel_left h]

end Location

structure Disk where
  entries : List (Location × Entry)
  nodup : (entries.map Prod.fst).Nodup

namespace Disk

def empty : Disk := ⟨[], List.nodup_nil⟩

def find? (d : Disk) (l : Location) : Option Entry :=
  if l = [] then some .directory else d.entries.lookup l

/-- The names in a directory and what they stand for. -/
def children (d : Disk) (l : Location) : List (String × Entry) :=
  d.entries.filterMap fun e =>
    match e.1.getLast? with
    | some name => if e.1.dropLast = l then some (name, e.2) else none
    | none => none

def replace (l : Location) (entry : Entry) (e : Location × Entry) : Location × Entry :=
  if e.1 = l then (l, entry) else e

theorem replace_fst (l : Location) (entry : Entry) (e : Location × Entry) :
    (replace l entry e).1 = e.1 := by
  unfold replace
  split
  · next h => exact h.symm
  · rfl

/-- Puts an entry at a location, in the place of what stood there. -/
def put (d : Disk) (l : Location) (entry : Entry) : Disk :=
  if h : l ∈ d.entries.map Prod.fst then
    ⟨d.entries.map (replace l entry), by
      have : Prod.fst ∘ replace l entry = Prod.fst := funext (replace_fst l entry)
      rw [List.map_map, this]
      exact d.nodup⟩
  else
    ⟨d.entries ++ [(l, entry)], by
      rw [List.map_append, List.nodup_append]
      refine ⟨d.nodup, by simp, ?_⟩
      rintro a ha b hb rfl
      simp only [List.map_cons, List.map_nil, List.mem_singleton] at hb
      exact h (hb ▸ ha)⟩

/-- Takes away what stands at a location and below it. -/
def erase (d : Disk) (l : Location) : Disk :=
  ⟨d.entries.filter fun e => !l.covers e.1,
    d.nodup.sublist (List.filter_sublist.map Prod.fst)⟩

/-- Takes away what stands below a location. -/
def clear (d : Disk) (l : Location) : Disk :=
  ⟨d.entries.filter fun e => !(l.covers e.1 && e.1 != l),
    d.nodup.sublist (List.filter_sublist.map Prod.fst)⟩

/-- Moves what stands at `source` and below it to `target`, in the place of what stood there. -/
def move (d : Disk) (source target : Location) : Disk :=
  ⟨(d.erase target).entries.map fun e => (Location.moved source target e.1, e.2), by
    rw [List.map_map]
    have inner := (d.erase target).nodup
    rw [List.nodup_iff_pairwise_ne, List.pairwise_map] at inner ⊢
    refine inner.imp_of_mem fun {a b} ha hb hne same => ?_
    simp only [erase, List.mem_filter, Bool.not_eq_true'] at ha hb
    simp only [Function.comp] at same
    exact hne (Location.moved_injective ha.2 hb.2 same)⟩

end Disk

end Recompile
