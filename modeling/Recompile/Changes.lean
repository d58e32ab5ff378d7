import Recompile.Digest.Sha256
import Recompile.Table
import Recompile.World

/-!
# What changed since the last build

A source has changed when the digest of its bytes is not the recorded one; the time of its last
change plays no part. Recorded sources that are gone are deleted.
-/

namespace Recompile

structure Changes where
  /-- The digests of new and changed sources. -/
  changed : Table
  deleted : Names

namespace Changes

/-- The new, the changed and the deleted sources. -/
def seeds (c : Changes) : Names := .ofList (c.changed.keys ++ c.deleted.toList)

/-- Compares the digests of all sources with the recorded ones. -/
def between (digests previous : Table) : Changes where
  changed := digests.filter fun source digest => previous[source]? != some digest
  deleted := .ofList (previous.keys.filter fun source => !digests.contains source)

def digestOf (file : Path) : Action String := do
  let bytes ← Action.within (.hashing file) (Action.readBytes file)
  return Sha256.hex bytes

/-- The digests of all sources; the first one that cannot be read is the failure. -/
def digests : List String → Action Table
  | [] => return ∅
  | source :: rest => do
    let digest ← digestOf ⟨source⟩
    return (← digests rest).insert source digest

def detect (sources : Names) (previous : Table) : Action Changes := do
  let changes := between (← digests sources.toList) previous
  let log := Action.log .debug "incjc::detect"
  sources.toList.forM fun _ => log "comparing hashes"
  log (if changes.changed.isEmpty then "no changed or new sources found"
    else "changed or new sources")
  return changes

end Changes

end Recompile
