import Recompile.Digest.Sha256
import Recompile.Path.Basic

/-!
# Where the store of a source tree is

The name of a store is derived from the absolute path of its source tree, so that all builds of a
tree find the same store and different trees have different ones.
-/

namespace Recompile.Store

/-- The name of the store of a source tree. -/
def key (sourceTree : Path) : String := ".incjc-meta-" ++ Sha256.hex sourceTree.text.toUTF8

def directoryOf (storeRoot sourceTree : Path) : Path := storeRoot.push (key sourceTree)

end Recompile.Store
