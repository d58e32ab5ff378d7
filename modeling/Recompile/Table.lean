import Std.Data.ExtTreeMap
import Std.Data.ExtTreeSet

/-!
# Tables and sets of names

Both are determined by what they hold, and list it in ascending order of code points.
-/

namespace Recompile

abbrev Table := Std.ExtTreeMap String String

abbrev Names := Std.ExtTreeSet String

end Recompile
