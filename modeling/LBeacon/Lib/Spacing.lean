import Mathlib.Data.List.Induction
import Mathlib.Data.List.Basic

/-!
# Times that are apart

From a list of times those are picked that lie more than a gap behind the last one picked.
-/

namespace Spacing

variable {gap last : Int}

end Spacing
