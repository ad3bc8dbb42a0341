import Mathlib
import FixTables.Listing
import FixTables.Proofs.Identifiers

namespace FixTables

/-- The identifiers in the order in which they are tried. -/
def candidate (base : String) : Nat → String
  | 0 => base
  | k + 1 => numbered base (k + 2)

variable {taken : List String} {base identifier : String} {k n : Nat}

end FixTables
