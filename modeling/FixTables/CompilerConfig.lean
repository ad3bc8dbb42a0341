import FixTables.Error
import FixTables.Notice

namespace FixTables

/-- How a dictionary is compiled: with tables of a fixed size, if one is given, and with unknown
names taken for errors or not. -/
structure CompilerConfig where
  tagBound : Option Nat
  strict : Bool
  deriving DecidableEq

namespace CompilerConfig

def default : CompilerConfig := ⟨none, true⟩

/-- Keeps members with unknown names as placeholders. -/
def lenient : CompilerConfig := { default with strict := false }

def withTagBound (c : CompilerConfig) (bound : Nat) : CompilerConfig :=
  { c with tagBound := some bound }

def withStrict (c : CompilerConfig) (strict : Bool) : CompilerConfig := { c with strict }

/-- The size that tables used to have in every version. -/
def legacyTagBound : Nat := 1000

/-- The largest size of a table. -/
def maxTagBound : Nat := 100000

/-- The size asked for where `maxUsed` is the largest tag of any member. -/
def wantedTagBound (c : CompilerConfig) (maxUsed : Nat) : Nat :=
  c.tagBound.getD (min (maxUsed + 1) 0xffffffff)

/-- The size of the tables. -/
def resolveTagBound (c : CompilerConfig) (maxUsed : Nat) : Traced ε Nat := do
  let bound := c.wantedTagBound maxUsed
  if maxTagBound < bound then
    .note (.boundClamped bound maxTagBound)
    return maxTagBound
  return bound

end CompilerConfig

end FixTables
