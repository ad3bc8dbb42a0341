import FixTables.Proofs.Partners
import FixTables.Proofs.SourceTables

namespace FixTables

namespace GroupLayout

/-- The groups in a list and those nested in them, each one before those nested in it. -/
def depthFirst : List GroupLayout → List GroupLayout
  | [] => []
  | ⟨name, countTag, delimiterTag, sequence, groups⟩ :: gs =>
    ⟨name, countTag, delimiterTag, sequence, groups⟩ :: (depthFirst groups ++ depthFirst gs)

/-- The search through a tree of groups gives the first that comes depth first. -/
theorem findIn?_eq_find? (countTag : Nat) (gs : List GroupLayout) :
    findIn? countTag gs = (depthFirst gs).find? (·.countTag = countTag) := by
  induction gs using forest_induction with
  | nil => simp [findIn?, depthFirst]
  | cons g gs nested others =>
    obtain ⟨name, tag, delimiterTag, sequence, groups⟩ := g
    rw [findIn?, find?, depthFirst, List.find?_cons, List.find?_append, others]
    by_cases h : tag = countTag
    · simp [h]
    · simp [h, nested]

theorem tables_eq_map (gs : List GroupLayout) : tables gs = gs.map table := by
  induction gs with
  | nil => rfl
  | cons g gs ih => rw [tables, List.map_cons, ih]

end GroupLayout

namespace MessageLayout

open GroupLayout (depthFirst)

variable {l : MessageLayout} {countTag : Nat}

end MessageLayout

namespace Spec

open GroupLayout (depthFirst)

variable {root : Node} {config : CompilerConfig} {s : Spec} {l : MessageLayout} {countTag : Nat}

end Spec

end FixTables
