namespace FixTables

/-- A set of characters as runs of code points: first, last and the step from one to the next. -/
structure CharRuns where
  runs : List (Nat × Nat × Nat)

def CharRuns.contains (s : CharRuns) (c : Char) : Bool :=
  s.runs.any fun (first, last, step) =>
    first ≤ c.toNat && c.toNat ≤ last && (c.toNat - first) % step == 0

/-- A set given by its unbroken ranges. -/
def CharRuns.ofRanges (ranges : List (Nat × Nat)) : CharRuns :=
  ⟨ranges.map fun (first, last) => (first, last, 1)⟩

end FixTables
