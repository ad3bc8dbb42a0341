namespace FixTables

/-- Halves the `size` elements from `base` on until one is left: the upper half stays unless its
first element lies above what is searched. -/
def narrow (cmp : α → Ordering) (xs : Array α) (base size : Nat) : Nat :=
  if size ≤ 1 then base
  else
    let half := size / 2
    match xs[base + half]? with
    | some x => narrow cmp xs (if cmp x = .gt then base else base + half) (size - half)
    | none => base
termination_by size

/-- The element that `cmp` finds equal to what is searched, in an array that ascends by `cmp`. -/
def binarySearch (cmp : α → Ordering) (xs : Array α) : Option α :=
  xs[narrow cmp xs 0 xs.size]?.filter (cmp · = .eq)

end FixTables
