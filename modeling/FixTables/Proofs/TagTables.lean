import FixTables.Proofs.OrderedSearch
import FixTables.Table

namespace FixTables

namespace TagRow

variable {rows : List TagRow} {ending : Option TagRow}

/-- A last row of tag zero is cut off; a last row of another tag stays. -/
theorem withoutSentinel_append (positive : ∀ r ∈ rows, r.isSentinel = false)
    (sentinels : ∀ e ∈ ending, e.isSentinel = true) :
    withoutSentinel (rows ++ ending.toList).toArray = rows.toArray := by
  cases ending with
  | some e =>
    have last : e.isSentinel = true := sentinels e rfl
    simp [withoutSentinel, last]
  | none =>
    rw [Option.toList_none, List.append_nil]
    unfold withoutSentinel
    split
    next last hl =>
      have own : last ∈ rows := List.mem_of_getLast? (by simpa using hl)
      rw [positive last own]
      rfl
    next => rfl

/-- In a table that ascends by positive tags, with a sentinel at its end or without, a tag is looked
for among the rows before the end. -/
theorem find?_append_ending (ascending : rows.Pairwise fun a b => a.tag < b.tag)
    (positive : ∀ r ∈ rows, r.isSentinel = false) (sentinels : ∀ e ∈ ending, e.isSentinel = true)
    (tag : Nat) :
    find? (rows ++ ending.toList).toArray tag = rows.find? fun r => decide (r.tag = tag) := by
  unfold find?
  split
  next zero =>
    subst zero
    refine (List.find?_eq_none.mpr fun r hr => ?_).symm
    simpa [isSentinel] using positive r hr
  next =>
    rw [withoutSentinel_append positive sentinels,
      binarySearch_key_eq_find? (by simpa using ascending)]

theorem find?_concat_sentinel (ascending : rows.Pairwise fun a b => a.tag < b.tag)
    (positive : ∀ r ∈ rows, r.isSentinel = false) (tag : Nat) :
    find? (rows ++ [sentinel]).toArray tag = rows.find? fun r => decide (r.tag = tag) := by
  have ends : ∀ e ∈ some sentinel, e.isSentinel = true := by simp [isSentinel, sentinel]
  exact find?_append_ending ascending positive ends tag

/-- A table of rows that ascend by positive tags, with a sentinel after them or without, gives for a
tag the row that has it, and nothing for a tag that no row has. It never gives a sentinel. -/
theorem find?_gives_own_rows (ascending : rows.Pairwise fun a b => a.tag < b.tag)
    (positive : ∀ r ∈ rows, r.isSentinel = false)
    (sentinels : ∀ e ∈ ending, e.isSentinel = true) :
    let table := (rows ++ ending.toList).toArray
    (∀ tag r, find? table tag = some r ↔ r ∈ rows ∧ r.tag = tag) ∧
      (∀ tag, find? table tag = none ↔ ∀ r ∈ rows, r.tag ≠ tag) ∧
      ∀ tag r, find? table tag = some r → r.isSentinel = false := by
  intro table
  have search (tag : Nat) : find? table tag = rows.find? fun r => decide (r.tag = tag) :=
    find?_append_ending ascending positive sentinels tag
  have distinct : (rows.map (·.tag)).Nodup :=
    List.pairwise_map.mpr (ascending.imp fun hlt => Nat.ne_of_lt hlt)
  have found (tag : Nat) (r : TagRow) : find? table tag = some r ↔ r ∈ rows ∧ r.tag = tag := by
    rw [search, find?_key_eq_some_iff distinct]
  refine ⟨found, fun tag => ?_, fun tag r hr => ?_⟩
  · rw [search, List.find?_eq_none]
    simp
  · exact positive r ((found tag r).mp hr).1

/-- Tables of the least and of the largest tag, of no rows and of a sentinel alone. -/
theorem find?_gives_own_rows_of_outermost :
    let first := make 1 .string .body 0
    let last := make 4294967295 .data .trailer 1
    let table (ending : Option TagRow) := ([first, last] ++ ending.toList).toArray
    (∀ ending ∈ [none, some sentinel], find? (table ending) 1 = some first ∧
      find? (table ending) 4294967295 = some last ∧ find? (table ending) 0 = none ∧
      find? (table ending) 4294967294 = none) ∧
    (∀ tag, find? #[] tag = none) ∧ ∀ tag, find? #[sentinel] tag = none := by
  intro first last table
  have sentinels (ending : Option TagRow) (h : ending ∈ [none, some sentinel]) :
      ∀ e ∈ ending, e.isSentinel = true := by
    rcases List.mem_pair.mp h with rfl | rfl <;> simp [isSentinel, sentinel]
  have bare (ending : Option TagRow) (h : ending ∈ [none, some sentinel]) (tag : Nat) :
      find? ([] ++ ending.toList).toArray tag = none :=
    ((find?_gives_own_rows .nil (by simp) (sentinels ending h)).2.1 tag).mpr (by simp)
  refine ⟨fun ending h => ?_, bare none (by simp), bare (some sentinel) (by simp)⟩
  have ascending : [first, last].Pairwise fun a b => a.tag < b.tag := by decide
  have positive : ∀ r ∈ [first, last], r.isSentinel = false := by decide
  obtain ⟨found, missing, -⟩ := find?_gives_own_rows ascending positive (sentinels ending h)
  exact ⟨(found 1 first).mpr (by decide), (found 4294967295 last).mpr (by decide),
    (missing 0).mpr (by decide), (missing 4294967294).mpr (by decide)⟩

end TagRow

end FixTables
