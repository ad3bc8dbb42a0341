namespace FixTables

/-- Attributes by name: each name at most once, in ascending order. -/
structure Attributes where
  entries : List (String × String)
  ascending : entries.Pairwise (·.1 < ·.1)

namespace Attributes

def empty : Attributes := ⟨[], .nil⟩

def get? (as : Attributes) (name : String) : Option String := as.entries.lookup name

/-- Puts a value at its name's place, over a value already there. -/
def insertEntry (name value : String) : List (String × String) → List (String × String)
  | [] => [(name, value)]
  | (k, v) :: r =>
    if name < k then (name, value) :: (k, v) :: r
    else if k < name then (k, v) :: insertEntry name value r
    else (name, value) :: r

theorem mem_insertEntry {name value : String} {es : List (String × String)}
    {p : String × String} (h : p ∈ insertEntry name value es) : p.1 = name ∨ p ∈ es := by
  induction es with
  | nil => simp_all [insertEntry]
  | cons e r ih =>
    simp only [insertEntry] at h
    split at h
    · rcases List.mem_cons.mp h with h | h
      · simp [h]
      · exact .inr h
    · split at h
      · rcases List.mem_cons.mp h with h | h
        · simp [h]
        · exact (ih h).imp_right (List.mem_cons_of_mem _)
      · rcases List.mem_cons.mp h with h | h
        · simp [h]
        · exact .inr (List.mem_cons_of_mem _ h)

theorem ascending_insertEntry (name value : String) {es : List (String × String)}
    (h : es.Pairwise (·.1 < ·.1)) : (insertEntry name value es).Pairwise (·.1 < ·.1) := by
  induction es with
  | nil => simp [insertEntry]
  | cons e r ih =>
    have hr := (List.pairwise_cons.mp h).1
    simp only [insertEntry]
    split
    · rename_i hlt
      refine List.pairwise_cons.mpr ⟨fun p hp => ?_, h⟩
      rcases List.mem_cons.mp hp with rfl | hp
      · exact hlt
      · exact String.lt_trans hlt (hr p hp)
    · split
      · rename_i hlt
        refine List.pairwise_cons.mpr ⟨fun p hp => ?_, ih (List.pairwise_cons.mp h).2⟩
        rcases mem_insertEntry hp with he | hp
        · simpa [he] using hlt
        · exact hr p hp
      · rename_i h₁ h₂
        have he : name = e.1 := String.le_antisymm (String.not_lt.mp h₂) (String.not_lt.mp h₁)
        exact List.pairwise_cons.mpr ⟨fun p hp => by simpa [he] using hr p hp,
          (List.pairwise_cons.mp h).2⟩

def insert (as : Attributes) (name value : String) : Attributes :=
  ⟨insertEntry name value as.entries, ascending_insertEntry name value as.ascending⟩

def ofList (es : List (String × String)) : Attributes :=
  es.foldl (fun as (name, value) => as.insert name value) empty

protected def decEq (a b : Attributes) : Decidable (a = b) :=
  if h : a.entries = b.entries then .isTrue (by cases a; cases b; simpa using h)
  else .isFalse fun e => h (by rw [e])

instance : DecidableEq Attributes := Attributes.decEq

end Attributes

end FixTables
