import FixTables.Notice
import Mathlib.Data.List.Forall2
import Mathlib.Data.List.Perm.Basic

namespace FixTables

theorem except_bind_eq_ok_iff {x : Except ε α} {f : α → Except ε β} {b : β} :
    (x >>= f) = .ok b ↔ ∃ a, x = .ok a ∧ f a = .ok b := by
  cases x with
  | error e => simp [bind, Except.bind]
  | ok a => simp [bind, Except.bind]

theorem except_bind_eq_error_iff {x : Except ε α} {f : α → Except ε β} {e : ε} :
    (x >>= f) = .error e ↔ x = .error e ∨ ∃ a, x = .ok a ∧ f a = .error e := by
  cases x with
  | error e => simp [bind, Except.bind]
  | ok a => simp [bind, Except.bind]

theorem except_map_eq_ok_iff {x : Except ε α} {f : α → β} {b : β} :
    x.map f = .ok b ↔ ∃ a, x = .ok a ∧ f a = b := by
  cases x <;> simp [Except.map]

theorem except_mapError_eq_ok_iff {x : Except ε α} {f : ε → δ} {a : α} :
    x.mapError f = .ok a ↔ x = .ok a := by
  cases x <;> simp [Except.mapError]

theorem except_mapM_eq_ok_iff {f : α → Except ε β} {xs : List α} {ys : List β} :
    xs.mapM f = .ok ys ↔ List.Forall₂ (fun x y => f x = .ok y) xs ys := by
  induction xs generalizing ys with
  | nil => cases ys <;> simp [pure, Except.pure]
  | cons x xs ih =>
    simp only [List.mapM_cons, except_bind_eq_ok_iff, List.forall₂_cons_left_iff]
    constructor
    · rintro ⟨y, hy, zs, hzs, h⟩
      cases h
      exact ⟨y, zs, hy, ih.mp hzs, rfl⟩
    · rintro ⟨y, zs, hy, hzs, rfl⟩
      exact ⟨y, hy, zs, ih.mpr hzs, rfl⟩

/-- What is read in another order comes in another order. -/
theorem except_mapM_perm {f : α → Except ε β} {xs xs' : List α} {ys : List β} (hp : xs.Perm xs')
    (h : xs.mapM f = .ok ys) : ∃ ys', xs'.mapM f = .ok ys' ∧ ys.Perm ys' := by
  obtain ⟨ys', read, hp'⟩ := List.perm_comp_forall₂ hp.symm (except_mapM_eq_ok_iff.mp h)
  exact ⟨ys', except_mapM_eq_ok_iff.mpr read, hp'.symm⟩

theorem forall₂_comp {rel : α → β → Prop} {rel' : β → γ → Prop} {xs : List α} {ys : List β}
    {zs : List γ} (h : List.Forall₂ rel xs ys) (h' : List.Forall₂ rel' ys zs) :
    List.Forall₂ (fun x z => ∃ y, rel x y ∧ rel' y z) xs zs := by
  induction h generalizing zs with
  | nil =>
    cases h'
    exact .nil
  | cons hxy _ ih =>
    cases h' with
    | cons hyz hrest => exact .cons ⟨_, hxy, hyz⟩ (ih hrest)

/-- Lists in step through values between their elements are so through a list of such values. -/
theorem exists_between_of_forall₂ {rel : α → β → Prop} {rel' : β → γ → Prop} {xs : List α}
    {zs : List γ} (h : List.Forall₂ (fun x z => ∃ y, rel x y ∧ rel' y z) xs zs) :
    ∃ ys, List.Forall₂ rel xs ys ∧ List.Forall₂ rel' ys zs := by
  induction h with
  | nil => exact ⟨[], .nil, .nil⟩
  | cons hxz _ ih =>
    obtain ⟨y, hxy, hyz⟩ := hxz
    obtain ⟨ys, hxs, hzs⟩ := ih
    exact ⟨y :: ys, .cons hxy hxs, .cons hyz hzs⟩

theorem map_eq_of_forall₂ {rel : α → β → Prop} {f : α → κ} {g : β → κ} {xs : List α}
    {ys : List β} (h : List.Forall₂ rel xs ys) (agree : ∀ x y, rel x y → f x = g y) :
    xs.map f = ys.map g := by
  induction h with
  | nil => rfl
  | cons hxy _ ih => simp [agree _ _ hxy, ih]

/-- Wherever elements in step are read alike, so are the lists of them. -/
theorem except_mapM_follows {f : α → Except ε β} {f' : α' → Except ε β'} {view : β → κ}
    {view' : β' → κ} {rel : α → α' → Prop} {xs : List α} {xs' : List α'} {ys : List β}
    (h : List.Forall₂ rel xs xs')
    (each : ∀ x x' y, rel x x' → f x = .ok y → ∃ y', f' x' = .ok y' ∧ view y = view' y')
    (read : xs.mapM f = .ok ys) : ∃ ys', xs'.mapM f' = .ok ys' ∧ ys.map view = ys'.map view' := by
  obtain ⟨ys', read', seen⟩ := exists_between_of_forall₂ <|
    (forall₂_comp h.flip (except_mapM_eq_ok_iff.mp read)).imp
      fun x' y ⟨x, hx, hy⟩ => each x x' y hx hy
  exact ⟨ys', except_mapM_eq_ok_iff.mpr read', (map_eq_of_forall₂ seen fun _ _ h => h.symm).symm⟩

theorem exists_forall₂_iff {rel : α → β → Prop} {xs : List α} :
    (∃ ys, List.Forall₂ rel xs ys) ↔ ∀ x ∈ xs, ∃ y, rel x y := by
  induction xs with
  | nil => simp
  | cons x xs ih =>
    rw [List.forall_mem_cons, ← ih]
    constructor
    · rintro ⟨_, h⟩
      cases h with
      | cons hx hxs => exact ⟨⟨_, hx⟩, _, hxs⟩
    · rintro ⟨⟨y, hx⟩, ys, hxs⟩
      exact ⟨y :: ys, .cons hx hxs⟩

theorem exists_mem_of_forall₂ {rel : α → β → Prop} {xs : List α} {ys : List β}
    (h : List.Forall₂ rel xs ys) {x : α} (hx : x ∈ xs) : ∃ y ∈ ys, rel x y := by
  induction h with
  | nil => simp at hx
  | cons hxy _ ih =>
    rcases List.mem_cons.mp hx with rfl | hx
    · exact ⟨_, by simp, hxy⟩
    · obtain ⟨y, hy, h⟩ := ih hx
      exact ⟨y, List.mem_cons_of_mem _ hy, h⟩

namespace Traced

theorem bind_eq_ok_iff {x : Traced ε α} {f : α → Traced ε β} {b : β} :
    (x >>= f).outcome = .ok b ↔ ∃ a, x.outcome = .ok a ∧ (f a).outcome = .ok b := by
  rw [bind_outcome]
  exact except_bind_eq_ok_iff

theorem bind_eq_error_iff {x : Traced ε α} {f : α → Traced ε β} {e : ε} :
    (x >>= f).outcome = .error e ↔
      x.outcome = .error e ∨ ∃ a, x.outcome = .ok a ∧ (f a).outcome = .error e := by
  rw [bind_outcome]
  exact except_bind_eq_error_iff

@[simp] theorem map_outcome (f : α → β) (x : Traced ε α) :
    (f <$> x).outcome = x.outcome.map f := by
  rw [← bind_pure_comp, bind_outcome]
  cases x.outcome <;> rfl

@[simp] theorem note_outcome (n : Notice) : (note n : Traced ε Unit).outcome = .ok () := rfl

@[simp] theorem fail_outcome (e : ε) : (fail e : Traced ε α).outcome = .error e := rfl

@[simp] theorem ofExcept_outcome (x : Except ε α) : (ofExcept x).outcome = x := rfl

theorem mapError_eq_ok_iff {x : Traced ε α} {f : ε → δ} {a : α} :
    (x.mapError f).outcome = .ok a ↔ x.outcome = .ok a :=
  except_mapError_eq_ok_iff

theorem mapM_outcome (f : α → Traced ε β) (xs : List α) :
    (xs.mapM f).outcome = xs.mapM fun x => (f x).outcome := by
  induction xs with
  | nil => rfl
  | cons x xs ih =>
    simp only [List.mapM_cons, bind_outcome, ih]
    rfl

theorem mapM_eq_ok_iff {f : α → Traced ε β} {xs : List α} {ys : List β} :
    (xs.mapM f).outcome = .ok ys ↔ List.Forall₂ (fun x y => (f x).outcome = .ok y) xs ys := by
  rw [mapM_outcome]
  exact except_mapM_eq_ok_iff

end Traced

end FixTables
