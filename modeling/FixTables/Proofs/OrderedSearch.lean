import FixTables.BinarySearch
import Mathlib.Data.List.Forall2
import Mathlib.Data.List.Nodup
import Mathlib.Order.Compare
import Mathlib.Order.Lattice

namespace FixTables

/-- A list ascends strictly towards what is searched and away from it: whatever stands before an
element not above it lies below it. -/
def AscendsBy (cmp : α → Ordering) (xs : List α) : Prop :=
  xs.Pairwise fun a b => cmp b ≠ .gt → cmp a = .lt

theorem AscendsBy.lt_of_index {cmp : α → Ordering} {xs : Array α} (h : AscendsBy cmp xs.toList)
    {i j : Nat} {a b : α} (ha : xs[i]? = some a) (hb : xs[j]? = some b) (hij : i < j)
    (hn : cmp b ≠ .gt) : cmp a = .lt := by
  obtain ⟨hi, rfl⟩ := Array.getElem?_eq_some_iff.mp ha
  obtain ⟨hj, rfl⟩ := Array.getElem?_eq_some_iff.mp hb
  exact List.pairwise_iff_getElem.mp h i j hi hj hij hn

/-- Narrowing never loses the place of an equal element. -/
theorem narrow_eq_of_equal {cmp : α → Ordering} {xs : Array α} (h : AscendsBy cmp xs.toList)
    {i : Nat} {a : α} (ha : xs[i]? = some a) (he : cmp a = .eq) {base size : Nat}
    (low : base ≤ i) (high : i < base + size) (bound : base + size ≤ xs.size) :
    narrow cmp xs base size = i := by
  fun_induction narrow cmp xs base size with
  | case1 base size hs => omega
  | case2 base size hs half x hx ih =>
    have hhalf : half ≤ size - half := by omega
    by_cases above : cmp x = .gt
    · simp only [above, dite_true, if_true] at ih ⊢
      refine ih low ?_ (by omega)
      -- Were the place in the half given up, it would lie above itself.
      by_contra far
      rcases Nat.lt_or_ge (base + half) i with hlt | hge
      · have := h.lt_of_index hx ha hlt (by simp [he])
        simp [this] at above
      · obtain rfl : i = base + half := by omega
        rw [hx] at ha
        cases ha
        simp [he] at above
    · simp only [above, dite_false, if_false] at ih ⊢
      refine ih ?_ (by omega) (by omega)
      by_contra near
      have := h.lt_of_index ha hx (by omega) above
      simp [he] at this
  | case3 base size hs half hx =>
    have := Array.getElem?_eq_none_iff.mp hx
    omega

/-- In an array that ascends strictly, halving finds what looking through it would. -/
theorem binarySearch_eq_find? {cmp : α → Ordering} {xs : Array α}
    (h : AscendsBy cmp xs.toList) :
    binarySearch cmp xs = xs.toList.find? fun a => decide (cmp a = .eq) := by
  unfold binarySearch
  cases hf : xs.toList.find? fun a => decide (cmp a = .eq) with
  | none =>
    rw [Option.filter_eq_none_iff]
    intro a ha
    have hm : a ∈ xs.toList := Array.mem_toList_iff.mpr (Array.mem_of_getElem? ha)
    simpa using List.find?_eq_none.mp hf a hm
  | some a =>
    have he : cmp a = .eq := by simpa using List.find?_some hf
    obtain ⟨i, hi⟩ := List.mem_iff_getElem?.mp (List.mem_of_find?_eq_some hf)
    rw [Array.getElem?_toList] at hi
    have hb := (Array.getElem?_eq_some_iff.mp hi).1
    rw [narrow_eq_of_equal h hi he (by omega) (by omega) (by omega), hi]
    simp [he]

theorem ascendsBy_of_pairwise_lt {κ : Type} [LinearOrder κ] {key : α → κ} {xs : List α}
    (h : xs.Pairwise fun a b => key a < key b) (k : κ) :
    AscendsBy (fun a => compare (key a) k) xs := by
  refine h.imp fun {a b} hab hn => ?_
  rw [ne_eq, compare_gt_iff_gt, not_lt] at hn
  exact compare_lt_iff_lt.mpr (lt_of_lt_of_le hab hn)

theorem binarySearch_key_eq_find? {κ : Type} [LinearOrder κ] {key : α → κ} {xs : Array α}
    (h : xs.toList.Pairwise fun a b => key a < key b) (k : κ) :
    binarySearch (fun a => compare (key a) k) xs =
      xs.toList.find? fun a => decide (key a = k) := by
  simp only [binarySearch_eq_find? (ascendsBy_of_pairwise_lt h k), compare_eq_iff_eq]

section Keyed

variable {κ : Type} [DecidableEq κ] {key : α → κ} {xs ys : List α}

theorem find?_key_eq_some_iff (nodup : (xs.map key).Nodup) {k : κ} {a : α} :
    xs.find? (fun a => decide (key a = k)) = some a ↔ a ∈ xs ∧ key a = k := by
  constructor
  · intro h
    exact ⟨List.mem_of_find?_eq_some h, by simpa using List.find?_some h⟩
  · rintro ⟨ha, rfl⟩
    cases hf : xs.find? fun b => decide (key b = key a) with
    | none => simpa using List.find?_eq_none.mp hf a ha
    | some b =>
      have hb := List.mem_of_find?_eq_some hf
      have same : key b = key a := by simpa using List.find?_some hf
      rw [List.inj_on_of_nodup_map nodup hb ha same]

/-- With distinct keys it does not matter in which order a list is looked through. -/
theorem find?_key_eq_of_perm (hp : xs.Perm ys) (nodup : (xs.map key).Nodup) (k : κ) :
    xs.find? (fun a => decide (key a = k)) = ys.find? fun a => decide (key a = k) := by
  have nodup' : (ys.map key).Nodup := (hp.map key).nodup_iff.mp nodup
  ext a
  rw [find?_key_eq_some_iff nodup, find?_key_eq_some_iff nodup', hp.mem_iff]

/-- Lists that a view shows in another order alone give the same to it when searched by a key. -/
theorem find?_view_eq_of_perm {view : α → β} {key : β → κ} {xs ys : List α}
    (hp : (xs.map view).Perm (ys.map view)) (nodup : ((xs.map view).map key).Nodup) (k : κ) :
    (xs.find? fun a => decide (key (view a) = k)).map view =
      (ys.find? fun a => decide (key (view a) = k)).map view := by
  have search (zs : List α) : (zs.find? fun a => decide (key (view a) = k)).map view =
      (zs.map view).find? fun b => decide (key b = k) := by
    rw [List.find?_map]
    rfl
  rw [search, search, find?_key_eq_of_perm hp nodup]

end Keyed

section Sorted

variable {κ : Type} [LinearOrder κ] {key : α → κ} {le : α → α → Bool}

theorem pairwise_mergeSort_key (hle : ∀ a b, le a b = true ↔ key a ≤ key b) (xs : List α) :
    (xs.mergeSort le).Pairwise fun a b => key a ≤ key b := by
  have trans : ∀ a b c, le a b = true → le b c = true → le a c = true := by
    intro a b c hab hbc
    rw [hle] at hab hbc ⊢
    exact le_trans hab hbc
  have total : ∀ a b, (le a b || le b a) = true := by
    intro a b
    rw [Bool.or_eq_true, hle, hle]
    exact le_total (key a) (key b)
  exact (List.pairwise_mergeSort trans total xs).imp fun h => (hle _ _).mp h

theorem pairwise_mergeSort_key_lt {xs : List α} (hle : ∀ a b, le a b = true ↔ key a ≤ key b)
    (nodup : (xs.map key).Nodup) : (xs.mergeSort le).Pairwise fun a b => key a < key b := by
  have distinct : ((xs.mergeSort le).map key).Nodup :=
    ((List.mergeSort_perm xs le).map key).nodup_iff.mpr nodup
  refine ((pairwise_mergeSort_key hle xs).and (List.pairwise_map.mp distinct)).imp ?_
  rintro a b ⟨hab, hne⟩
  exact lt_of_le_of_ne hab hne

/-- With distinct keys sorting forgets the order that there was before. -/
theorem mergeSort_key_eq_of_perm {xs ys : List α} (hle : ∀ a b, le a b = true ↔ key a ≤ key b)
    (hp : xs.Perm ys) (nodup : (xs.map key).Nodup) : xs.mergeSort le = ys.mergeSort le := by
  have sorted : (xs.mergeSort le).Perm (ys.mergeSort le) :=
    (List.mergeSort_perm xs le).trans (hp.trans (List.mergeSort_perm ys le).symm)
  refine sorted.eq_of_pairwise ?_ (pairwise_mergeSort_key hle xs) (pairwise_mergeSort_key hle ys)
  intro a b ha hb hab hba
  have ha' : a ∈ xs := List.mem_mergeSort.mp ha
  have hb' : b ∈ xs := hp.mem_iff.mpr (List.mem_mergeSort.mp hb)
  exact List.inj_on_of_nodup_map nodup ha' hb' (le_antisymm hab hba)

/-- Lists that a view shows in another order alone look the same to it once they are sorted. -/
theorem map_mergeSort_eq_of_perm {view : β → α} {le : β → β → Bool} {xs ys : List β}
    (hle : ∀ a b, le a b = true ↔ key (view a) ≤ key (view b))
    (hp : (xs.map view).Perm (ys.map view)) (nodup : ((xs.map view).map key).Nodup) :
    (xs.mergeSort le).map view = (ys.mergeSort le).map view := by
  have sort (zs : List β) : (zs.mergeSort le).map view =
      (zs.map view).mergeSort fun a b => decide (key a ≤ key b) := by
    apply List.map_mergeSort
    intro a _ b _
    rw [Bool.eq_iff_iff, hle, decide_eq_true_iff]
  rw [sort, sort, mergeSort_key_eq_of_perm (fun a b => decide_eq_true_iff) hp nodup]

end Sorted

/-- Lists in step whose elements are ordered alike are in step once they are sorted. -/
theorem forall₂_mergeSort {rel : α → β → Prop} {le : α → α → Bool} {le' : β → β → Bool}
    {xs : List α} {ys : List β} (h : List.Forall₂ rel xs ys)
    (agree : ∀ a a' b b', rel a b → rel a' b' → le a a' = le' b b') :
    List.Forall₂ rel (xs.mergeSort le) (ys.mergeSort le') := by
  obtain ⟨lengths, related⟩ := List.forall₂_iff_zip.mp h
  let pairs := (xs.zip ys).mergeSort fun p q => le p.1 q.1
  have first : pairs.map Prod.fst = xs.mergeSort le :=
    calc pairs.map Prod.fst
      _ = ((xs.zip ys).map Prod.fst).mergeSort le := List.map_mergeSort fun _ _ _ _ => rfl
      _ = xs.mergeSort le := by rw [List.map_fst_zip lengths.le]
  have second : pairs.map Prod.snd = ys.mergeSort le' :=
    calc pairs.map Prod.snd
      _ = ((xs.zip ys).map Prod.snd).mergeSort le' :=
        List.map_mergeSort fun _ hp _ hq => agree _ _ _ _ (related hp) (related hq)
      _ = ys.mergeSort le' := by rw [List.map_snd_zip lengths.ge]
  rw [← first, ← second, List.forall₂_map_left_iff, List.forall₂_map_right_iff, List.forall₂_same]
  exact fun p hp => related (List.mem_mergeSort.mp hp)

theorem find?_rel_of_forall₂ {rel : α → β → Prop} {p : α → Bool} {q : β → Bool} {xs : List α}
    {ys : List β} (h : List.Forall₂ rel xs ys) (agree : ∀ a b, rel a b → p a = q b) :
    Option.Rel rel (xs.find? p) (ys.find? q) := by
  induction h with
  | nil => exact .none
  | @cons a b as bs hab _ ih =>
    rw [List.find?_cons, List.find?_cons, agree a b hab]
    cases q b with
    | true => exact .some hab
    | false => exact ih

end FixTables
