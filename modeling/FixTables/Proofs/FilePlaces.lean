import Mathlib
import FixTables.FileSystem
import FixTables.Proofs.Outcome

namespace FixTables

/-- A look-up does not see the entries left out under other keys. -/
theorem lookup_filter_key {α β : Type} [BEq α] [LawfulBEq α] (keep : α → Bool) {a : α}
    (h : keep a) (entries : List (α × β)) :
    (entries.filter fun entry => keep entry.1).lookup a = entries.lookup a := by
  induction entries with
  | nil => rfl
  | cons entry entries ih =>
    obtain ⟨key, value⟩ := entry
    by_cases hk : keep key
    · simp only [List.filter_cons, hk, ite_true, List.lookup_cons, ih]
    · have other : (a == key) = false := beq_false_of_ne (by rintro rfl; exact hk h)
      simp only [List.filter_cons, hk, List.lookup_cons, other]
      simpa using ih

theorem except_ite_error_eq_ok_iff {ε α : Type} {c : Prop} [Decidable c] {e : ε}
    {x : Except ε α} {a : α} : (if c then .error e else x) = .ok a ↔ ¬ c ∧ x = .ok a := by
  split
  next hc => simp [hc]
  next hc => simp [hc]

namespace FileSystem

variable {fs fs' : FileSystem} {p q : Place} {e : Entry}

theorem get?_remove_of_ne (h : q ≠ p) : (fs.remove p).get? q = fs.get? q := by
  have kept : (fs.remove p).entries.lookup q = fs.entries.lookup q :=
    lookup_filter_key (· ≠ p) (by simpa using h) fs.entries
  simp only [get?, kept]
  rfl

theorem get?_put_of_ne (h : q ≠ p) : (fs.put p e).get? q = fs.get? q := by
  have other : (fs.put p e).entries.lookup q = (fs.remove p).entries.lookup q := by
    simp [put, List.lookup_cons, beq_false_of_ne h]
  have same : (fs.put p e).get? q = (fs.remove p).get? q := by
    simp only [get?, other]
    rfl
  rw [same, get?_remove_of_ne h]

theorem get?_of_prefix_home (h : p <+: fs.home) : fs.get? p = some .directory := by
  simp [get?, h]

theorem get?_of_not_prefix_home (h : ¬ p <+: fs.home) : fs.get? p = fs.entries.lookup p := by
  simp [get?, h]

/-- A file can be put at each place that is no directory. -/
theorem get?_put_self (h : fs.get? p ≠ some .directory) : (fs.put p e).get? p = some e := by
  have outside : ¬ p <+: fs.home := fun hp => h (get?_of_prefix_home hp)
  have looked_up : (fs.put p e).get? p = (fs.put p e).entries.lookup p :=
    get?_of_not_prefix_home outside
  rw [looked_up]
  simp [put]

theorem get?_put (h : fs.get? p ≠ some .directory) (q : Place) :
    (fs.put p e).get? q = if q = p then some e else fs.get? q := by
  split
  next hq => rw [hq, get?_put_self h]
  next hq => exact get?_put_of_ne hq

/-- Nothing has to be removed where there is nothing. -/
theorem remove_of_get?_none (h : fs.get? p = none) : fs.remove p = fs := by
  have outside : ¬ p <+: fs.home := by
    intro hp
    simp [get?_of_prefix_home hp] at h
  rw [get?_of_not_prefix_home outside, List.lookup_eq_none_iff] at h
  have kept : fs.entries.filter (·.1 ≠ p) = fs.entries := by
    refine List.filter_eq_self.mpr ?_
    intro entry he
    simpa using Ne.symm (by simpa using h entry he)
  unfold remove
  rw [kept]

theorem remove_put (fs : FileSystem) (p : Place) (e : Entry) :
    (fs.put p e).remove p = fs.remove p := by
  simp [put, remove]

theorem put_put (fs : FileSystem) (p : Place) (e e' : Entry) :
    (fs.put p e).put p e' = fs.put p e' := by
  simp [put, remove]

/-- An entry put at a free place and moved on has been put at its new place. -/
theorem move_put (h : fs.get? p = none) (q : Place) : (fs.put p e).move p q = fs.put q e := by
  have there : (fs.put p e).get? p = some e := get?_put_self (by simp [h])
  simp only [move, there, remove_put, remove_of_get?_none h]

theorem follow_cons_eq_ok_iff {name : String} {names : List String} :
    fs.follow p (name :: names) = .ok q ↔
      fs.get? p = some .directory ∧ name.utf8ByteSize ≤ maxName ∧
        fs.follow (step p name) names = .ok q := by
  rw [follow]
  split
  next h => simp [h]
  next h => simp [h]
  next h =>
    split
    next long => simp [Nat.not_le.mpr long]
    next short => simp [h, Nat.not_lt.mp short]

theorem follow_append_eq_ok_iff {xs ys : List String} :
    fs.follow p (xs ++ ys) = .ok q ↔ ∃ r, fs.follow p xs = .ok r ∧ fs.follow r ys = .ok q := by
  induction xs generalizing p with
  | nil => simp [follow]
  | cons x xs ih => simp [follow_cons_eq_ok_iff, ih, and_assoc]

/-- The last step of a walk. -/
theorem follow_concat_eq_ok_iff {names : List String} {name : String} :
    fs.follow p (names ++ [name]) = .ok q ↔
      ∃ dir, fs.follow p names = .ok dir ∧ fs.get? dir = some .directory ∧
        name.utf8ByteSize ≤ maxName ∧ step dir name = q := by
  simp only [follow_append_eq_ok_iff, follow_cons_eq_ok_iff]
  simp [follow]

/-- Two file systems in which all walks go the same way. -/
structure SameDirectories (fs fs' : FileSystem) : Prop where
  home : fs'.home = fs.home
  directory : ∀ p, fs'.get? p = some .directory ↔ fs.get? p = some .directory

namespace SameDirectories

theorem trans {fs'' : FileSystem} (h : SameDirectories fs fs') (h' : SameDirectories fs' fs'') :
    SameDirectories fs fs'' :=
  ⟨h'.home.trans h.home, fun p => (h'.directory p).trans (h.directory p)⟩

/-- Files put where there are no directories stand in no walk's way. -/
theorem put_file (h : fs.get? p ≠ some .directory) (bytes : ByteArray) :
    SameDirectories fs (fs.put p (.file bytes)) := by
  refine ⟨rfl, fun q => ?_⟩
  rw [get?_put h]
  split
  next hq => simp [hq, h]
  next => rfl

theorem follow_eq_ok_iff (h : SameDirectories fs fs') {names : List String} :
    fs'.follow p names = .ok q ↔ fs.follow p names = .ok q := by
  induction names generalizing p with
  | nil => rfl
  | cons name names ih => simp only [follow_cons_eq_ok_iff, h.directory, ih]

theorem locate_eq_ok_iff (h : SameDirectories fs fs') {path : String} :
    fs'.locate path = .ok p ↔ fs.locate path = .ok p := by
  simp only [locate, start, h.home, except_bind_eq_ok_iff, h.follow_eq_ok_iff]

end SameDirectories

/-- A place to which directories lead. -/
def Reachable (fs : FileSystem) (p : Place) : Prop :=
  ∀ q, q <+: p → q ≠ p → fs.get? q = some .directory

theorem reachable_start (fs : FileSystem) (path : String) : fs.Reachable (fs.start path) := by
  intro q hq hne
  unfold start at hq hne
  split at hq
  next => simp_all
  next => exact get?_of_prefix_home hq

/-- The directory above one that directories lead to. -/
theorem Reachable.get?_dropLast (h : fs.Reachable p) (hd : fs.get? p = some .directory) :
    fs.get? p.dropLast = some .directory := by
  by_cases hp : p.dropLast = p
  · rw [hp, hd]
  · exact h _ p.dropLast_prefix hp

theorem Reachable.step (h : fs.Reachable p) (hd : fs.get? p = some .directory) (name : String) :
    fs.Reachable (step p name) := by
  unfold FileSystem.step
  split
  next => exact h
  next =>
    split
    next =>
      intro q hq hne
      refine h q (hq.trans p.dropLast_prefix) ?_
      rintro rfl
      exact hne (hq.eq_of_length_le (by simp))
    next =>
      intro q hq hne
      obtain rfl | hq := List.prefix_concat_iff.mp hq
      · exact absurd rfl hne
      · by_cases hp : q = p
        · rw [hp, hd]
        · exact h q hq hp

theorem Reachable.follow {names : List String} (h : fs.Reachable p)
    (hf : fs.follow p names = .ok q) : fs.Reachable q := by
  induction names generalizing p with
  | nil =>
    cases hf
    exact h
  | cons name names ih =>
    obtain ⟨hd, -, hf⟩ := follow_cons_eq_ok_iff.mp hf
    exact ih (h.step hd name) hf

/-- A name that does not lead to a directory is added to the place where it is looked up. -/
theorem Reachable.step_of_not_directory {name : String} (h : fs.Reachable p)
    (hd : fs.get? p = some .directory) (hn : fs.get? (FileSystem.step p name) ≠ some .directory) :
    FileSystem.step p name = p ++ [name] ∧ name ≠ "" ∧ name ≠ "." ∧ name ≠ ".." := by
  unfold FileSystem.step at hn ⊢
  split at hn
  next => exact absurd hd hn
  next plain =>
    split at hn
    next => exact absurd (h.get?_dropLast hd) hn
    next up =>
      obtain ⟨hEmpty, hDot⟩ := not_or.mp plain
      simp [hEmpty, hDot, up]

theorem dropWhile_reverse_of_length_le {α : Type} {drop : α → Bool} {xs : List α}
    (h : xs.length ≤ (xs.reverse.dropWhile drop).reverse.length) :
    (xs.reverse.dropWhile drop).reverse = xs := by
  rw [(xs.reverse.dropWhile_suffix drop).eq_of_length_le (by simpa using h), List.reverse_reverse]

theorem exists_namesOf_eq_concat (path : String) :
    ∃ names name, namesOf path = names ++ [name] := by
  have some_name : namesOf path ≠ [] := by simp [namesOf, List.splitOn]
  obtain ⟨names, name, h⟩ := (List.eq_nil_or_concat (namesOf path)).resolve_left some_name
  exact ⟨names, name, by rw [h, List.concat_eq_append]⟩

/-- A path to something else than a directory ends with the name of an entry of a directory. -/
theorem locate_of_not_directory {path : String} (h : fs.locate path = .ok p)
    (hn : fs.get? p ≠ some .directory) :
    ∃ dir names name, namesOf path = names ++ [name] ∧ fs.follow (fs.start path) names = .ok dir ∧
      fs.follow dir [name] = .ok p ∧ p = dir ++ [name] ∧ name ≠ "" ∧ name ≠ "." ∧ name ≠ ".." := by
  simp only [locate, except_bind_eq_ok_iff] at h
  obtain ⟨-, -, hf⟩ := h
  obtain ⟨names, name, hnames⟩ := exists_namesOf_eq_concat path
  rw [hnames] at hf
  obtain ⟨dir, hdir, hlast⟩ := follow_append_eq_ok_iff.mp hf
  obtain ⟨hd, -, hs⟩ := follow_cons_eq_ok_iff.mp hlast
  cases hs
  obtain ⟨place, named⟩ := ((reachable_start fs path).follow hdir).step_of_not_directory hd hn
  exact ⟨dir, names, name, hnames, hdir, hlast, place, named⟩

theorem withoutTrailing_concat {names : List String} {name : String} (hEmpty : name ≠ "")
    (hDot : name ≠ ".") : withoutTrailing (names ++ [name]) = names ++ [name] := by
  cases names with
  | nil => rfl
  | cons first names => simp [withoutTrailing, hEmpty, hDot]

theorem fileName?_of_not_directory {path : String} (h : fs.locate path = .ok p)
    (hn : fs.get? p ≠ some .directory) : p.getLast? = fileName? path := by
  obtain ⟨dir, names, name, hnames, -, -, rfl, named⟩ := locate_of_not_directory h hn
  simp [fileName?, hnames, withoutTrailing_concat named.1 named.2.1, Option.filter, named]

/-- A file can be moved to a path exactly if the path leads to a place that is no directory. -/
theorem targetOf_eq_ok_iff {path : String} :
    fs.targetOf path = .ok p ↔ fs.locate path = .ok p ∧ fs.get? p ≠ some .directory := by
  constructor
  · intro h
    simp only [targetOf, except_bind_eq_ok_iff, except_ite_error_eq_ok_iff, Except.ok.injEq] at h
    obtain ⟨_, hc, dir, hdir, target, hlast, -, untrimmed, hn, rfl⟩ := h
    rw [dropWhile_reverse_of_length_le (Nat.not_lt.mp untrimmed)] at hdir hlast
    obtain ⟨names, name, hnames⟩ := exists_namesOf_eq_concat path
    simp only [hnames, List.dropLast_concat, List.getLast?_concat, Option.getD_some] at hdir hlast
    refine ⟨?_, hn⟩
    simp only [locate, hc, hnames, except_bind_eq_ok_iff]
    exact ⟨(), trivial, follow_append_eq_ok_iff.mpr ⟨dir, hdir, hlast⟩⟩
  · rintro ⟨h, hn⟩
    obtain ⟨dir, names, name, hnames, hdir, hlast, -, named⟩ := locate_of_not_directory h hn
    simp only [locate, except_bind_eq_ok_iff] at h
    obtain ⟨_, hc, -⟩ := h
    simp only [targetOf, except_bind_eq_ok_iff]
    refine ⟨_, hc, dir, ?_, p, ?_, ?_⟩
    · simpa [hnames, named] using hdir
    · simpa [hnames, named] using hlast
    · simp [hnames, named, hn]

/-- What a path leads to. -/
def entryAt? (fs : FileSystem) (path : String) : Option Entry :=
  match fs.locate path with
  | .ok p => fs.get? p
  | .error _ => none

theorem entryAt?_of_locate {path : String} (h : fs.locate path = .ok p) :
    fs.entryAt? path = fs.get? p := by
  simp [entryAt?, h]

theorem SameDirectories.entryAt?_eq {path : String} (h : SameDirectories fs fs')
    (kept : ∀ p, fs.locate path = .ok p → fs'.get? p = fs.get? p) :
    fs'.entryAt? path = fs.entryAt? path := by
  cases hl : fs.locate path with
  | ok p => rw [entryAt?_of_locate hl, entryAt?_of_locate (h.locate_eq_ok_iff.mpr hl), kept p hl]
  | error cause =>
    cases hl' : fs'.locate path with
    | ok p => simp [h.locate_eq_ok_iff.mp hl'] at hl
    | error cause' => simp [entryAt?, hl, hl']

end FileSystem

end FixTables
