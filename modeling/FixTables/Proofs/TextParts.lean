import FixTables.Text.Quoted
import Mathlib.Data.List.Basic

namespace FixTables

/-- The parts of a list that `stop` ends, one after the other; what follows the last of them is left
out. -/
def parts [DecidableEq α] (stop : α) : List α → List (List α)
  | [] => []
  | x :: xs =>
    if x = stop then [] :: parts stop xs
    else
      match parts stop xs with
      | [] => []
      | p :: ps => (x :: p) :: ps

theorem parts_append_stop [DecidableEq α] {stop : α} {p : List α} (hp : stop ∉ p) (xs : List α) :
    parts stop (p ++ stop :: xs) = p :: parts stop xs := by
  induction p with
  | nil => simp [parts]
  | cons x p ih =>
    obtain ⟨hx, hp⟩ := not_or.mp (mt List.mem_cons.mpr hp)
    simp [parts, Ne.symm hx, ih hp]

theorem parts_of_not_mem [DecidableEq α] {stop : α} {xs : List α} (h : stop ∉ xs) :
    parts stop xs = [] := by
  induction xs with
  | nil => rfl
  | cons x xs ih =>
    obtain ⟨hx, hxs⟩ := not_or.mp (mt List.mem_cons.mpr h)
    simp [parts, Ne.symm hx, ih hxs]

theorem parts_concat_ne_nil [DecidableEq α] (stop : α) (p : List α) :
    parts stop (p ++ [stop]) ≠ [] := by
  induction p with
  | nil => simp [parts]
  | cons x p ih =>
    obtain ⟨q, qs, hq⟩ := List.exists_cons_of_ne_nil ih
    rw [List.cons_append, parts, hq]
    split <;> simp

theorem parts_append [DecidableEq α] (stop : α) (p xs : List α) :
    parts stop (p ++ stop :: xs) = parts stop (p ++ [stop]) ++ parts stop xs := by
  induction p with
  | nil => simp [parts]
  | cons x p ih =>
    obtain ⟨q, qs, hq⟩ := List.exists_cons_of_ne_nil (parts_concat_ne_nil stop p)
    rw [List.cons_append, List.cons_append, parts, parts, ih, hq]
    split <;> rfl

/-- Parts that do not hold their own end are found again. -/
theorem parts_flatMap [DecidableEq α] {stop : α} {ps : List (List α)} (h : ∀ p ∈ ps, stop ∉ p) :
    parts stop (ps.flatMap (· ++ [stop])) = ps := by
  induction ps with
  | nil => rfl
  | cons p ps ih =>
    obtain ⟨hp, hps⟩ := List.forall_mem_cons.mp h
    simp only [List.flatMap_cons, List.append_assoc, List.singleton_append]
    rw [parts_append_stop hp, ih hps]

/-- The parts of a text that a character ends. -/
def pieces (stop : Char) (text : String) : List String :=
  (parts stop text.toList).map String.ofList

theorem pieces_join {stop : Char} {ps : List String} (h : ∀ p ∈ ps, stop ∉ p.toList) :
    pieces stop (String.join (ps.map (· ++ String.singleton stop))) = ps := by
  have chars : (String.join (ps.map (· ++ String.singleton stop))).toList =
      (ps.map String.toList).flatMap (· ++ [stop]) := by
    simp [String.toList_join, List.flatMap_map]
  rw [pieces, chars, parts_flatMap (by simpa using h)]
  simp [Function.comp_def]

/-- Ended texts fall apart one by one. -/
theorem pieces_join_eq_flatMap (stop : Char) (ps : List String) :
    pieces stop (String.join (ps.map (· ++ String.singleton stop))) =
      ps.flatMap fun p => pieces stop (p ++ String.singleton stop) := by
  induction ps with
  | nil => rfl
  | cons p ps ih =>
    have front : (p ++ String.singleton stop).toList = p.toList ++ [stop] := by simp
    rw [List.flatMap_cons, ← ih, List.map_cons, String.join_cons, pieces, String.toList_append,
      front, List.append_assoc, List.singleton_append, parts_append, List.map_append, ← front]
    rfl

/-- What stands between the front and the back of a text that begins and ends with them. -/
def between (front back text : String) : Option String :=
  ((text.toList.dropPrefix? front.toList).bind (·.dropSuffix? back.toList)).map String.ofList

theorem between_append (front text back : String) :
    between front back (front ++ text ++ back) = some text := by
  have hf : (front ++ text ++ back).toList.dropPrefix? front.toList =
      some (text.toList ++ back.toList) := by
    rw [List.dropPrefix?_eq_some_iff]
    exact ⟨front.toList, by simp, by simp⟩
  have hb : (text.toList ++ back.toList).dropSuffix? back.toList = some text.toList := by
    rw [List.dropSuffix?_eq_some_iff]
    exact ⟨back.toList, rfl, by simp⟩
  rw [between, hf, Option.bind_some, hb, Option.map_some, String.ofList_toList]

theorem between_eq_none {front back start : String} (h : ¬ front.toList <+: start.toList)
    (h' : ¬ start.toList <+: front.toList) (rest : String) :
    between front back (start ++ rest) = none := by
  cases hd : (start ++ rest).toList.dropPrefix? front.toList with
  | none => simp only [between, hd, Option.bind_none, Option.map_none]
  | some text =>
    obtain ⟨same, hs, he⟩ := List.dropPrefix?_eq_some_iff.mp hd
    obtain rfl := eq_of_beq he
    rw [String.toList_append] at hs
    exact absurd (List.prefix_or_prefix_of_prefix ⟨text, hs.symm⟩ ⟨rest.toList, rfl⟩)
      (not_or.mpr ⟨h, h'⟩)

/-- A text of one line. -/
def OneLine (text : String) : Prop := '\n' ∉ text.toList

instance (text : String) : Decidable (OneLine text) := inferInstanceAs (Decidable (_ ∉ _))

@[simp] theorem oneLine_append {a b : String} : OneLine (a ++ b) ↔ OneLine a ∧ OneLine b := by
  simp [OneLine]

theorem isDigit_of_mem_repr {n : Nat} {c : Char} (h : c ∈ n.repr.toList) : c.isDigit := by
  rw [Nat.repr_eq_ofList_toDigits, String.toList_ofList] at h
  exact Nat.isDigit_of_mem_toDigits (by decide) (by decide) h

theorem not_mem_repr {c : Char} (h : c.isDigit = false) (n : Nat) : c ∉ n.repr.toList := by
  intro hc
  simp [isDigit_of_mem_repr hc] at h

@[simp] theorem oneLine_repr (n : Nat) : OneLine n.repr := not_mem_repr rfl n

section Quoting

/-- The value of a lower-case hexadecimal digit. -/
def hexValue (c : Char) : Nat := if c.isDigit then c.toNat - '0'.toNat else c.toNat - 'a'.toNat + 10

def hexNumber (digits : List Char) : Nat := digits.foldl (fun n c => 16 * n + hexValue c) 0

/-- The character that a letter after a backslash stands for. -/
def unescapeLetter : Char → Option Char
  | '"' => some '"'
  | '\\' => some '\\'
  | 'n' => some '\n'
  | 'r' => some '\r'
  | 't' => some '\t'
  | '0' => some '\x00'
  | _ => none

/-- Reads the characters inside a quoted literal back. -/
def unescape : List Char → Option (List Char)
  | [] => some []
  | '\\' :: 'u' :: '\x7b' :: cs =>
    let c := Char.ofNat (hexNumber (cs.takeWhile (· ≠ '\x7d')))
    (unescape ((cs.dropWhile (· ≠ '\x7d')).drop 1)).map (c :: ·)
  | '\\' :: c :: cs => (unescapeLetter c).bind fun d => (unescape cs).map (d :: ·)
  | c :: cs => (unescape cs).map (c :: ·)
termination_by cs => cs.length
decreasing_by
  · have := List.IsSuffix.length_le (List.dropWhile_suffix (· ≠ '\x7d') (l := cs))
    simp only [List.length_drop, List.length_cons]
    omega
  · simp only [List.length_cons]
    omega
  · simp

def unquote (text : String) : Option String :=
  ((between "\"" "\"" text).bind fun inner => unescape inner.toList).map String.ofList

/-- Hexadecimal digits are small letters or decimal digits, and give their number again. -/
theorem hexDigits_spec (n : Nat) :
    (∀ c ∈ hexDigits n, c.isAlphanum) ∧ hexNumber (hexDigits n) = n := by
  have digit : ∀ d < 16, (Nat.digitChar d).isAlphanum ∧ hexValue (Nat.digitChar d) = d := by
    decide
  induction n using Nat.strongRecOn with
  | ind n ih =>
    by_cases h : n < 16
    · rw [hexDigits, Nat.toDigits_of_lt_base h]
      simpa [hexNumber] using digit n h
    · have hd : n % 16 < 16 := Nat.mod_lt n (by decide)
      have split : hexDigits n = hexDigits (n / 16) ++ [Nat.digitChar (n % 16)] := by
        have := Nat.toDigits_append_toDigits (b := 16) (n := n / 16) (by decide) (by omega) hd
        rw [Nat.div_add_mod, Nat.toDigits_of_lt_base hd] at this
        exact this.symm
      obtain ⟨alphanum, value⟩ := ih (n / 16) (by omega)
      obtain ⟨lastAlphanum, lastValue⟩ := digit _ hd
      rw [split]
      constructor
      · simpa [or_imp, forall_and] using ⟨alphanum, lastAlphanum⟩
      · rw [hexNumber] at value ⊢
        rw [List.foldl_append, value, List.foldl_cons, List.foldl_nil, lastValue]
        omega

theorem unescape_letter {c d : Char} (h : unescapeLetter c = some d) (cs : List Char) :
    unescape ('\\' :: c :: cs) = (unescape cs).map (d :: ·) := by
  have hu : c ≠ 'u' := by
    rintro rfl
    simp [unescapeLetter] at h
  rw [unescape]
  · rw [h, Option.bind_some]
  · intro rest hc
    exact absurd hc hu

theorem unescape_code (c : Char) (cs : List Char) :
    unescape (['\\', 'u', '\x7b'] ++ hexDigits c.toNat ++ ['\x7d'] ++ cs) =
      (unescape cs).map (c :: ·) := by
  obtain ⟨alphanum, value⟩ := hexDigits_spec c.toNat
  have inside : ∀ d ∈ hexDigits c.toNat, decide (d ≠ '\x7d') = true := by
    intro d hd
    simp only [decide_eq_true_eq]
    rintro rfl
    exact absurd (alphanum _ hd) (by decide)
  have rest : ['\\', 'u', '\x7b'] ++ hexDigits c.toNat ++ ['\x7d'] ++ cs =
      '\\' :: 'u' :: '\x7b' :: (hexDigits c.toNat ++ '\x7d' :: cs) := by
    simp
  rw [rest, unescape]
  simp only [List.takeWhile_append_of_pos inside, List.dropWhile_append_of_pos inside]
  simp [value]

theorem unescape_plain {c : Char} (h : c ≠ '\\') (cs : List Char) :
    unescape (c :: cs) = (unescape cs).map (c :: ·) := by
  rw [unescape]
  · intro rest hc
    exact absurd hc h
  · intro d rest hc
    exact absurd hc h

theorem unescape_escapeChar (c : Char) (cs : List Char) :
    unescape (escapeChar c ++ cs) = (unescape cs).map (c :: ·) := by
  unfold escapeChar
  split_ifs with quote backslash newline carriageReturn tab null special
  · subst quote
    exact unescape_letter rfl cs
  · subst backslash
    exact unescape_letter rfl cs
  · subst newline
    exact unescape_letter rfl cs
  · subst carriageReturn
    exact unescape_letter rfl cs
  · subst tab
    exact unescape_letter rfl cs
  · subst null
    exact unescape_letter rfl cs
  · exact unescape_code c cs
  · exact unescape_plain backslash cs

theorem unescape_flatMap (cs : List Char) : unescape (cs.flatMap escapeChar) = some cs := by
  induction cs with
  | nil => rw [List.flatMap_nil, unescape]
  | cons c cs ih => rw [List.flatMap_cons, unescape_escapeChar, ih, Option.map_some]

theorem unquote_quoted (s : String) : unquote (quoted s) = some s := by
  have shape : quoted s = "\"" ++ String.ofList (s.toList.flatMap escapeChar) ++ "\"" := by
    rw [← String.toList_inj]
    simp [quoted]
  rw [unquote, shape, between_append]
  simp [unescape_flatMap]

/-- Quoting brings in letters, digits and the marks of a literal, and leaves no line break. -/
theorem mem_escapeChar {c d : Char} (h : d ∈ escapeChar c) :
    (d = c ∧ c ≠ '\n') ∨ d.isAlphanum ∨ d ∈ ['"', '\\', '\x7b', '\x7d'] := by
  have letters : ∀ d ∈ ['"', '\\', 'n', 'r', 't', '0', 'u', '\x7b', '\x7d'],
      d.isAlphanum ∨ d ∈ ['"', '\\', '\x7b', '\x7d'] := by
    simp
  unfold escapeChar at h
  split_ifs at h with quote backslash newline carriageReturn tab null special
  iterate 6 exact .inr (letters d (by grind))
  · simp only [List.append_assoc, List.mem_append] at h
    obtain h | h | h := h
    · exact .inr (letters d (by grind))
    · exact .inr (.inl ((hexDigits_spec c.toNat).1 d h))
    · exact .inr (letters d (by grind))
  · exact .inl ⟨List.mem_singleton.mp h, List.mem_singleton.mp h ▸ newline⟩

theorem mem_quoted {s : String} {d : Char} (h : d ∈ (quoted s).toList) :
    (d ∈ s.toList ∧ d ≠ '\n') ∨ d.isAlphanum ∨ d ∈ ['"', '\\', '\x7b', '\x7d'] := by
  simp only [quoted, String.toList_ofList, List.mem_cons, List.mem_append, List.mem_flatMap,
    List.not_mem_nil, or_false] at h
  obtain rfl | ⟨c, hc, hd⟩ | rfl := h
  · simp
  · obtain ⟨rfl, hn⟩ | marks := mem_escapeChar hd
    · exact .inl ⟨hc, hn⟩
    · exact .inr marks
  · simp

@[simp] theorem oneLine_quoted (s : String) : OneLine (quoted s) := by
  intro h
  obtain ⟨-, hn⟩ | alphanum | mark := mem_quoted h
  · exact hn rfl
  · simp at alphanum
  · simp at mark

end Quoting

end FixTables
