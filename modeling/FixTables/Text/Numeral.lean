namespace FixTables

/-- Why a text is not an unsigned number below a limit. -/
inductive NumeralError
  | empty
  | invalidDigit
  | tooLarge
  deriving DecidableEq, Repr

def NumeralError.message : NumeralError → String
  | .empty => "cannot parse integer from empty string"
  | .invalidDigit => "invalid digit found in string"
  | .tooLarge => "number too large to fit in target type"

/-- The value of a digit, letters of either case standing for ten and above. -/
def digitValue? (base : Nat) (c : Char) : Option Nat :=
  let n := c.toNat
  let v :=
    if 0x30 ≤ n ∧ n ≤ 0x39 then n - 0x30
    else if 0x61 ≤ n ∧ n ≤ 0x7a then n - 0x61 + 10
    else if 0x41 ≤ n ∧ n ≤ 0x5a then n - 0x41 + 10
    else base
  if v < base then some v else none

/-- Reads digits after a number `v` already read. The first character that is no digit and the
first digit that leads past the limit compete: the one further left is reported. -/
def readDigitsFrom (base limit : Nat) (v : Nat) : List Char → Except NumeralError Nat
  | [] => .ok v
  | c :: cs =>
    match digitValue? base c with
    | none => .error .invalidDigit
    | some d =>
      if v * base + d ≤ limit then readDigitsFrom base limit (v * base + d) cs
      else .error .tooLarge

/-- Reads a run of digits without a sign. -/
def readDigits (base limit : Nat) : List Char → Except NumeralError Nat
  | [] => .error .empty
  | cs => readDigitsFrom base limit 0 cs

/-- Reads a decimal number of at most `limit`, which one plus sign may precede. -/
def readUnsigned (limit : Nat) (s : String) : Except NumeralError Nat :=
  match s.toList with
  | ['+'] => .error .invalidDigit
  | '+' :: cs => readDigits 10 limit cs
  | cs => readDigits 10 limit cs

theorem readDigitsFrom_le {base limit v n : Nat} {cs : List Char} (hv : v ≤ limit)
    (h : readDigitsFrom base limit v cs = .ok n) : n ≤ limit := by
  induction cs generalizing v with
  | nil =>
    simp only [readDigitsFrom, Except.ok.injEq] at h
    omega
  | cons c cs ih =>
    simp only [readDigitsFrom] at h
    split at h
    · simp at h
    · split at h
      · exact ih ‹_› h
      · simp at h

theorem readDigits_le {base limit n : Nat} {cs : List Char}
    (h : readDigits base limit cs = .ok n) : n ≤ limit := by
  cases cs with
  | nil => simp [readDigits] at h
  | cons c cs => exact readDigitsFrom_le (Nat.zero_le _) h

/-- What is read never exceeds the limit. -/
theorem readUnsigned_le {limit n : Nat} {s : String} (h : readUnsigned limit s = .ok n) :
    n ≤ limit := by
  unfold readUnsigned at h
  split at h
  · simp at h
  · exact readDigits_le h
  · exact readDigits_le h

end FixTables
