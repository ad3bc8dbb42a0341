import FixTables.Markup.Error

namespace FixTables

/-- The white space of markup: space, tab, carriage return and line feed. -/
def isMarkupSpace (c : Char) : Bool :=
  c == ' ' || c == '\t' || c == '\r' || c == '\n'

/-- The length of a text in UTF-8. -/
def byteLength : List Char → Nat
  | [] => 0
  | c :: cs => c.utf8Size + byteLength cs

theorem length_dropWhile_le (p : α → Bool) (xs : List α) :
    (xs.dropWhile p).length ≤ xs.length :=
  (List.dropWhile_suffix p).length_le

/-- The character a numeric reference stands for, decimal or after an `x` hexadecimal. -/
def readReference (cs : List Char) : Except ReferenceError Char :=
  let (base, digits) := match cs with
    | 'x' :: hex => (16, hex)
    | _ => (10, cs)
  match digits with
  | '+' :: _ | '-' :: _ => .error .sign
  | _ =>
    match readDigits base 0xffffffff digits with
    | .error cause => .error (.numeral cause)
    | .ok n =>
      if n = 0 then .error .zero
      else if n.isValidChar then .ok (Char.ofNat n)
      else .error (.notCodePoint n)

/-- The character an entity stands for; `start` is where its name begins. -/
def readEntity (start : Nat) (name : List Char) : Except ValueError Char :=
  match name with
  | '#' :: cs => (readReference cs).mapError .reference
  | ['l', 't'] => .ok '<'
  | ['g', 't'] => .ok '>'
  | ['a', 'm', 'p'] => .ok '&'
  | ['a', 'p', 'o', 's'] => .ok '\''
  | ['q', 'u', 'o', 't'] => .ok '"'
  | _ => .error (.unknownEntity start (start + byteLength name) (String.ofList name))

/-- Replaces the entities in a value of `size` bytes, of which `cs` is the part still to read. -/
def decodeValue (size : Nat) (cs : List Char) : Except ValueError (List Char) :=
  match cs with
  | [] => .ok []
  | '&' :: r =>
    let ends := fun c => c != '&' && c != ';'
    let start := size - byteLength r
    match _h : r.dropWhile ends with
    | ';' :: rest => do
      let c ← readEntity start (r.takeWhile ends)
      return c :: (← decodeValue size rest)
    | _ => .error (.unterminated (start - 1) size)
  | c :: r => return c :: (← decodeValue size r)
termination_by cs.length
decreasing_by
  · have := length_dropWhile_le ends r
    simp_all only [List.length_cons]
    omega
  · simp

/-- The quote that opens an attribute value. -/
def isQuote (c : Char) : Bool := c == '"' || c == '\''

/-- Reads the attributes in `cs`, the unread end of a tag's content of `size` bytes; `seen` holds
the keys before it with their places. -/
def readAttributes (size : Nat) (seen : List (String × Nat)) (cs : List Char) :
    Except MarkupError (List (String × String)) :=
  match _h : cs.dropWhile isMarkupSpace with
  | [] => .ok []
  | first :: cs₁ =>
    let inKey := fun c => c != '=' && !isMarkupSpace c
    let place := size - byteLength (first :: cs₁)
    let key := String.ofList (first :: cs₁.takeWhile inKey)
    match _h₁ : (cs₁.dropWhile inKey).dropWhile isMarkupSpace with
    | [] => .error (.badAttribute (.expectedEquals size))
    | '=' :: cs₂ =>
      match seen.lookup key with
      | some earlier => .error (.badAttribute (.duplicated place earlier))
      | none =>
        match _h₂ : cs₂.dropWhile isMarkupSpace with
        | [] => .error (.badAttribute (.expectedValue size))
        | quote :: cs₃ =>
          if isQuote quote then
            let raw := cs₃.takeWhile (· != quote)
            match _h₃ : cs₃.dropWhile (· != quote) with
            | [] => .error (.badAttribute (.missingQuote size quote))
            | _ :: rest => do
              let value ← (decodeValue (byteLength raw) raw).mapError .badValue
              return (key, String.ofList value) ::
                (← readAttributes size ((key, place) :: seen) rest)
          else .error (.badAttribute (.unquotedValue (size - byteLength (quote :: cs₃))))
    | other :: cs₂ => .error (.badAttribute (.expectedEquals (size - byteLength (other :: cs₂))))
termination_by cs.length
decreasing_by
  have k := length_dropWhile_le isMarkupSpace cs
  have k₁ := length_dropWhile_le isMarkupSpace (cs₁.dropWhile inKey)
  have k₁' := length_dropWhile_le inKey cs₁
  have k₂ := length_dropWhile_le isMarkupSpace cs₂
  have k₃ := length_dropWhile_le (· != quote) cs₃
  rw [_h] at k
  rw [_h₁] at k₁
  rw [_h₂] at k₂
  rw [_h₃] at k₃
  simp only [List.length_cons] at k k₁ k₂ k₃
  omega

end FixTables
