import FixTables.Text.LetterCase

namespace FixTables

/-- Upper case with an underscore before each capital that follows a small letter or a digit, and
in place of each character that no identifier holds. -/
def screamingFrom (afterSmall : Bool) : List Char → List Char
  | [] => []
  | c :: cs =>
    (if isUppercase c && afterSmall then ['_'] else []) ++
      (if c.isAlphanum then c.toUpper else '_') ::
      screamingFrom (isLowercase c || c.isDigit) cs

def screamingSnake (s : String) : String := String.ofList (screamingFrom false s.toList)

def numbered (base : String) (n : Nat) : String := s!"{base}_{n}"

/-- The least number from two on that makes a new identifier; one more try than there are taken
identifiers is enough. -/
def freeNumber (taken : List String) (base : String) : Nat :=
  ((List.range' 2 (taken.length + 1)).find? fun n => !taken.contains (numbered base n)).getD 0

/-- `base` itself, or with the least number that makes it new. -/
def uniqueIdentifier (taken : List String) (base : String) : String :=
  if taken.contains base then numbered base (freeNumber taken base) else base

end FixTables
