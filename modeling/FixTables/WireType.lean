namespace FixTables

/-- How the value of a field is written on the wire. -/
inductive WireType
  | string
  | int
  | float
  | bool
  | char
  | timestamp
  | date
  | timeOnly
  | data
  | length
  | seqNum
  | numInGroup
  | country
  | currency
  | exchange
  | multiValue
  | monthYear
  deriving DecidableEq

namespace WireType

def name : WireType → String
  | string => "String"
  | int => "Int"
  | float => "Float"
  | bool => "Bool"
  | char => "Char"
  | timestamp => "Timestamp"
  | date => "Date"
  | timeOnly => "TimeOnly"
  | data => "Data"
  | length => "Length"
  | seqNum => "SeqNum"
  | numInGroup => "NumInGroup"
  | country => "Country"
  | currency => "Currency"
  | exchange => "Exchange"
  | multiValue => "MultiValue"
  | monthYear => "MonthYear"

/-- Every wire type, in the order of their numbers. -/
def all : List WireType :=
  [string, int, float, bool, char, timestamp, date, timeOnly, data, length, seqNum, numInGroup,
    country, currency, exchange, multiValue, monthYear]

/-- The number of a wire type, counted from one. -/
def id (w : WireType) : Nat := all.idxOf w + 1

def ofId? (n : Int) : Option WireType := all.find? (·.id = n)

def ofName? (s : String) : Option WireType := all.find? (·.name = s)

theorem mem_all (w : WireType) : w ∈ all := by cases w <;> decide

end WireType

end FixTables
