namespace FixTables

/-- The part of a message that a field belongs to. -/
inductive Location
  | body
  | header
  | trailer
  deriving DecidableEq

namespace Location

def name : Location → String
  | body => "Body"
  | header => "Header"
  | trailer => "Trailer"

/-- Every location, in the order of their numbers. -/
def all : List Location := [body, header, trailer]

/-- The number of a location, counted from zero. -/
def id (l : Location) : Nat := all.idxOf l

def ofId? (n : Int) : Option Location := all.find? (·.id = n)

def ofName? (s : String) : Option Location := all.find? (·.name = s)

end Location

end FixTables
