import FixTables.ComponentRegistry
import FixTables.FieldRegistry
import FixTables.Resolver

namespace FixTables

/-- The error for a member of the header or the trailer that no registry knows. -/
def Location.unresolved : Location → String → SchemaError
  | .trailer => .unresolvedTrailerField
  | .header | .body => .unresolvedHeaderField

mutual
/-- Moves every field that the members reach to `location`: through groups, through members nested
in any other way, and through components. `path` holds the components being walked through. -/
def FieldRegistry.propagate (components : ComponentRegistry) (location : Location)
    (path : List String) (fields : FieldRegistry) (members : List Member) :
    Except SchemaError FieldRegistry :=
  match members with
  | [] => .ok fields
  | m :: ms => do
    propagate components location path
      (← fields.propagateMember components location path m) ms
termination_by ((components.outside path).length, sizeOf members)
def FieldRegistry.propagateMember (components : ComponentRegistry) (location : Location)
    (path : List String) (fields : FieldRegistry) (m : Member) :
    Except SchemaError FieldRegistry :=
  match m.kind with
  | .field | .group =>
    match fields.setLocation m.name location with
    | some moved => moved.propagate components location path m.children
    | none => .error (location.unresolved m.name)
  | .component =>
    match _h : components.lookup m.name with
    | some c =>
      if _hp : c.name ∈ path then .error (.cyclicReference (path ++ [c.name]))
      else fields.propagate components location (path ++ [c.name]) c.members
    | none => .error (location.unresolved m.name)
termination_by ((components.outside path).length, sizeOf m)
decreasing_by
  · cases m
    simp
    omega
  · exact Prod.Lex.left _ _ (ComponentRegistry.outside_append_lt _h _hp)
end

end FixTables
