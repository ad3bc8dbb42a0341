import FixTables.ComponentRegistry
import FixTables.FieldRegistry
import FixTables.Resolved

namespace FixTables

/-- Looks members up in the registries. A strict resolver takes an unknown name for an error, a
lenient one keeps a placeholder. -/
structure Resolver where
  fields : FieldRegistry
  components : ComponentRegistry
  strict : Bool

namespace ComponentRegistry

/-- The components that are not yet being expanded. -/
def outside (r : ComponentRegistry) (path : List String) : List Component :=
  r.components.filter (·.name ∉ path)

theorem outside_append_lt {r : ComponentRegistry} {path : List String} {name : String}
    {c : Component} (h : r.lookup name = some c) (hp : c.name ∉ path) :
    (r.outside (path ++ [c.name])).length < (r.outside path).length := by
  have hc : c ∈ r.outside path :=
    List.mem_filter.mpr ⟨List.mem_of_find?_eq_some h, by simpa using hp⟩
  have hs : r.outside (path ++ [c.name]) = (r.outside path).filter (·.name ≠ c.name) := by
    simp [outside, List.filter_filter, and_comm]
  rw [hs]
  exact List.length_filter_lt_length_iff_exists.mpr ⟨c, hc, by simp⟩

end ComponentRegistry

namespace Resolver

/-- What becomes of a member whose name is unknown. -/
def unknown (r : Resolver) (context : String) (m : Member) : Traced SchemaError (List Resolved) :=
  if r.strict then .fail (.unresolvedReference m.name context)
  else do
    .note (.skippedMember m.name m.kind context)
    return [.unresolved m.name]

/-- Whether a member is required where it stands, under the cap that holds there. -/
def requiredUnder (cap : Option Bool) (m : Member) : Bool := m.required && cap.getD true

/-- The cap on the members of a component that `m` refers to. -/
def innerCap (cap : Option Bool) (m : Member) : Option Bool :=
  if m.requiredDeclared then some (requiredUnder cap m) else cap

mutual
/-- Replaces references by what they refer to, components by their members. `path` holds the
components being expanded, outermost first. Where `cap` is given, a member is required only if
`cap` is true as well; it comes from the references that led here and ends at a group. -/
def expand (r : Resolver) (context : String) (cap : Option Bool) (path : List String)
    (members : List Member) : Traced SchemaError (List Resolved) :=
  match members with
  | [] => return []
  | m :: ms => return (← expandMember r context cap path m) ++ (← expand r context cap path ms)
termination_by ((r.components.outside path).length, sizeOf members)
def expandMember (r : Resolver) (context : String) (cap : Option Bool) (path : List String)
    (m : Member) : Traced SchemaError (List Resolved) :=
  match m.kind with
  | .field =>
    match r.fields.lookup m.name with
    | some f => return [.field f.tag f.name (requiredUnder cap m)]
    | none => r.unknown context m
  | .group =>
    match r.fields.lookup m.name with
    | some f => return [.group f.tag f.name (requiredUnder cap m)
        (← expand r context none path m.children)]
    | none => r.unknown context m
  | .component =>
    match _h : r.components.lookup m.name with
    | some c =>
      if _hp : c.name ∈ path then .fail (.cyclicReference (path ++ [c.name]))
      else expand r context (innerCap cap m) (path ++ [c.name]) c.members
    | none => r.unknown context m
termination_by ((r.components.outside path).length, sizeOf m)
decreasing_by
  · cases m
    simp
    omega
  · exact Prod.Lex.left _ _ (ComponentRegistry.outside_append_lt _h _hp)
end

/-- The members with every reference looked up; `context` names their owner in reports. -/
def resolve (r : Resolver) (members : List Member) (context : String) :
    Traced SchemaError (List Resolved) :=
  r.expand context none [] members

end Resolver

end FixTables
