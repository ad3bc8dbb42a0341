import FixTables.Proofs.SourceLines

namespace FixTables

namespace GroupListing

/-- The layouts of groups, without their identifiers. -/
def layouts : List GroupListing → List GroupLayout
  | [] => []
  | ⟨_, name, countTag, delimiterTag, sequence, groups⟩ :: gs =>
    ⟨name, countTag, delimiterTag, sequence, layouts groups⟩ :: layouts gs

theorem layouts_ofLayouts (parent : String) (taken : List String) (gs : List GroupLayout) :
    layouts (ofLayouts parent taken gs).1 = gs := by
  induction gs using GroupLayout.forest_induction generalizing parent taken with
  | nil => simp [ofLayouts, layouts]
  | cons g gs nested others =>
    cases g
    simp [ofLayouts_cons, layouts, nested, others]

/-- In a forest each group but the outer ones has one parent. -/
theorem references_perm_all (gs : List GroupListing) :
    (gs.map (·.identifier) ++ (all gs).flatMap fun g => g.groups.map (·.identifier)).Perm
      ((all gs).map (·.identifier)) := by
  induction gs using forest_induction with
  | nil => simp [all]
  | cons g gs nested others =>
    rw [all_cons, List.flatMap_append, List.flatMap_cons, List.map_append, List.map_cons,
      List.map_cons]
    -- The groups of `g` and their references trade places; only the counts matter.
    refine List.perm_iff_count.mpr fun i => ?_
    have inner := nested.count_eq i
    have outer := others.count_eq i
    simp only [List.count_append, List.count_cons] at inner outer ⊢
    omega

end GroupListing

theorem Listing.declareGroups_layouts (withGroups : Bool) (taken : List String)
    (ps : List (String × MessageLayout)) :
    (declareGroups withGroups taken ps).map
        (fun m => (m.name, m.msgType, GroupListing.layouts m.groups)) =
      ps.map fun p => (p.2.name, p.2.msgType, if withGroups then p.2.groups else []) := by
  induction ps generalizing taken with
  | nil => rfl
  | cons p ps ih =>
    rw [declareGroups, List.map_cons, List.map_cons, ih]
    cases withGroups with
    | false => simp [GroupListing.layouts]
    | true => simp [GroupListing.layouts_ofLayouts]

/-- What is declared in source text: under which identifier, of which type, and which identifiers
its list of messages or of groups refers to. -/
structure Static where
  identifier : String
  type : String
  references : List String

def Item.static : Item → Static
  | .group g => ⟨g.identifier, "GroupSpec", g.groups.map (·.identifier)⟩
  | .message m => ⟨m.identifier, "MsgSpec", m.groups.map (·.identifier)⟩

namespace SourceLine

/-- What lines declare, after the references that stand before the first declaration. -/
def collect : List SourceLine → List String × List Static
  | [] => ([], [])
  | record identifier type :: lines =>
    let (references, statics) := collect lines
    ([], ⟨identifier, type, references⟩ :: statics)
  | table identifier _ :: lines =>
    let (references, statics) := collect lines
    ([], ⟨identifier, "TagSpec", references⟩ :: statics)
  | reference identifier :: lines =>
    let (references, statics) := collect lines
    (identifier :: references, statics)
  | _ :: lines => collect lines

def statics (lines : List SourceLine) : List Static := (collect lines).2

end SourceLine

namespace Listing

/-- A message or a group at any depth is referred to once: a message by the version, a group by the
message or the group that it stands in. -/
theorem references_perm_items (l : Listing) :
    (l.messages.map (·.identifier) ++ l.items.flatMap (·.static.references)).Perm
      (l.items.map (·.static.identifier)) := by
  rw [items, itemsOf]
  induction l.messages with
  | nil => simp
  | cons m ms ih =>
    have groups := GroupListing.references_perm_all m.groups
    refine List.perm_iff_count.mpr fun i => ?_
    have inner := groups.count_eq i
    have outer := ih.count_eq i
    simp only [List.flatMap_cons, List.flatMap_append, List.flatMap_map, List.map_append,
      List.map_map, List.map_cons, List.map_nil, List.flatMap_nil, Item.static, List.count_append,
      List.count_cons, List.count_nil, Function.comp_def] at inner outer ⊢
    omega

theorem WellNamed.items {l : Listing} (h : l.WellNamed) :
    ∀ item ∈ l.items, IsIdentifier item.static.identifier := by
  intro item hi
  obtain ⟨m, hm, hi⟩ := List.mem_flatMap.mp hi
  obtain inGroups | own := List.mem_append.mp hi
  · obtain ⟨g, hg, rfl⟩ := List.mem_map.mp inGroups
    exact h.groups m hm g hg
  · obtain rfl := List.mem_singleton.mp own
    exact h.messages m hm

end Listing

namespace Spec

theorem listing_layouts (s : Spec) (withGroups : Bool) :
    (s.listing withGroups).messages.map
        (fun m => (m.name, m.msgType, GroupListing.layouts m.groups)) =
      s.layouts.map fun l => (l.name, l.msgType, if withGroups then l.groups else []) := by
  have layouts := Listing.declareMessages_layouts s.version.symbol
    (declareIdentifier [s.version.symbol] s!"{s.version.symbol}_TAGS").2 s.layouts
  conv_rhs => rw [← layouts]
  rw [List.map_map]
  exact Listing.declareGroups_layouts withGroups _ _

end Spec

end FixTables
