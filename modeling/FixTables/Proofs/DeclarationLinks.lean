import FixTables.Proofs.OrderedSearch
import FixTables.Proofs.SourceParagraphs

namespace FixTables

/-- The tables that declarations read so far give, under their identifiers, the latest first. -/
structure Scope where
  groups : List (String × GroupTable)
  messages : List (String × MessageTable)

namespace Scope

/-- The tables that identifiers refer to. -/
def follow (declared : List (String × α)) (identifiers : List String) : Option (List α) :=
  identifiers.mapM fun i => (declared.find? fun d => decide (d.1 = i)).map (·.2)

/-- Takes in a declaration, whose groups must have been declared before. -/
def declare (scope : Scope) : Declaration → Option Scope
  | .group identifier countTag delimiterTag sequence groups => do
    let groups ← follow scope.groups groups
    return { scope with
      groups := (identifier, ⟨countTag, delimiterTag, sequence, groups⟩) :: scope.groups }
  | .message identifier typeId msgType name sequence groups => do
    let groups ← follow scope.groups groups
    return { scope with
      messages := (identifier, ⟨typeId, msgType, name, sequence, groups⟩) :: scope.messages }

/-- References to what is declared under distinct identifiers lead where they should. -/
theorem follow_map {declared : List (String × β)} {key : α → String} {value : α → β} {xs : List α}
    (distinct : (declared.map (·.1)).Nodup) (known : ∀ x ∈ xs, (key x, value x) ∈ declared) :
    follow declared (xs.map key) = some (xs.map value) := by
  refine mapM_map_eq_some fun x hx => ?_
  rw [(find?_key_eq_some_iff distinct).mpr ⟨known x hx, rfl⟩]
  rfl

/-- What a group's declaration enters. -/
def groupEntry (g : GroupListing) : String × GroupTable := (g.identifier, g.table)

def messageEntry (m : MessageListing) : String × MessageTable := (m.identifier, m.table)

theorem declare_group {scope : Scope} {g : GroupListing}
    (distinct : (scope.groups.map (·.1)).Nodup)
    (known : ∀ c ∈ g.groups, groupEntry c ∈ scope.groups) :
    scope.declare (Item.group g).declaration =
      some { scope with groups := groupEntry g :: scope.groups } := by
  have table : g.table = ⟨g.countTag, g.delimiterTag, g.sequence, g.groups.map (·.table)⟩ := by
    cases g
    rw [GroupListing.table, GroupListing.tables_eq_map]
  simp [Item.declaration, declare, follow_map distinct known, groupEntry, table]

theorem declare_message {scope : Scope} {m : MessageListing}
    (distinct : (scope.groups.map (·.1)).Nodup)
    (known : ∀ c ∈ m.groups, groupEntry c ∈ scope.groups) :
    scope.declare (Item.message m).declaration =
      some { scope with messages := messageEntry m :: scope.messages } := by
  simp [Item.declaration, declare, follow_map distinct known, messageEntry, MessageListing.table,
    GroupListing.tables_eq_map]

/-- The scope after the declarations of groups. -/
def enter (scope : Scope) (gs : List GroupListing) : Scope :=
  { scope with groups := (gs.map groupEntry).reverse ++ scope.groups }

/-- Groups can be declared without a clash of identifiers. -/
def Admits (scope : Scope) (gs : List GroupListing) : Prop :=
  (gs.map (·.identifier) ++ scope.groups.map (·.1)).Nodup

variable {scope : Scope} {gs hs : List GroupListing}

theorem enter_append : scope.enter (gs ++ hs) = (scope.enter gs).enter hs := by
  simp [enter]

theorem groupEntry_mem_enter_all {g : GroupListing} (h : g ∈ gs) :
    groupEntry g ∈ (scope.enter (GroupListing.all gs)).groups := by
  have entered : g ∈ GroupListing.all gs := GroupListing.subset_all gs h
  exact List.mem_append_left _ (List.mem_reverse.mpr (List.mem_map_of_mem entered))

theorem enter_identifiers_perm (scope : Scope) (gs : List GroupListing) :
    ((scope.enter gs).groups.map (·.1)).Perm (gs.map (·.identifier) ++ scope.groups.map (·.1)) := by
  rw [enter, List.map_append, List.map_reverse, List.map_map]
  exact (List.reverse_perm _).append_right _

theorem Admits.distinct (h : scope.Admits gs) : (scope.groups.map (·.1)).Nodup :=
  h.sublist (List.sublist_append_right _ _)

theorem Admits.left (h : scope.Admits (gs ++ hs)) : scope.Admits gs := by
  unfold Admits at h ⊢
  rw [List.map_append, List.append_assoc] at h
  exact h.sublist ((List.sublist_append_right _ _).append_left _)

theorem Admits.right (h : scope.Admits (gs ++ hs)) : (scope.enter gs).Admits hs := by
  unfold Admits at h ⊢
  have reorder := (enter_identifiers_perm scope gs).append_left (hs.map (·.identifier))
  rw [reorder.nodup_iff]
  refine (List.Perm.nodup_iff ?_).mp h
  rw [List.map_append, ← List.append_assoc]
  exact List.perm_append_comm.append_right _

/-- Declaring a forest of groups enters all of them, each after those nested in it. -/
theorem declare_groups (scope : Scope) (gs : List GroupListing)
    (admits : scope.Admits (GroupListing.all gs)) :
    ((GroupListing.all gs).map fun g => (Item.group g).declaration).foldlM declare scope =
      some (scope.enter (GroupListing.all gs)) := by
  induction gs using GroupListing.forest_induction generalizing scope with
  | nil => simp [GroupListing.all, enter]
  | cons g gs nested others =>
    rw [GroupListing.all_cons, ← List.singleton_append] at admits ⊢
    rw [List.map_append, List.map_append, List.foldlM_append, nested scope admits.left,
      enter_append, enter_append]
    -- All that `g` refers to has been declared by now.
    have declared := declare_group admits.right.distinct fun _ => groupEntry_mem_enter_all
    simp only [Option.bind_eq_bind, Option.bind_some, List.map_singleton, List.singleton_append,
      List.foldlM_cons, declared]
    exact others _ admits.right.right

/-- Declaring messages with all their groups enters the messages, in order. -/
theorem declare_messages (scope : Scope) (ms : List MessageListing)
    (admits : scope.Admits (ms.flatMap fun m => GroupListing.all m.groups)) :
    ∃ groups, ((itemsOf ms).map (·.declaration)).foldlM declare scope =
      some ⟨groups, (ms.map messageEntry).reverse ++ scope.messages⟩ := by
  induction ms generalizing scope with
  | nil => exact ⟨scope.groups, rfl⟩
  | cons m ms ih =>
    rw [List.flatMap_cons] at admits
    have declared := declare_message admits.right.distinct fun _ => groupEntry_mem_enter_all
    obtain ⟨groups, others⟩ := ih { scope.enter (GroupListing.all m.groups) with
      messages := messageEntry m :: scope.messages } admits.right
    refine ⟨groups, ?_⟩
    have split : (itemsOf (m :: ms)).map (·.declaration) =
        (GroupListing.all m.groups).map (fun g => (Item.group g).declaration) ++
          (Item.message m).declaration :: (itemsOf ms).map (·.declaration) := by
      simp [itemsOf]
    rw [split, List.foldlM_append, declare_groups scope _ admits.left]
    simp only [Option.bind_eq_bind, Option.bind_some, List.foldlM_cons, declared]
    simpa [enter] using others

end Scope

/-- Reads the tables back from source text that declares them. -/
def readSource (text : String) : Option VersionTable :=
  match parts "" (pieces '\n' text) with
  | _ :: _ :: version :: tags :: declarations => do
    let head ← VersionHead.read version
    let rows ← ((tags.drop 2).dropLast).mapM TagRow.readLine
    let declarations ← declarations.mapM Declaration.read
    let scope ← declarations.foldlM Scope.declare ⟨[], []⟩
    let messages ← Scope.follow scope.messages head.messages
    return {
      major := head.major
      minor := head.minor
      servicePack := head.servicePack
      beginString := head.beginString
      tags := rows.toArray
      messages := messages.toArray }
  | _ => none

/-- What is written stands in lines, no row holds a comma of its own, and neither two groups nor two
messages have one identifier. -/
structure Listing.Readable (l : Listing) : Prop where
  inLines : l.InLines
  leads : ∀ r ∈ l.rows, ',' ∉ r.lead.toList
  groups : ((l.messages.flatMap fun m => GroupListing.all m.groups).map (·.identifier)).Nodup
  messages : (l.messages.map (·.identifier)).Nodup

theorem readSource_sourceLines {l : Listing} (h : l.Readable) :
    readSource (String.join ((l.sourceLines .default).map (· ++ "\n"))) = some l.table := by
  have tags : ((l.tagLines.drop 2).dropLast).mapM TagRow.readLine =
      some (l.rows ++ [TagRow.sentinel]) := by
    have lines : (l.tagLines.drop 2).dropLast =
        l.rows.map (·.sourceLine) ++ ["    TagSpec::SENTINEL,"] := by
      simp [Listing.tagLines, List.dropLast_append_of_ne_nil]
    have rows : (l.rows.map (·.sourceLine)).mapM TagRow.readLine = some (l.rows.map id) :=
      mapM_map_eq_some fun r hr => TagRow.readLine_sourceLine (h.leads r hr)
    rw [lines, List.mapM_append, rows]
    simp [TagRow.readLine_sentinel]
  have declarations : (l.items.map (·.lines l.symbol)).mapM Declaration.read =
      some (l.items.map (·.declaration)) :=
    mapM_map_eq_some fun item _ => item.read_lines l.symbol
  obtain ⟨groups, linked⟩ := Scope.declare_messages ⟨[], []⟩ l.messages
    (by simpa [Scope.Admits] using h.groups)
  have distinct : (((l.messages.map Scope.messageEntry).reverse).map (·.1)).Nodup := by
    rw [List.map_reverse, List.nodup_reverse, List.map_map]
    exact h.messages
  have messages : Scope.follow (l.messages.map Scope.messageEntry).reverse
      (l.messages.map (·.identifier)) = some (l.messages.map (·.table)) :=
    Scope.follow_map distinct fun m hm => List.mem_reverse.mpr (List.mem_map_of_mem hm)
  rw [readSource, Listing.parts_pieces_source h.inLines]
  simp only [Listing.paragraphs, Listing.preambleParagraphs, List.cons_append, List.nil_append,
    VersionHead.read_lines, tags, declarations, Option.bind_eq_bind, Option.bind_some]
  rw [Listing.items, linked]
  simp only [Option.bind_some, List.append_nil, messages]
  rfl

end FixTables
