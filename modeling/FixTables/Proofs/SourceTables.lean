import FixTables.Proofs.DeclarationLinks
import FixTables.Proofs.MessageLookup
import FixTables.Proofs.Unfolding

namespace FixTables

namespace GroupLayout

variable {bound : Nat} {owner : String}

theorem ofMembers_append_eq_ok {ms ns : List Resolved} {gs : List GroupLayout}
    (h : (ofMembers bound owner (ms ++ ns)).outcome = .ok gs) :
    ∃ first second, (ofMembers bound owner ms).outcome = .ok first ∧
      (ofMembers bound owner ns).outcome = .ok second ∧ gs = first ++ second := by
  induction ms generalizing gs with
  | nil =>
    rw [ofMembers]
    exact ⟨[], gs, rfl, h, rfl⟩
  | cons m ms ih =>
    rw [List.cons_append, ofMembers] at h
    rw [ofMembers]
    cases hm : ofMember? bound owner m with
    | none =>
      rw [hm] at h
      exact ih h
    | some layout =>
      simp only [hm, Traced.bind_eq_ok_iff, Traced.pure_outcome, Except.ok.injEq] at h ⊢
      obtain ⟨g, hg, others, ho, rfl⟩ := h
      obtain ⟨first, second, hf, hs, rfl⟩ := ih ho
      exact ⟨g :: first, second, ⟨g, hg, first, hf, rfl⟩, hs, rfl⟩

theorem ofMembers_group_eq_ok {countTag : Nat} {name : String} {required : Bool}
    {entry ms : List Resolved} {gs : List GroupLayout}
    (h : (ofMembers bound owner (.group countTag name required entry :: ms)).outcome = .ok gs) :
    ∃ g others, g.name = name ∧ (ofMembers bound owner entry).outcome = .ok g.groups ∧
      (ofMembers bound owner ms).outcome = .ok others ∧ gs = g :: others := by
  rw [ofMembers, ofMember?] at h
  simp only [Traced.bind_eq_ok_iff, Traced.ofExcept_outcome, Traced.pure_outcome,
    Except.ok.injEq] at h
  obtain ⟨g, ⟨delimiterTag, _, sequence, _, groups, hg, rfl⟩, others, ho, rfl⟩ := h
  exact ⟨_, others, rfl, hg, ho, rfl⟩

/-- The groups that members unfold to bear the names of fields. -/
theorem names_of_unfolds {r : Resolver} {refs ms : List Member} {out : List Resolved}
    {gs : List GroupLayout} (unfolds : r.Unfolds refs ms out)
    (h : (ofMembers bound owner out).outcome = .ok gs) :
    ∀ g ∈ all gs, ∃ f ∈ r.fields.fields, f.name = g.name := by
  induction unfolds generalizing gs with
  | nil =>
    rw [ofMembers] at h
    obtain rfl := Except.ok.inj h
    simp [all]
  | field _ _ _ ih | unknown _ _ _ ih =>
    rw [ofMembers, ofMember_eq_none_iff.mpr rfl] at h
    exact ih h
  | group _ hf _ _ inner ih =>
    obtain ⟨g, others, name, entry, rest, rfl⟩ := ofMembers_group_eq_ok h
    rw [all_cons]
    intro x hx
    obtain hx | hx := List.mem_append.mp hx
    · exact inner entry x hx
    · obtain rfl | hx := List.mem_cons.mp hx
      · exact ⟨_, List.mem_of_find?_eq_some hf, name.symm⟩
      · exact ih rest x hx
  | component _ _ _ _ inner ih =>
    obtain ⟨first, second, hf, hs, rfl⟩ := ofMembers_append_eq_ok h
    rw [all_append]
    intro x hx
    exact (List.mem_append.mp hx).elim (inner hf x) (ih hs x)

end GroupLayout

namespace Version

theorem oneLine_family (v : Version) : OneLine v.family := by
  unfold family
  split <;> decide

theorem oneLine_servicePackMark (v : Version) {gap : String} (h : OneLine gap) :
    OneLine (v.servicePackMark gap) := by
  unfold servicePackMark
  split
  · decide
  · show OneLine (gap ++ "SP" ++ v.servicePack.repr)
    simpa [h] using (by decide : OneLine "SP")

theorem isIdentifier_symbol (v : Version) : IsIdentifier v.symbol := by
  have family : IsIdentifier v.family := by
    unfold Version.family
    split
    · exact ⟨'F', ['I', 'X', 'T'], rfl, rfl, by simp [InIdentifiers]⟩
    · exact ⟨'F', ['I', 'X'], rfl, rfl, by simp [InIdentifiers]⟩
  have mark : ∀ c ∈ (v.servicePackMark "").toList, InIdentifiers c := by
    unfold servicePackMark
    split
    · simp
    · show ∀ c ∈ ("" ++ "SP" ++ v.servicePack.repr).toList, InIdentifiers c
      rw [String.toList_append, List.forall_mem_append]
      exact ⟨by simp [InIdentifiers], inIdentifiers_repr _⟩
  have numbers := (family.append (inIdentifiers_repr v.major)).append (inIdentifiers_repr v.minor)
  exact numbers.append mark

theorem oneLine_label (v : Version) : OneLine v.label := by
  show OneLine (v.family ++ " " ++ v.major.repr ++ "." ++ v.minor.repr ++ v.servicePackMark " ")
  have gap : OneLine " " := by decide
  have dot : OneLine "." := by decide
  simpa [v.oneLine_family, gap, dot] using v.oneLine_servicePackMark gap

end Version

theorem MessageLayout.build_groups {m : Message} {members : List Resolved} {bound : Nat}
    {l : MessageLayout} (h : (build m members bound).outcome = .ok l) :
    (GroupLayout.ofMembers bound m.name members).outcome = .ok l.groups := by
  simp only [build, Traced.bind_eq_ok_iff, Traced.pure_outcome] at h
  obtain ⟨_, _, groups, hg, h⟩ := h
  obtain rfl := Except.ok.inj h
  exact hg

/-- The table that a layout gives. -/
def MessageLayout.table (l : MessageLayout) : MessageTable :=
  ⟨l.typeId, l.msgType, l.name, l.sequence, GroupLayout.tables l.groups⟩

namespace Listing

theorem declareGroups_tables (taken : List String) (ps : List (String × MessageLayout)) :
    (declareGroups true taken ps).map (·.table) = ps.map (·.2.table) := by
  induction ps generalizing taken with
  | nil => rfl
  | cons p ps ih =>
    have table (taken : List String) : MessageListing.table ⟨p.1, p.2.name, p.2.msgType, p.2.typeId,
        p.2.sequence, (GroupListing.ofLayouts p.1 taken p.2.groups).1⟩ = p.2.table := by
      rw [MessageListing.table, MessageLayout.table, GroupListing.tables_ofLayouts]
    rw [declareGroups, List.map_cons, List.map_cons, ih]
    exact congrArg (· :: _) (table taken)

/-- The groups of a declared message are those of its layout. -/
theorem mem_declareGroups {taken : List String} {ps : List (String × MessageLayout)}
    {m : MessageListing} (h : m ∈ declareGroups true taken ps) :
    ∃ p ∈ ps, m.identifier = p.1 ∧ m.name = p.2.name ∧ m.msgType = p.2.msgType ∧
      ∃ taken', m.groups = (GroupListing.ofLayouts p.1 taken' p.2.groups).1 := by
  induction ps generalizing taken with
  | nil => simp [declareGroups] at h
  | cons p ps ih =>
    rw [declareGroups] at h
    obtain rfl | h := List.mem_cons.mp h
    · exact ⟨p, by simp, rfl, rfl, rfl, taken, rfl⟩
    · obtain ⟨q, hq, rest⟩ := ih h
      exact ⟨q, List.mem_cons_of_mem p hq, rest⟩

end Listing

namespace Spec

/-- The tables of a specification. -/
def tables (s : Spec) : VersionTable :=
  { major := s.version.major, minor := s.version.minor, servicePack := s.version.servicePack
    beginString := s.version.beginString
    tags := (s.tagRows ++ [TagRow.sentinel]).toArray
    messages := (s.layouts.map (·.table)).toArray }

theorem listing_table (s : Spec) : (s.listing true).table = s.tables := by
  have messages : (s.listing true).messages.map (·.table) = s.layouts.map (·.table) := by
    have layouts := Listing.declareMessages_layouts s.version.symbol
      (declareIdentifier [s.version.symbol] s!"{s.version.symbol}_TAGS").2 s.layouts
    conv_rhs => rw [← layouts]
    rw [List.map_map]
    exact Listing.declareGroups_tables _ _
  rw [Listing.table, messages]
  rfl

theorem listing_wellNamed (s : Spec) (withGroups : Bool) : (s.listing withGroups).WellNamed := by
  have symbol := s.version.isIdentifier_symbol
  let declared := Listing.declareMessages s.version.symbol
    (declareIdentifier [s.version.symbol] s!"{s.version.symbol}_TAGS").2 s.layouts
  have named : ∀ p ∈ declared.1, IsIdentifier p.1 := Listing.declareMessages_identifiers symbol _ _
  have messages := Listing.declareGroups_identifiers withGroups declared.2 named
  have tags : IsIdentifier (s.version.symbol ++ "_TAGS") := symbol.append (by simp [InIdentifiers])
  exact ⟨symbol, tags.uniqueIdentifier _, fun m hm => (messages m hm).1,
    fun m hm => (messages m hm).2⟩

/-- The names that are written out unquoted each stand in one line. -/
structure OneLineNames (s : Spec) : Prop where
  messages : ∀ m ∈ s.messages.messages, OneLine m.name ∧ OneLine m.msgType
  fields : ∀ f ∈ s.fields.fields, OneLine f.name

instance (s : Spec) : Decidable s.OneLineNames :=
  decidable_of_iff ((∀ m ∈ s.messages.messages, OneLine m.name ∧ OneLine m.msgType) ∧
      ∀ f ∈ s.fields.fields, OneLine f.name)
    ⟨fun h => ⟨h.1, h.2⟩, fun h => ⟨h.messages, h.fields⟩⟩

theorem tagRows_closed (s : Spec) : ∀ r ∈ s.tagRows, ',' ∉ r.lead.toList := by
  intro r hr
  obtain ⟨f, -, rfl⟩ := List.mem_map.mp hr
  exact TagRow.make_lead_closed _ _ _ _

variable {root : Node} {config : CompilerConfig} {s : Spec}

theorem Stages.layout_oneLine (t : Stages root config s) (names : s.OneLineNames) :
    ∀ l ∈ s.layouts, OneLine l.name ∧ OneLine l.msgType ∧
      ∀ g ∈ GroupLayout.all l.groups, OneLine g.name := by
  intro l hl
  obtain ⟨m, hm, resolved, built⟩ := exists_mem_of_forall₂ t.layouts_of_messages.flip hl
  obtain ⟨name, msgType, -⟩ := MessageLayout.build_eq_ok built
  have registered : m ∈ s.messages.messages := s.messages.sortedByType_perm.mem_iff.mp hm
  obtain ⟨oneName, oneType⟩ := names.messages m registered
  refine ⟨name ▸ oneName, msgType ▸ oneType, fun g hg => ?_⟩
  obtain ⟨f, hf, same⟩ := GroupLayout.names_of_unfolds (Resolver.unfolds_of_resolve resolved)
    (MessageLayout.build_groups built) g hg
  exact same ▸ names.fields f hf

theorem Stages.readable (t : Stages root config s) (names : s.OneLineNames) :
    (s.listing true).Readable := by
  have symbol := s.version.isIdentifier_symbol
  let declared := Listing.declareMessages s.version.symbol
    (declareIdentifier [s.version.symbol] s!"{s.version.symbol}_TAGS").2 s.layouts
  have layouts : ∀ p ∈ declared.1, p.2 ∈ s.layouts := by
    intro p hp
    have := List.mem_map_of_mem (f := (·.2)) hp
    rwa [Listing.declareMessages_layouts] at this
  obtain ⟨_, groups⟩ := Listing.declareGroups_declared true declared.2 declared.1
  have identifiers := s.listing_wellNamed true
  refine ⟨⟨s.version.oneLine_label, symbol.oneLine, identifiers.tags.oneLine, ?_, ?_⟩,
    s.tagRows_closed, ?_, listing_identifiers_nodup s true⟩
  · intro m hm
    obtain ⟨p, hp, -, name, msgType, -⟩ := Listing.mem_declareGroups hm
    obtain ⟨oneName, oneType, -⟩ := t.layout_oneLine names p.2 (layouts p hp)
    rw [name, msgType]
    exact ⟨(identifiers.messages m hm).oneLine, oneName, oneType⟩
  · intro m hm g hg
    obtain ⟨p, hp, -, -, -, taken, same⟩ := Listing.mem_declareGroups hm
    obtain ⟨-, -, oneNames⟩ := t.layout_oneLine names p.2 (layouts p hp)
    refine ⟨(identifiers.groups m hm g hg).oneLine, ?_⟩
    rw [same] at hg
    have named := List.mem_map_of_mem (f := (·.name)) hg
    rw [GroupListing.all_ofLayouts_names] at named
    obtain ⟨l, hl, sameName⟩ := List.mem_map.mp named
    exact sameName ▸ oneNames l hl
  · rw [List.map_flatMap]
    exact groups.nodup

/-- Reading the source text of a dictionary gives its tables. -/
theorem readSource_source (h : (compile root config).outcome = .ok s) (names : s.OneLineNames) :
    readSource (s.source .default) = some s.tables := by
  obtain ⟨t⟩ := compile_eq_ok_iff.mp h
  rw [← listing_table]
  exact readSource_sourceLines (t.readable names)

/-- The source text of a dictionary determines its tables: they can be read back from it, so that
dictionaries with the same text have the same tables. -/
theorem source_determines_tables (h : (compile root config).outcome = .ok s)
    (names : s.OneLineNames) :
    readSource (s.source .default) = some s.tables ∧
      ∀ {root' config' s'}, (compile root' config').outcome = .ok s' → s'.OneLineNames →
        s.source .default = s'.source .default →
        s.version.major = s'.version.major ∧ s.version.minor = s'.version.minor ∧
          s.version.servicePack = s'.version.servicePack ∧
          s.version.beginString = s'.version.beginString ∧ s.tagRows = s'.tagRows ∧
          s.layouts.map (·.table) = s'.layouts.map (·.table) := by
  refine ⟨readSource_source h names, ?_⟩
  intro root' config' s' h' names' same
  have tables : s.tables = s'.tables := by
    have read := readSource_source h names
    rw [same, readSource_source h' names'] at read
    exact (Option.some.inj read).symm
  obtain ⟨major, minor, servicePack, beginString, tags, messages⟩ := VersionTable.mk.inj tables
  refine ⟨major, minor, servicePack, beginString, ?_, ?_⟩
  · exact List.append_cancel_right (congrArg Array.toList tags)
  · exact congrArg Array.toList messages

/-- The text depends on nothing but the version, the rows and the layouts. -/
theorem source_congr {s s' : Spec} (version : s.version = s'.version)
    (rows : s.tagRows = s'.tagRows) (layouts : s.layouts = s'.layouts) (c : EmitterConfig) :
    s.source c = s'.source c := by
  rw [source, source, listing, listing, version, rows, layouts]

/-- A dictionary of one message, whose name needs quoting, with the given members. -/
def legDictionary (components members : List Node) : Node :=
  let named (element name : String) := (Node.leaf element).withAttribute "name" name
  let field (name number type : String) :=
    ((named "field" name).withAttribute "number" number).withAttribute "type" type
  { ((Node.leaf "fix").withAttribute "major" "4").withAttribute "minor" "4" with
    children := [
      { Node.leaf "fields" with
        children := [field "BeginString" "8" "STRING", field "LegFee" "2" "CHAR",
          field "NoLegs" "5" "NUMINGROUP", field "NoFees" "6" "NUMINGROUP",
          field "LegSide" "1" "CHAR", field "CheckSum" "10" "STRING"] },
      { Node.leaf "components" with children := components },
      (Node.leaf "header").append (named "field" "BeginString"),
      (Node.leaf "trailer").append (named "field" "CheckSum"),
      { Node.leaf "messages" with
        children := [{ (named "message" "New \"Legs\"").withAttribute "msgtype" "L" with
          children := members }] }] }

/-- A group with another one nested in it. -/
def legs : Node :=
  let named (element name : String) := (Node.leaf element).withAttribute "name" name
  { named "group" "NoLegs" with
    children := [named "field" "LegSide",
      (named "group" "NoFees").append (named "field" "LegFee")] }

def inlineLegs : Node := legDictionary [] [legs]

def sharedLegs : Node :=
  let shared := (Node.leaf "component").withAttribute "name" "Legs"
  legDictionary [shared.append legs] [shared]

theorem source_determines_tables_of_sharedLegs :
    ∃ s s', (compile inlineLegs .default).outcome = .ok s ∧
      (compile sharedLegs .default).outcome = .ok s' ∧
      s.components.components.length ≠ s'.components.components.length ∧
      s.source .default = s'.source .default ∧
      readSource (s.source .default) = some s.tables ∧
      s.layouts.map (·.table) = s'.layouts.map (·.table) := by
  let facts (s : Spec) := (s.components.components.length, decide s.OneLineNames)
  have inlined : (compile inlineLegs .default).outcome.map facts = .ok (0, true) := by
    cbv
  have shared : (compile sharedLegs .default).outcome.map facts = .ok (1, true) := by
    cbv
  let written (s : Spec) := (s.version, s.tagRows, s.layouts)
  have same : (compile inlineLegs .default).outcome.map written =
      (compile sharedLegs .default).outcome.map written := by
    cbv
  cases hs : (compile inlineLegs .default).outcome with
  | error => simp [hs, Except.map] at inlined
  | ok s =>
    cases hs' : (compile sharedLegs .default).outcome with
    | error => simp [hs', Except.map] at shared
    | ok s' =>
      obtain ⟨none, names⟩ : s.components.components.length = 0 ∧ s.OneLineNames := by
        simpa [hs, Except.map, facts] using inlined
      obtain ⟨one, names'⟩ : s'.components.components.length = 1 ∧ s'.OneLineNames := by
        simpa [hs', Except.map, facts] using shared
      obtain ⟨version, rows, layouts⟩ : s.version = s'.version ∧ s.tagRows = s'.tagRows ∧
          s.layouts = s'.layouts := by
        simpa [hs, hs', Except.map, written] using same
      have text := source_congr version rows layouts .default
      obtain ⟨read, determined⟩ := source_determines_tables hs names
      refine ⟨s, s', rfl, rfl, by omega, text, read, ?_⟩
      exact (determined hs' names' text).2.2.2.2.2

end Spec

end FixTables
