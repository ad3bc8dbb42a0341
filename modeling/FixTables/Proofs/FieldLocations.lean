import FixTables.Proofs.CompiledAlike
import FixTables.Proofs.IncrementalPairing

namespace FixTables

namespace ComponentRegistry

/-- A walk through members names a field if it meets a field or a group of that name. -/
def Names (r : ComponentRegistry) (enters : Member → Prop) (ms : List Member) (name : String) :
    Prop :=
  ∃ m, r.Meets enters ms m ∧ m.kind ≠ .component ∧ m.name = name

variable {r : ComponentRegistry} {enters : Member → Prop} {ms : List Member} {m : Member}
  {name : String}

theorem not_names_nil : ¬ r.Names enters [] name := by
  rintro ⟨m, hm, -⟩
  exact not_meets_nil m hm

theorem names_cons_iff :
    r.Names enters (m :: ms) name ↔ r.Names enters [m] name ∨ r.Names enters ms name := by
  have split (x : Member) : r.Meets enters (m :: ms) x ↔ _ := meets_cons_iff
  simp only [Names, split, or_and_right, exists_or]

/-- What a walk names from one member on. -/
theorem names_singleton_iff :
    r.Names enters [m] name ↔ (m.kind ≠ .component ∧ m.name = name) ∨
      (enters m ∧ r.Names enters m.children name) ∨
        ∃ c, m.kind = .component ∧ r.lookup m.name = some c ∧ r.Names enters c.members name := by
  unfold Names
  constructor
  · rintro ⟨x, hx, kind, named⟩
    rcases meets_singleton_iff.mp hx with rfl | ⟨he, hx⟩ | ⟨c, hk, hc, hx⟩
    · exact .inl ⟨kind, named⟩
    · exact .inr (.inl ⟨he, x, hx, kind, named⟩)
    · exact .inr (.inr ⟨c, hk, hc, x, hx, kind, named⟩)
  · rintro (⟨kind, named⟩ | ⟨he, x, hx, kind, named⟩ | ⟨c, hk, hc, x, hx, kind, named⟩)
    · exact ⟨m, .here (by simp), kind, named⟩
    · exact ⟨x, .nested (by simp) he hx, kind, named⟩
    · exact ⟨x, .through (by simp) hk hc hx, kind, named⟩

end ComponentRegistry

namespace FieldRegistry

/-- The fields of two registries in step: those with a name of one kind have come to a location,
and all others are as they were. -/
def MovesTo (location : Location) (chosen : String → Prop) (r r' : FieldRegistry) : Prop :=
  List.Forall₂ (fun f g => (chosen f.name → g = { f with location }) ∧
    (¬ chosen f.name → g = f)) r.fields r'.fields

variable {components : ComponentRegistry} {location : Location} {path : List String}
  {r r' r'' : FieldRegistry} {ms : List Member} {chosen more : String → Prop}

theorem MovesTo.congr (h : r.MovesTo location chosen r') (same : ∀ name, chosen name ↔ more name) :
    r.MovesTo location more r' := by
  rwa [MovesTo, ← funext fun name => propext (same name)]

theorem movesTo_of_none (none : ∀ name, ¬ chosen name) : r.MovesTo location chosen r := by
  refine List.forall₂_same.mpr fun f _ => ⟨fun h => absurd h (none f.name), fun _ => rfl⟩

/-- Moves to one location add up. -/
theorem MovesTo.trans (h : r.MovesTo location chosen r') (h' : r'.MovesTo location more r'') :
    r.MovesTo location (fun name => chosen name ∨ more name) r'' := by
  refine (forall₂_comp h h').imp ?_
  rintro f k ⟨g, ⟨moved, stays⟩, moved', stays'⟩
  by_cases first : chosen f.name
  · obtain rfl := moved first
    by_cases second : more f.name
    · exact ⟨fun _ => moved' second, fun none => absurd (.inl first) none⟩
    · exact ⟨fun _ => stays' second, fun none => absurd (.inl first) none⟩
  · obtain rfl := stays first
    exact ⟨fun some => moved' (some.resolve_left first), fun none => stays' fun h => none (.inr h)⟩

theorem setLocation_movesTo {name : String} (h : r.setLocation name location = some r') :
    r.MovesTo location (· = name) r' := by
  obtain ⟨-, rfl⟩ := setLocation_eq_some_iff.mp h
  refine List.forall₂_map_right_iff.mpr (List.forall₂_same.mpr fun f _ => ?_)
  exact ⟨fun named => if_pos named, fun other => if_neg other⟩

/-- A location spreads to the fields that the walk names, and changes nothing else. -/
theorem propagate_movesTo (h : r.propagate components location path ms = .ok r') :
    r.MovesTo location (components.Names Member.HoldsOthers ms) r' := by
  induction path, ms using components.walk_induction generalizing r r' with
  | nil path =>
    obtain rfl := propagate_nil_eq_ok_iff.mp h
    exact movesTo_of_none fun _ => ComponentRegistry.not_names_nil
  | cons path m ms nested through rest =>
    obtain ⟨between, hm, hms⟩ := propagate_cons_eq_ok_iff.mp h
    -- The walk from one member comes first; what the others name is moved on top of that.
    suffices r.MovesTo location (components.Names Member.HoldsOthers [m]) between from
      (this.trans (rest hms)).congr fun _ => ComponentRegistry.names_cons_iff.symm
    by_cases holds : m.HoldsOthers
    · obtain ⟨placed, hp, hc⟩ := (propagateMember_of_holdsOthers_eq_ok_iff holds).mp hm
      refine ((setLocation_movesTo hp).trans (nested hc)).congr fun name => ?_
      rw [ComponentRegistry.names_singleton_iff]
      unfold Member.HoldsOthers at holds
      simp [holds, Member.HoldsOthers, eq_comm]
    · have refers : m.kind = .component := not_not.mp holds
      obtain ⟨c, hc, fresh, hin⟩ := (propagateMember_of_component_eq_ok_iff refers).mp hm
      refine (through c hc fresh hin).congr fun name => ?_
      rw [ComponentRegistry.names_singleton_iff]
      simp [refers, hc, Member.HoldsOthers]

/-- Every field starts in the body. -/
theorem ofSection_body {n : Node} (h : (ofSection n).outcome = .ok r) :
    ∀ f ∈ r.fields, f.location = .body := by
  obtain ⟨fs, read, -, -, paired⟩ := ofSection_eq_ok_iff.mp h
  obtain rfl := Except.ok.inj paired
  rw [foldl_relate_fields, List.forall_mem_map]
  intro f hf
  rw [Field.foldl_relatedBy_eq]
  obtain ⟨n, -, hn⟩ := exists_mem_of_forall₂ (except_mapM_eq_ok_iff.mp read).flip hf
  simp only [Field.ofNode, except_bind_eq_ok_iff] at hn
  obtain ⟨_, _, _, _, _, _, _, _, hn⟩ := hn
  obtain rfl := Except.ok.inj hn
  rfl

end FieldRegistry

namespace Spec

/-- A field is located by the walks through the trailer and the header: in the trailer if that names
it, else in the header if that does, and in the body if neither does. -/
structure Locates (s : Spec) (f : Field) : Prop where
  trailer : s.components.Names Member.HoldsOthers s.trailer.children f.name →
    f.location = .trailer
  header : ¬ s.components.Names Member.HoldsOthers s.trailer.children f.name →
    s.components.Names Member.HoldsOthers s.header.children f.name → f.location = .header
  body : ¬ s.components.Names Member.HoldsOthers s.trailer.children f.name →
    ¬ s.components.Names Member.HoldsOthers s.header.children f.name → f.location = .body

variable {root : Node} {config : CompilerConfig} {s : Spec}

theorem Stages.locates (t : Stages root config s) :
    List.Forall₂ (fun f g => s.Locates g ∧ g = { f with location := g.location })
      t.declared.fields s.fields.fields := by
  have header := FieldRegistry.propagate_movesTo t.header_placed
  have trailer := FieldRegistry.propagate_movesTo t.trailer_placed
  have body := FieldRegistry.ofSection_body t.fields_declared
  rw [← t.header_children] at header
  rw [← t.trailer_children] at trailer
  refine ((List.forall₂_and_left _ _).mpr ⟨body, forall₂_comp header trailer⟩).imp ?_
  rintro f k ⟨inBody, g, ⟨moved, stays⟩, moved', stays'⟩
  by_cases named : s.components.Names Member.HoldsOthers s.header.children f.name
  · obtain rfl := moved named
    by_cases last : s.components.Names Member.HoldsOthers s.trailer.children f.name
    · obtain rfl := moved' last
      exact ⟨⟨fun _ => rfl, fun other => absurd last other, fun other => absurd last other⟩, rfl⟩
    · obtain rfl := stays' last
      exact ⟨⟨fun h => absurd h last, fun _ _ => rfl, fun _ other => absurd named other⟩, rfl⟩
  · obtain rfl := stays named
    by_cases last : s.components.Names Member.HoldsOthers s.trailer.children g.name
    · obtain rfl := moved' last
      exact ⟨⟨fun _ => rfl, fun other => absurd last other, fun other => absurd last other⟩, rfl⟩
    · obtain rfl := stays' last
      exact ⟨⟨fun h => absurd h last, fun _ h => absurd h named, fun _ _ => inBody⟩, rfl⟩

/-- Compiling puts every field where the trailer, or else the header, leads to it, and changes
nothing else in what the section of fields declares. -/
theorem compile_locates (h : (compile root config).outcome = .ok s) :
    (∀ f ∈ s.fields.fields, s.Locates f) ∧
      ∃ n declared, root.find? "fields" = some n ∧
        (FieldRegistry.ofSection n).outcome = .ok declared ∧
        List.Forall₂ (fun f g => g = { f with location := g.location })
          declared.fields s.fields.fields := by
  obtain ⟨t⟩ := compile_eq_ok_iff.mp h
  refine ⟨fun g hg => ?_, t.sections.fields, t.declared, ?_, t.fields_declared, ?_⟩
  · obtain ⟨_, _, locates, _⟩ := exists_mem_of_forall₂ t.locates.flip hg
    exact locates
  · exact (Sections.ofRoot_eq_ok_iff.mp t.sections_found).fields
  · exact t.locates.imp fun _ _ h => h.2

/-- A dictionary whose header and trailer share a component, and whose header leads to a group
through another and to a field inside a field. -/
def sealedHops : Node :=
  let named (element name : String) := (Node.leaf element).withAttribute "name" name
  { ((Node.leaf "fix").withAttribute "major" "4").withAttribute "minor" "4" with
    children := [
      { Node.leaf "fields" with
        children := [FieldRegistry.fieldNode "8" "BeginString" "STRING",
          FieldRegistry.fieldNode "627" "NoHops" "NUMINGROUP",
          FieldRegistry.fieldNode "628" "HopCompID" "STRING",
          FieldRegistry.fieldNode "629" "HopSendingTime" "UTCTIMESTAMP",
          FieldRegistry.fieldNode "93" "SignatureLength" "LENGTH",
          FieldRegistry.fieldNode "89" "Signature" "DATA",
          FieldRegistry.fieldNode "10" "CheckSum" "STRING",
          FieldRegistry.fieldNode "58" "Text" "STRING"] },
      { Node.leaf "components" with
        children := [(named "component" "Hops").append
            ((named "group" "NoHops").append (named "field" "HopCompID")),
          (named "component" "Seal").append (named "field" "Signature")] },
      { Node.leaf "header" with
        children := [(named "field" "BeginString").append (named "field" "HopSendingTime"),
          named "component" "Hops", named "component" "Seal"] },
      { Node.leaf "trailer" with children := [named "component" "Seal", named "field" "CheckSum"] },
      (Node.leaf "messages").append { (named "message" "News").withAttribute "msgtype" "B" with
        children := [named "field" "Text", named "component" "Hops"] }] }

set_option maxRecDepth 2000 in
theorem compile_locates_of_sealedHops :
    ∃ s, (compile sealedHops .default).outcome = .ok s ∧
      ((∀ f ∈ s.fields.fields, s.Locates f) ∧
        ∃ n declared, sealedHops.find? "fields" = some n ∧
          (FieldRegistry.ofSection n).outcome = .ok declared ∧
          List.Forall₂ (fun f g => g = { f with location := g.location })
            declared.fields s.fields.fields) ∧
      s.fields.fields.map (fun f => (f.tag, f.location, f.related)) =
        [(8, .header, 0), (627, .header, 0), (628, .header, 0), (629, .header, 0),
          (93, .body, 89), (89, .trailer, 93), (10, .trailer, 0), (58, .body, 0)] := by
  have compiled : (compile sealedHops .default).outcome.map (fun s =>
      s.fields.fields.map fun f => (f.tag, f.location, f.related)) =
        .ok [(8, .header, 0), (627, .header, 0), (628, .header, 0), (629, .header, 0),
          (93, .body, 89), (89, .trailer, 93), (10, .trailer, 0), (58, .body, 0)] := by
    cbv
  cases hs : (compile sealedHops .default).outcome with
  | error => simp [hs, Except.map] at compiled
  | ok s =>
    rw [hs] at compiled
    exact ⟨s, rfl, compile_locates hs, Except.ok.inj compiled⟩

end Spec

end FixTables
