import FixTables.Proofs.ValidDictionary

namespace FixTables

namespace Resolved

/-- The largest tag in lists of members, 0 without one. -/
def maxTagIn (lists : List (List Resolved)) : Nat :=
  lists.foldl (fun max members => Nat.max max (maxTag members)) 0

end Resolved

/-- What the declarations of a dictionary hold, before any name is looked up. -/
structure Declarations where
  version : Version
  header : List Member
  trailer : List Member
  fields : FieldRegistry
  components : ComponentRegistry
  messages : MessageRegistry

namespace Declarations

/-- The declarations under a root element, read from its sections. -/
structure ReadFrom (d : Declarations) (root : Node) (sections : Spec.Sections) : Prop where
  version_read : Version.ofNode root = .ok d.version
  sections_found : sections.FoundIn root
  header_eq : d.header = Member.childrenOf sections.header
  trailer_eq : d.trailer = Member.childrenOf sections.trailer
  fields_declared : (FieldRegistry.ofSection sections.fields).outcome = .ok d.fields
  components_declared : (Spec.componentsOf root).outcome = .ok d.components
  messages_declared :
    (MessageRegistry.ofSection d.header d.trailer sections.messages).outcome = .ok d.messages

/-- A dictionary that declarations are linked to: locations have spread from the header and the
trailer, components unfold, and each message has the layout of what it unfolds to. -/
structure LinkTo (d : Declarations) (config : CompilerConfig) (s : Spec) : Prop where
  version_eq : s.version = d.version
  components_eq : s.components = d.components
  messages_eq : s.messages = d.messages
  header_eq : s.header = .root "header" d.header
  trailer_eq : s.trailer = .root "trailer" d.trailer
  placed : ∃ placed, d.fields.propagate d.components .header [] d.header = .ok placed ∧
    placed.propagate d.components .trailer [] d.trailer = .ok s.fields
  components_unfold : ∀ c ∈ d.components.components,
    ∃ out, Resolver.Unfolds ⟨s.fields, d.components, config.strict⟩ [] c.members out
  layouts_built : List.Forall₂ (fun m l =>
    Resolver.Unfolds ⟨s.fields, d.components, config.strict⟩ [] m.members l.members ∧
      (MessageLayout.build m l.members s.tagBound).outcome = .ok l)
    d.messages.sortedByType s.layouts
  bound_eq : s.tagBound =
    min (config.wantedTagBound (Resolved.maxTagIn (s.layouts.map (·.members))))
      CompilerConfig.maxTagBound

theorem LinkTo.fields_keys {d : Declarations} {config : CompilerConfig} {s : Spec}
    (link : d.LinkTo config s) : s.fields.keys = d.fields.keys := by
  obtain ⟨placed, hh, ht⟩ := link.placed
  exact (FieldRegistry.propagate_keys ht).trans (FieldRegistry.propagate_keys hh)

end Declarations

namespace Spec

variable {root : Node} {config : CompilerConfig} {s : Spec}

theorem maxUsedTag_eq (resolved : List (Message × List Resolved)) :
    maxUsedTag resolved = Resolved.maxTagIn (resolved.map (·.2)) := by
  rw [Resolved.maxTagIn, List.foldl_map]
  rfl

namespace Stages

theorem layout_members (t : Stages root config s) :
    t.resolved.map (·.2) = s.layouts.map (·.members) :=
  map_eq_of_forall₂ (Traced.mapM_eq_ok_iff.mp t.layouts_built) fun _ _ h =>
    (MessageLayout.build_eq_ok h).2.2.2.1.symm

theorem declarations (t : Stages root config s) :
    ∃ d : Declarations, d.ReadFrom root t.sections ∧ d.LinkTo config s := by
  refine ⟨⟨s.version, Member.childrenOf t.sections.header, Member.childrenOf t.sections.trailer,
    t.declared, s.components, s.messages⟩, ?_, ?_⟩
  · exact ⟨t.version_read, Sections.ofRoot_eq_ok_iff.mp t.sections_found, rfl, rfl,
      t.fields_declared, t.components_declared, t.messages_declared⟩
  · refine ⟨rfl, rfl, rfl, t.header_eq, t.trailer_eq, ⟨t.placed, t.header_placed,
      t.trailer_placed⟩, ?_, ?_, ?_⟩
    · intro c hc
      obtain ⟨out, h⟩ := Resolver.checkComponents_succeeds_iff.mp t.components_checked c hc
      exact ⟨out, Resolver.unfolds_of_resolve h⟩
    · exact t.layouts_of_messages.imp fun m l h => ⟨Resolver.unfolds_of_resolve h.1, h.2⟩
    · rw [t.bound_resolved, maxUsedTag_eq, t.layout_members]

end Stages

theorem resolveMessages_eq_ok {r : Resolver} {ms : List Message} {ls : List MessageLayout}
    (h : List.Forall₂ (fun m l => r.Unfolds [] m.members l.members) ms ls) :
    (resolveMessages r ms).outcome = .ok (ms.zip (ls.map (·.members))) := by
  apply Traced.mapM_eq_ok_iff.mpr
  induction h with
  | nil => exact .nil
  | cons unfolds _ ih =>
    refine .cons ?_ ih
    exact Traced.bind_eq_ok_iff.mpr ⟨_, unfolds.resolve_eq_ok _, rfl⟩

theorem buildLayouts_eq_ok {bound : Nat} {ms : List Message} {ls : List MessageLayout}
    (h : List.Forall₂ (fun m l => (MessageLayout.build m l.members bound).outcome = .ok l) ms ls) :
    ((ms.zip (ls.map (·.members))).mapM fun p => MessageLayout.build p.1 p.2 bound).outcome =
      .ok ls := by
  apply Traced.mapM_eq_ok_iff.mpr
  induction h with
  | nil => exact .nil
  | cons built _ ih => exact .cons built ih

theorem stages_of_declarations {d : Declarations} {sections : Sections}
    (read : d.ReadFrom root sections) (link : d.LinkTo config s) :
    Nonempty (Stages root config s) := by
  obtain ⟨version, found, header, trailer, fields, components, messages⟩ := read
  obtain ⟨version_eq, components_eq, messages_eq, header_eq, trailer_eq, ⟨placed, hh, ht⟩, unfold,
    layouts, bound⟩ := link
  have lengths := layouts.length_eq
  have members : (d.messages.sortedByType.zip (s.layouts.map (·.members))).map (·.2) =
      s.layouts.map (·.members) := by
    apply List.map_snd_zip
    rw [List.length_map, lengths]
  rw [header, trailer] at messages
  rw [header] at hh header_eq
  rw [trailer] at ht trailer_eq
  rw [← components_eq] at hh ht components unfold layouts
  rw [← messages_eq] at messages layouts
  refine ⟨⟨sections, d.fields, placed, s.messages.sortedByType.zip (s.layouts.map (·.members)),
    version_eq ▸ version, Sections.ofRoot_eq_ok_iff.mpr found, fields, components, header_eq,
    trailer_eq, hh, ht, messages, ?_, resolveMessages_eq_ok (layouts.imp fun _ _ h => h.1), ?_, ?_⟩⟩
  · apply Resolver.checkComponents_succeeds_iff.mpr
    intro c hc
    obtain ⟨out, h⟩ := unfold c hc
    exact ⟨out, h.resolve_eq_ok _⟩
  · rw [maxUsedTag_eq, messages_eq, members, bound]
  · exact buildLayouts_eq_ok (layouts.imp fun _ _ h => h.2)

/-- Compiling is reading declarations and linking them. -/
theorem compile_eq_ok_iff_linkTo :
    (compile root config).outcome = .ok s ↔
      ∃ (d : Declarations) (sections : Sections), d.ReadFrom root sections ∧ d.LinkTo config s := by
  rw [compile_eq_ok_iff]
  constructor
  · rintro ⟨t⟩
    obtain ⟨d, read, link⟩ := t.declarations
    exact ⟨d, t.sections, read, link⟩
  · rintro ⟨d, sections, read, link⟩
    exact stages_of_declarations read link

end Spec

end FixTables
