import FixTables.Proofs.Compilation
import FixTables.Proofs.Declarations
import FixTables.Proofs.PropagationWalk

namespace FixTables

namespace Resolver

/-- What resolution asks of the header, the trailer, the components and the members of each
message. -/
structure Consistent (r : Resolver) (header trailer : List Member)
    (messages : List (List Member)) : Prop where
  header_known : ∀ x, r.components.Meets Member.HoldsOthers header x → r.Known x
  header_acyclic : r.components.AcyclicFrom Member.HoldsOthers header
  trailer_known : ∀ x, r.components.Meets Member.HoldsOthers trailer x → r.Known x
  trailer_acyclic : r.components.AcyclicFrom Member.HoldsOthers trailer
  components_acyclic : ∀ c ∈ r.components.components, ¬ r.components.Cyclic r.Enters c
  components_known : r.strict = true → ∀ c ∈ r.components.components,
    ∀ x, r.components.Meets r.Enters c.members x → r.Known x
  messages_known : r.strict = true → ∀ ms ∈ messages, ∀ x, r.components.Meets r.Enters ms x → r.Known x
  messages_fit : ∀ ms ∈ messages, ∀ out, r.Unfolds [] ms out → Resolved.Fit out

variable {r : Resolver}

theorem checkComponents_succeeds_iff {cs : List Component} :
    (Spec.checkComponents r cs).outcome = .ok () ↔
      ∀ c ∈ cs, ∃ out, (r.resolve c.members s!"component '{c.name}'").outcome = .ok out := by
  induction cs with
  | nil =>
    rw [Spec.checkComponents]
    simp
  | cons c cs ih =>
    rw [Spec.checkComponents, Traced.bind_eq_ok_iff, List.forall_mem_cons, ← ih]
    exact exists_and_right

/-- All components resolve exactly if none is cyclic and, strictly, all they meet is known. -/
theorem components_resolve_iff :
    (Spec.checkComponents r r.components.components).outcome = .ok () ↔
      (∀ c ∈ r.components.components, ¬ r.components.Cyclic r.Enters c) ∧
        (r.strict = true → ∀ c ∈ r.components.components,
          ∀ x, r.components.Meets r.Enters c.members x → r.Known x) := by
  simp only [checkComponents_succeeds_iff, resolve_succeeds_iff]
  constructor
  · intro h
    exact ⟨fun c hc => ComponentRegistry.not_cyclic_of_acyclicFrom (h c hc).2,
      fun hs c hc x hx => (h c hc).1 x hx hs⟩
  · rintro ⟨acyclic, known⟩ c hc
    exact ⟨fun x hx hs => known hs c hc x hx,
      ComponentRegistry.acyclicFrom_of_forall_not_cyclic acyclic _⟩

/-- Members resolve to what fits into tables exactly if all that they unfold to does. -/
theorem resolve_fits_iff {ms : List Member} (context : String) :
    (∃ out, (r.resolve ms context).outcome = .ok out ∧ Resolved.Fit out) ↔
      r.components.ClearFrom r.Enters r.Takes ms ∧
        ∀ out, r.Unfolds [] ms out → Resolved.Fit out := by
  constructor
  · rintro ⟨out, h, fit⟩
    have unfolds := unfolds_of_resolve h
    refine ⟨unfolds.clear, ?_⟩
    intro out' unfolds'
    rwa [unfolds'.unique unfolds]
  · rintro ⟨clear, fit⟩
    obtain ⟨out, h⟩ := (resolve_succeeds_iff context).mpr clear
    exact ⟨out, h, fit out (unfolds_of_resolve h)⟩

theorem Consistent.resolve_fits {header trailer ms : List Member} {messages : List (List Member)}
    (h : r.Consistent header trailer messages) (hms : ms ∈ messages) (context : String) :
    ∃ out, (r.resolve ms context).outcome = .ok out ∧ Resolved.Fit out := by
  apply (resolve_fits_iff context).mpr
  refine ⟨⟨?_, ?_⟩, h.messages_fit ms hms⟩
  · exact fun x hx hs => h.messages_known hs ms hms x hx
  · exact ComponentRegistry.acyclicFrom_of_forall_not_cyclic h.components_acyclic ms

/-- Only the tags and names of fields matter for consistency. -/
theorem Consistent.of_keys {fields fields' : FieldRegistry} {components : ComponentRegistry}
    {strict : Bool} {header trailer : List Member} {messages : List (List Member)}
    (h : Consistent ⟨fields, components, strict⟩ header trailer messages)
    (hk : fields.keys = fields'.keys) :
    Consistent ⟨fields', components, strict⟩ header trailer messages where
  header_known x hx := (known_congr hk x).mp (h.header_known x hx)
  header_acyclic := h.header_acyclic
  trailer_known x hx := (known_congr hk x).mp (h.trailer_known x hx)
  trailer_acyclic := h.trailer_acyclic
  components_acyclic := by
    rw [← enters_congr hk]
    exact h.components_acyclic
  components_known := by
    intro hs c hc x hx
    rw [← enters_congr hk] at hx
    exact (known_congr hk x).mp (h.components_known hs c hc x hx)
  messages_known := by
    intro hs ms hms x hx
    rw [← enters_congr hk] at hx
    exact (known_congr hk x).mp (h.messages_known hs ms hms x hx)
  messages_fit ms hms out hu := h.messages_fit ms hms out (hu.of_keys hk.symm)

end Resolver

namespace Spec

/-- The declarations that a dictionary is made of can all be read, and no two of them clash. -/
structure WellDeclared (root : Node) (sections : Sections) (fs : List Field) : Prop where
  root_name : root.name = "fix"
  major : Version.GivesPart root "major"
  minor : Version.GivesPart root "minor"
  servicePack : root.attribute? "servicepack" = none ∨ Version.GivesPart root "servicepack"
  found : sections.FoundIn root
  fields_read : List.Forall₂ (fun n f => Field.ofNode n = .ok f)
    (sections.fields.childrenNamed "field") fs
  field_names : (fs.map (·.name)).Nodup
  field_tags : (fs.map (·.tag)).Nodup
  components_named : ∀ n ∈ componentNodes root, n.attributeD "name" ≠ ""
  component_names : ((componentNodes root).map (·.attributeD "name")).Nodup
  messages_declared : ∀ n ∈ sections.messages.childrenNamed "message", Message.Declared n
  message_types : ((sections.messages.childrenNamed "message").map (·.attributeD "msgtype")).Nodup
  message_names : ((sections.messages.childrenNamed "message").map (·.attributeD "name")).Nodup

/-- The members of each message between the header and the trailer that all share. -/
def Sections.messageMembers (sections : Sections) : List (List Member) :=
  (sections.messages.childrenNamed "message").map fun n =>
    Member.childrenOf sections.header ++ Member.childrenOf n ++ Member.childrenOf sections.trailer

/-- A dictionary is valid if its declarations are and, by their names alone, all fits together. -/
def Valid (root : Node) (strict : Bool) : Prop :=
  ∃ sections fs, WellDeclared root sections fs ∧
    Resolver.Consistent ⟨⟨fs⟩, declaredComponents root, strict⟩
      (Member.childrenOf sections.header) (Member.childrenOf sections.trailer)
      sections.messageMembers

variable {root : Node} {config : CompilerConfig} {s : Spec} {sections : Sections} {fs : List Field}

theorem WellDeclared.fields_registered (h : WellDeclared root sections fs) :
    ∃ declared, (FieldRegistry.ofSection sections.fields).outcome = .ok declared ∧
      declared.keys = (FieldRegistry.mk fs).keys := by
  refine ⟨_, FieldRegistry.ofSection_eq_ok_iff.mpr ⟨fs, ?_, ?_, ?_, rfl⟩,
    FieldRegistry.pairLengths_keys rfl⟩
  · exact except_mapM_eq_ok_iff.mpr h.fields_read
  · exact h.field_names
  · exact h.field_tags

/-- What nodes of messages give, told from the nodes. -/
theorem readMessages_eq {header trailer : List Member} {ns : List Node} {ms : List Message}
    (h : List.Forall₂ (fun n m => Message.ofNode header trailer n = .ok m) ns ms) :
    ns.map (·.attributeD "msgtype") = ms.map (·.msgType) ∧
      ns.map (·.attributeD "name") = ms.map (·.name) ∧
      ns.map (fun n => header ++ Member.childrenOf n ++ trailer) = ms.map (·.members) := by
  refine ⟨?_, ?_, ?_⟩
  · exact map_eq_of_forall₂ h fun _ _ hm => (Message.ofNode_eq_ok hm).2.1.symm
  · exact map_eq_of_forall₂ h fun _ _ hm => (Message.ofNode_eq_ok hm).1.symm
  · exact map_eq_of_forall₂ h fun _ _ hm => (Message.ofNode_eq_ok hm).2.2.symm

theorem WellDeclared.messages_registered (h : WellDeclared root sections fs) :
    ∃ r, (MessageRegistry.ofSection (Member.childrenOf sections.header)
        (Member.childrenOf sections.trailer) sections.messages).outcome = .ok r ∧
      sections.messageMembers = r.messages.map (·.members) := by
  obtain ⟨ms, read⟩ := exists_forall₂_iff.mpr fun n hn =>
    (Message.ofNode_succeeds_iff (Member.childrenOf sections.header)
      (Member.childrenOf sections.trailer) n).mpr (h.messages_declared n hn)
  obtain ⟨types, names, members⟩ := readMessages_eq read
  refine ⟨⟨ms⟩, MessageRegistry.ofSection_eq_ok_iff.mpr ⟨ms, ?_, ?_, ?_, rfl⟩, members⟩
  · exact except_mapM_eq_ok_iff.mpr read
  · rw [← types]
    exact h.message_types
  · rw [← names]
    exact h.message_names

theorem exists_layouts (r : Resolver) (ms : List Message)
    (h : ∀ m ∈ ms, ∃ out, (r.resolve m.members s!"message '{m.name}'").outcome = .ok out ∧
      Resolved.Fit out) :
    ∃ resolved, (resolveMessages r ms).outcome = .ok resolved ∧
      ∀ bound, ∃ layouts,
        (resolved.mapM fun p => MessageLayout.build p.1 p.2 bound).outcome = .ok layouts := by
  obtain ⟨resolved, hr⟩ : ∃ resolved, List.Forall₂ (fun m p =>
      (do return (m, ← r.resolve m.members s!"message '{m.name}'") :
        Traced SchemaError (Message × List Resolved)).outcome = .ok p ∧ Resolved.Fit p.2)
      ms resolved := by
    apply exists_forall₂_iff.mpr
    intro m hm
    obtain ⟨out, ho, fit⟩ := h m hm
    exact ⟨(m, out), Traced.bind_eq_ok_iff.mpr ⟨out, ho, rfl⟩, fit⟩
  refine ⟨resolved, Traced.mapM_eq_ok_iff.mpr (hr.imp fun _ _ h => h.1), ?_⟩
  intro bound
  simp only [Traced.mapM_eq_ok_iff]
  apply exists_forall₂_iff.mpr
  intro p hp
  obtain ⟨_, _, _, fit⟩ := exists_mem_of_forall₂ hr.flip hp
  exact (MessageLayout.build_succeeds_iff p.1 p.2 bound).mpr fit

namespace Stages

theorem placed_keys (t : Stages root config s) : t.placed.keys = t.declared.keys :=
  FieldRegistry.propagate_keys t.header_placed

theorem fields_keys (t : Stages root config s) : s.fields.keys = t.declared.keys :=
  (FieldRegistry.propagate_keys t.trailer_placed).trans t.placed_keys

theorem messages_resolve (t : Stages root config s) {m : Message} (hm : m ∈ s.messages.messages) :
    ∃ out, (t.resolver.resolve m.members s!"message '{m.name}'").outcome = .ok out ∧
      Resolved.Fit out := by
  have sorted : m ∈ s.messages.sortedByType := s.messages.sortedByType_perm.mem_iff.mpr hm
  obtain ⟨l, _, hr, hb⟩ := exists_mem_of_forall₂ t.layouts_of_messages sorted
  exact ⟨l.members, hr, (MessageLayout.build_succeeds_iff m l.members s.tagBound).mp ⟨l, hb⟩⟩

/-- The names in a compiled dictionary fit together. -/
theorem consistent (t : Stages root config s) :
    t.resolver.Consistent (Member.childrenOf t.sections.header)
      (Member.childrenOf t.sections.trailer) (s.messages.messages.map (·.members)) := by
  have header := (FieldRegistry.propagate_succeeds_iff (r := t.resolver) .header
    t.fields_keys.symm).mp ⟨_, t.header_placed⟩
  have trailer := (FieldRegistry.propagate_succeeds_iff (r := t.resolver) .trailer
    (t.placed_keys.trans t.fields_keys.symm)).mp ⟨_, t.trailer_placed⟩
  have components := Resolver.components_resolve_iff.mp t.components_checked
  have messages := fun m hm => (Resolver.resolve_fits_iff _).mp (t.messages_resolve (m := m) hm)
  exact ⟨header.1, header.2, trailer.1, trailer.2, components.1, components.2,
    fun hs => List.forall_mem_map.mpr fun m hm x hx => (messages m hm).1.1 x hx hs,
    List.forall_mem_map.mpr fun m hm => (messages m hm).2⟩

/-- The declarations of a compiled dictionary are as they should be, and all that was compiled keeps
to their names. -/
theorem wellDeclared (t : Stages root config s) :
    ∃ fs, WellDeclared root t.sections fs ∧ s.fields.keys = (FieldRegistry.mk fs).keys ∧
      s.components = declaredComponents root ∧
      t.sections.messageMembers = s.messages.messages.map (·.members) := by
  obtain ⟨root_name, major, minor, servicePack⟩ :=
    Version.ofNode_succeeds_iff.mp ⟨_, t.version_read⟩
  obtain ⟨fs, fields_read, field_names, field_tags, paired⟩ :=
    FieldRegistry.ofSection_eq_ok_iff.mp t.fields_declared
  obtain ⟨named, distinct, components_eq⟩ := componentsOf_eq_ok_iff.mp t.components_declared
  obtain ⟨ms, messages_read, message_types, message_names, messages_eq⟩ :=
    MessageRegistry.ofSection_eq_ok_iff.mp t.messages_declared
  rw [except_mapM_eq_ok_iff] at fields_read messages_read
  obtain ⟨types, names, members⟩ := readMessages_eq messages_read
  have keys : s.fields.keys = (FieldRegistry.mk fs).keys :=
    t.fields_keys.trans (FieldRegistry.pairLengths_keys paired)
  have declared : ∀ n ∈ t.sections.messages.childrenNamed "message", Message.Declared n := by
    intro n hn
    obtain ⟨m, _, hm⟩ := exists_mem_of_forall₂ messages_read hn
    exact (Message.ofNode_succeeds_iff _ _ n).mp ⟨m, hm⟩
  rw [← types] at message_types
  rw [← names] at message_names
  refine ⟨fs, ⟨root_name, major, minor, servicePack, Sections.ofRoot_eq_ok_iff.mp t.sections_found,
    fields_read, field_names, field_tags, named, distinct, declared, message_types,
    message_names⟩, keys, components_eq, ?_⟩
  rw [messages_eq]
  exact members

theorem valid (t : Stages root config s) : Valid root config.strict := by
  obtain ⟨fs, declared, keys, components_eq, members⟩ := t.wellDeclared
  refine ⟨t.sections, fs, declared, ?_⟩
  rw [members, ← components_eq]
  exact t.consistent.of_keys keys

end Stages

theorem Valid.compile_eq_ok (h : Valid root config.strict) :
    ∃ s, (compile root config).outcome = .ok s := by
  obtain ⟨sections, fs, declares, consistent⟩ := h
  obtain ⟨version, hv⟩ := Version.ofNode_succeeds_iff.mpr
    ⟨declares.root_name, declares.major, declares.minor, declares.servicePack⟩
  obtain ⟨declared, hd, declaredKeys⟩ := declares.fields_registered
  obtain ⟨placed, hp⟩ := (FieldRegistry.propagate_succeeds_iff .header declaredKeys).mpr
    ⟨consistent.header_known, consistent.header_acyclic⟩
  have placedKeys := (FieldRegistry.propagate_keys hp).trans declaredKeys
  obtain ⟨fields, hf⟩ := (FieldRegistry.propagate_succeeds_iff .trailer placedKeys).mpr
    ⟨consistent.trailer_known, consistent.trailer_acyclic⟩
  -- Placing moves fields only, so all that holds by their names still does.
  have final := consistent.of_keys ((FieldRegistry.propagate_keys hf).trans placedKeys).symm
  obtain ⟨messages, hm, members⟩ := declares.messages_registered
  obtain ⟨resolved, hr, layouts_built⟩ := exists_layouts
    ⟨fields, declaredComponents root, config.strict⟩ messages.sortedByType <| by
      intro m hm
      apply final.resolve_fits
      rw [members]
      exact List.mem_map_of_mem (messages.sortedByType_perm.mem_iff.mp hm)
  let tagBound := min (config.wantedTagBound (maxUsedTag resolved)) CompilerConfig.maxTagBound
  obtain ⟨layouts, hl⟩ := layouts_built tagBound
  let s : Spec := {
    version, fields, messages, layouts, tagBound
    components := declaredComponents root
    header := .root "header" (Member.childrenOf sections.header)
    trailer := .root "trailer" (Member.childrenOf sections.trailer) }
  refine ⟨s, compile_eq_ok_iff.mpr ⟨?_⟩⟩
  exact {
    sections, declared, placed, resolved
    version_read := hv
    sections_found := Sections.ofRoot_eq_ok_iff.mpr declares.found
    fields_declared := hd
    components_declared := componentsOf_eq_ok_iff.mpr
      ⟨declares.components_named, declares.component_names, rfl⟩
    header_eq := rfl
    trailer_eq := rfl
    header_placed := hp
    trailer_placed := hf
    messages_declared := hm
    components_checked := Resolver.components_resolve_iff.mpr
      ⟨final.components_acyclic, final.components_known⟩
    messages_resolved := hr
    bound_resolved := rfl
    layouts_built := hl }

/-- A dictionary compiles exactly if it is valid. -/
theorem compile_succeeds_iff_valid (root : Node) (config : CompilerConfig) :
    (∃ s, (compile root config).outcome = .ok s) ↔ Valid root config.strict := by
  constructor
  · rintro ⟨s, h⟩
    obtain ⟨t⟩ := compile_eq_ok_iff.mp h
    exact t.valid
  · exact Valid.compile_eq_ok

end Spec

end FixTables
