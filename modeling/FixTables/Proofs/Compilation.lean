import FixTables.Proofs.LayoutBuilding
import FixTables.Proofs.Registration
import FixTables.Spec

namespace FixTables

namespace Spec

/-- The stages that lead from a root element to a compiled dictionary. -/
structure Stages (root : Node) (config : CompilerConfig) (s : Spec) where
  sections : Sections
  declared : FieldRegistry
  placed : FieldRegistry
  resolved : List (Message × List Resolved)
  version_read : Version.ofNode root = .ok s.version
  sections_found : Sections.ofRoot root = .ok sections
  fields_declared : (FieldRegistry.ofSection sections.fields).outcome = .ok declared
  components_declared : (componentsOf root).outcome = .ok s.components
  header_eq : s.header = .root "header" (Member.childrenOf sections.header)
  trailer_eq : s.trailer = .root "trailer" (Member.childrenOf sections.trailer)
  header_placed :
    declared.propagate s.components .header [] (Member.childrenOf sections.header) = .ok placed
  trailer_placed :
    placed.propagate s.components .trailer [] (Member.childrenOf sections.trailer) = .ok s.fields
  messages_declared :
    (MessageRegistry.ofSection (Member.childrenOf sections.header)
      (Member.childrenOf sections.trailer) sections.messages).outcome = .ok s.messages
  components_checked :
    (checkComponents ⟨s.fields, s.components, config.strict⟩ s.components.components).outcome =
      .ok ()
  messages_resolved :
    (resolveMessages ⟨s.fields, s.components, config.strict⟩ s.messages.sortedByType).outcome =
      .ok resolved
  bound_resolved : s.tagBound = min (config.wantedTagBound (maxUsedTag resolved))
    CompilerConfig.maxTagBound
  layouts_built : (resolved.mapM fun p => MessageLayout.build p.1 p.2 s.tagBound).outcome =
    .ok s.layouts

theorem resolveTagBound_outcome (config : CompilerConfig) (n : Nat) :
    (config.resolveTagBound n : Traced ε Nat).outcome =
      .ok (min (config.wantedTagBound n) CompilerConfig.maxTagBound) := by
  unfold CompilerConfig.resolveTagBound
  by_cases h : CompilerConfig.maxTagBound < config.wantedTagBound n
  · simp [h, Except.map]
    omega
  · simp [h]
    omega

theorem compile_eq_ok_iff {root : Node} {config : CompilerConfig} {s : Spec} :
    (compile root config).outcome = .ok s ↔ Nonempty (Stages root config s) := by
  constructor
  · intro h
    unfold compile at h
    split at h
    next => simp at h
    next version hv =>
      split at h
      next => simp at h
      next sections hs =>
        rw [Traced.mapError_eq_ok_iff] at h
        simp only [compileSections, Traced.bind_eq_ok_iff, Traced.ofExcept_outcome,
          resolveTagBound_outcome, Traced.note_outcome, Traced.pure_outcome] at h
        obtain ⟨declared, hd, components, hc, placed, hp, fields, hf, messages, hm, _, hk,
          resolved, hr, bound, hb, layouts, hl, _, _, h⟩ := h
        obtain rfl := Except.ok.inj hb
        obtain rfl := Except.ok.inj h
        exact ⟨⟨sections, declared, placed, resolved, hv, hs, hd, hc, rfl, rfl, hp, hf, hm, hk, hr,
          rfl, hl⟩⟩
  · rintro ⟨t⟩
    unfold compile
    simp only [t.version_read, t.sections_found, Traced.mapError_eq_ok_iff]
    simp only [compileSections, Traced.bind_eq_ok_iff, Traced.ofExcept_outcome,
      resolveTagBound_outcome, Traced.note_outcome, Traced.pure_outcome]
    refine ⟨_, t.fields_declared, _, t.components_declared, _, t.header_placed, _, t.trailer_placed,
      _, t.messages_declared, _, t.components_checked, _, t.messages_resolved, _, rfl, s.layouts,
      ?_, (), trivial, ?_⟩
    · rw [← t.bound_resolved]
      exact t.layouts_built
    · rw [← t.bound_resolved, ← t.header_eq, ← t.trailer_eq]

namespace Stages

variable {root : Node} {config : CompilerConfig} {s : Spec}

def resolver (_ : Stages root config s) : Resolver := ⟨s.fields, s.components, config.strict⟩

theorem header_children (t : Stages root config s) :
    s.header.children = Member.childrenOf t.sections.header := by
  rw [t.header_eq]
  rfl

theorem trailer_children (t : Stages root config s) :
    s.trailer.children = Member.childrenOf t.sections.trailer := by
  rw [t.trailer_eq]
  rfl

/-- Each layout is built for one message, in the order of the message types, from what the members
of the message resolve to. -/
theorem layouts_of_messages (t : Stages root config s) :
    List.Forall₂ (fun m l =>
      (t.resolver.resolve m.members s!"message '{m.name}'").outcome = .ok l.members ∧
        (MessageLayout.build m l.members s.tagBound).outcome = .ok l)
      s.messages.sortedByType s.layouts := by
  have resolves := Traced.mapM_eq_ok_iff.mp t.messages_resolved
  have builds := Traced.mapM_eq_ok_iff.mp t.layouts_built
  refine (forall₂_comp resolves builds).imp ?_
  rintro m l ⟨p, hr, hb⟩
  simp only [Traced.bind_eq_ok_iff, Traced.pure_outcome] at hr
  obtain ⟨members, hr, hp⟩ := hr
  obtain rfl := Except.ok.inj hp
  have same := (MessageLayout.build_eq_ok hb).2.2.2.1
  exact ⟨same ▸ hr, same ▸ hb⟩

theorem messages_distinct (t : Stages root config s) :
    (s.messages.messages.map (·.msgType)).Nodup ∧ (s.messages.messages.map (·.name)).Nodup := by
  obtain ⟨ms, _, types, names, hs⟩ := MessageRegistry.ofSection_eq_ok_iff.mp t.messages_declared
  rw [hs]
  exact ⟨types, names⟩

/-- Each message was read from a declaration. -/
theorem message_read (t : Stages root config s) {m : Message} (hm : m ∈ s.messages.messages) :
    ∃ n, Message.ofNode (Member.childrenOf t.sections.header)
      (Member.childrenOf t.sections.trailer) n = .ok m := by
  obtain ⟨ms, read, _, _, hs⟩ := MessageRegistry.ofSection_eq_ok_iff.mp t.messages_declared
  rw [hs] at hm
  obtain ⟨n, _, hn⟩ := exists_mem_of_forall₂ (except_mapM_eq_ok_iff.mp read).flip hm
  exact ⟨n, hn⟩

end Stages

end Spec

end FixTables
