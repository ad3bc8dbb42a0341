import FixTables.Proofs.FullLists

namespace FixTables

/-- Components that differ at most in names of nothing, and not at all if they are to be kept. -/
structure Component.Misnamed (r : Resolver) (kept : List String) (c c' : Component) : Prop where
  name : c'.name = c.name
  members : Member.Misnamed r c.members c'.members
  kept : c.name ∈ kept → c' = c

def ComponentRegistry.Misnamed (r : Resolver) (kept : List String) (cs cs' : ComponentRegistry) :
    Prop :=
  List.Forall₂ (Component.Misnamed r kept) cs.components cs'.components

namespace ComponentRegistry

/-- Fields with nothing inside lead to no component. -/
theorem not_comesTo_of_fields {cs : ComponentRegistry} {enters : Member → Prop} {ms : List Member}
    (fields : ∀ m ∈ ms, m.kind = .field ∧ m.children = []) (c : Component) :
    ¬ cs.ComesTo enters ms c := by
  rintro ⟨m, hm, refers, -⟩
  cases hm with
  | here hm => simp [(fields m hm).1] at refers
  | nested hm _ inner =>
    rw [(fields _ hm).2] at inner
    exact not_meets_nil m inner
  | through hm refers _ _ => simp [(fields _ hm).1] at refers

namespace Misnamed

variable {r : Resolver} {kept : List String} {cs cs' : ComponentRegistry}
  {enters : Member → Prop} {ms ms' : List Member} {name : String} {c c' : Component}

theorem lookup (h : cs.Misnamed r kept cs') (name : String) :
    Option.Rel (Component.Misnamed r kept) (cs.lookup name) (cs'.lookup name) :=
  find?_rel_of_forall₂ h fun _ _ like => by rw [like.name]

theorem exists_lookup (h : cs.Misnamed r kept cs') (hc : cs'.lookup name = some c') :
    ∃ c, cs.lookup name = some c ∧ c.Misnamed r kept c' := by
  have alike := h.lookup name
  rw [hc] at alike
  generalize cs.lookup name = found at alike ⊢
  cases alike with
  | some like => exact ⟨_, rfl, like⟩

theorem exists_lookup_iff (h : cs.Misnamed r kept cs') :
    (∃ c', cs'.lookup name = some c') ↔ ∃ c, cs.lookup name = some c := by
  constructor
  · rintro ⟨c', hc⟩
    obtain ⟨c, hc, -⟩ := h.exists_lookup hc
    exact ⟨c, hc⟩
  · rintro ⟨c, hc⟩
    obtain ⟨c', hc', -⟩ := exists_of_rel (h.lookup name) hc
    exact ⟨c', hc'⟩

/-- Where a walk only comes to components that are kept, it goes as before. -/
theorem meets (h : cs.Misnamed r kept cs')
    (reached : ∀ c, cs.ComesTo enters ms c → c.name ∈ kept) {x : Member}
    (hx : cs'.Meets enters ms x) : cs.Meets enters ms x := by
  induction hx with
  | here hm => exact .here hm
  | nested hm he _ ih =>
    exact .nested hm he (ih fun c hc => reached c (hc.of_meets fun _ hx => .nested hm he hx))
  | through hm hk hc' _ ih =>
    obtain ⟨c, hc, like⟩ := h.exists_lookup hc'
    obtain rfl := like.kept (reached c ⟨_, .here hm, hk, hc⟩)
    have further := fun d hd => reached d (ComesTo.of_meets hd fun _ => .through hm hk hc)
    exact .through hm hk hc (ih further)

theorem comesTo (h : cs.Misnamed r kept cs')
    (reached : ∀ c, cs.ComesTo enters ms c → c.name ∈ kept) (hc : cs'.ComesTo enters ms c) :
    cs.ComesTo enters ms c := by
  obtain ⟨m, hm, hk, hc'⟩ := hc
  have met := h.meets reached hm
  obtain ⟨d, hd, like⟩ := h.exists_lookup hc'
  obtain rfl := like.kept (reached d ⟨m, met, hk, hd⟩)
  exact ⟨m, met, hk, hd⟩

theorem acyclicFrom (h : cs.Misnamed r kept cs')
    (reached : ∀ c, cs.ComesTo enters ms c → c.name ∈ kept) (acyclic : cs.AcyclicFrom enters ms) :
    cs'.AcyclicFrom enters ms := by
  intro c hc cyclic
  have comes := h.comesTo reached hc
  have further := fun d hd => reached d (ComesTo.of_meets hd fun _ => comes.meets)
  exact acyclic c comes (h.comesTo further cyclic)

/-- A walk of resolution through misnamed members meets only what it met before, or names of
nothing. -/
theorem meets_like (h : r.components.Misnamed r kept cs') {x' : Member}
    (hx : cs'.Meets r.Enters ms' x') (hms : Member.Misnamed r ms ms') :
    ∃ x, r.components.Meets r.Enters ms x ∧ x'.kind = x.kind ∧
      (x'.name = x.name ∨ ¬ r.Known x') := by
  induction hx generalizing ms with
  | here hm =>
    obtain ⟨m, hm, kind, name, -⟩ := hms.exists_of_mem hm
    exact ⟨m, .here hm, kind, name⟩
  | nested hm he _ ih =>
    obtain ⟨outer, ho, kind, name, inner⟩ := hms.exists_of_mem hm
    obtain ⟨isGroup, f, hf⟩ := he
    obtain ⟨x, hx, like⟩ := ih inner
    have named := name.resolve_right (not_not.mpr (Resolver.known_of_field (by simp [isGroup]) hf))
    exact ⟨x, .nested ho ⟨kind.symm.trans isGroup, f, named ▸ hf⟩ hx, like⟩
  | through hm hk hc' _ ih =>
    obtain ⟨ref, hr, kind, name, -⟩ := hms.exists_of_mem hm
    obtain ⟨c, hc, like⟩ := h.exists_lookup hc'
    have named := name.resolve_right (not_not.mpr (Resolver.known_of_component hk hc))
    obtain ⟨x, hx, like⟩ := ih like.members
    exact ⟨x, .through hr (kind.symm.trans hk) (named ▸ hc) hx, like⟩

/-- Names of nothing lead into no cycle. -/
theorem not_cyclic (h : r.components.Misnamed r kept cs')
    (acyclic : ∀ c ∈ r.components.components, ¬ r.components.Cyclic r.Enters c) (c' : Component) :
    ¬ cs'.Cyclic r.Enters c' := by
  rintro ⟨m', hm, hk, hc'⟩
  obtain ⟨c, hc, like⟩ := h.exists_lookup hc'
  obtain ⟨m, hm, kind, name⟩ := h.meets_like hm like.members
  have named := name.resolve_right (not_not.mpr (Resolver.known_of_component hk hc))
  exact acyclic c (lookup_mem hc) ⟨m, hm, kind.symm.trans hk, named ▸ hc⟩

end Misnamed

end ComponentRegistry

namespace Resolver

variable {r : Resolver} {kept : List String} {cs' : ComponentRegistry}

theorem known_misnamed (h : r.components.Misnamed r kept cs') {m : Member} {strict : Bool}
    (known : r.Known m) : Known ⟨r.fields, cs', strict⟩ m := by
  unfold Known at known ⊢
  split
  next isComponent =>
    rw [if_pos isComponent] at known
    exact h.exists_lookup_iff.mpr known
  next other => rwa [if_neg other] at known

/-- A lenient resolver finds misnamed components as consistent as they were, if only what messages
unfold to still has a layout. -/
theorem Consistent.misnamed {header trailer : List Member} {messages messages' : List (List Member)}
    (consistent : r.Consistent header trailer messages) (h : r.components.Misnamed r kept cs')
    (reached : ∀ c, r.components.ComesTo Member.HoldsOthers (header ++ trailer) c → c.name ∈ kept)
    (fit : ∀ ms ∈ messages', ∀ out, Unfolds ⟨r.fields, cs', false⟩ [] ms out → Resolved.Fit out) :
    Consistent ⟨r.fields, cs', false⟩ header trailer messages' := by
  -- In header and trailer nothing has changed; elsewhere a lenient resolver takes any name.
  have inHeader := fun c hc => reached c (ComponentRegistry.ComesTo.of_meets hc fun _ hx =>
    hx.mono (List.subset_append_left header trailer))
  have inTrailer := fun c hc => reached c (ComponentRegistry.ComesTo.of_meets hc fun _ hx =>
    hx.mono (List.subset_append_right header trailer))
  exact {
    header_known := fun x hx =>
      known_misnamed h (consistent.header_known x (h.meets inHeader hx))
    header_acyclic := h.acyclicFrom inHeader consistent.header_acyclic
    trailer_known := fun x hx =>
      known_misnamed h (consistent.trailer_known x (h.meets inTrailer hx))
    trailer_acyclic := h.acyclicFrom inTrailer consistent.trailer_acyclic
    components_acyclic := fun c _ => h.not_cyclic consistent.components_acyclic c
    components_known := nofun
    messages_known := nofun
    messages_fit := fit }

end Resolver

namespace Spec

variable {r : Resolver} {kept : List String} {root root' : Node} {sections : Sections}
  {fs : List Field}

/-- The elements of a misnamed document in which sections are found. -/
structure Sections.Misnamed (r : Resolver) (kept : List String) (sections sections' : Sections) :
    Prop where
  fields : Node.Misnamed r kept .elsewhere sections.fields.children sections'.fields.children
  header : Node.Misnamed r kept .elsewhere sections.header.children sections'.header.children
  trailer : Node.Misnamed r kept .elsewhere sections.trailer.children sections'.trailer.children
  messages : Node.Misnamed r kept .messages sections.messages.children sections'.messages.children

theorem Sections.FoundIn.misnamed (found : sections.FoundIn root)
    (h : Node.Misnamed r kept .elsewhere [root] [root']) :
    ∃ sections' : Sections, sections'.FoundIn root' ∧ sections.Misnamed r kept sections' := by
  obtain ⟨sections', found', ⟨p, hf⟩, ⟨q, hh⟩, ⟨u, ht⟩, ⟨v, hm⟩⟩ :=
    found.follow fun name _ => h.find name
  refine ⟨sections', found', ?_, ?_, ?_, ?_⟩
  · exact hf.children (Region.inside_section (by simp [name_of_find found.fields]))
  · exact hh.children (Region.inside_section (by simp [name_of_find found.header]))
  · exact ht.children (Region.inside_section (by simp [name_of_find found.trailer]))
  · exact hm.children (Region.inside_messages (name_of_find found.messages))

theorem componentNodes_misnamed (h : Node.Misnamed r kept .elsewhere [root] [root']) :
    List.Forall₂ (fun n n' => n.name = "component" ∧ Node.Misnamed r kept .components [n] [n'])
      (componentNodes root) (componentNodes root') := by
  have found := h.find "components"
  unfold componentNodes
  generalize root'.find? "components" = x' at found ⊢
  cases hn : root.find? "components" with
  | none =>
    rw [hn] at found
    cases found
    exact .nil
  | some n =>
    rw [hn] at found
    obtain @⟨_, n', p, like⟩ := found
    exact (like.children (Region.inside_components (name_of_find hn))).childrenNamed "component"

theorem declaredComponents_misnamed (h : Node.Misnamed r kept .elsewhere [root] [root']) :
    (declaredComponents root).Misnamed r kept (declaredComponents root') := by
  refine List.forall₂_map_left_iff.mpr (List.forall₂_map_right_iff.mpr ?_)
  refine (componentNodes_misnamed h).imp ?_
  rintro n n' ⟨element, like⟩
  have name := like.attributeD (by simp) "name"
  have inside := like.children (Region.inside_component element)
  by_cases stays : n.attributeD "name" ∈ kept
  · rw [if_pos stays] at inside
    have members : Member.childrenOf n' = Member.childrenOf n := inside.ofNodes_eq rfl
    rw [name, members]
    exact ⟨rfl, .refl _, fun _ => rfl⟩
  · rw [if_neg stays] at inside
    exact ⟨name, inside.members rfl, fun other => absurd other stays⟩

theorem ofNode_misnamed {n n' : Node}
    (h : n.name = "field" ∧ Node.Misnamed r kept .elsewhere [n] [n']) :
    Field.ofNode n' = Field.ofNode n := by
  obtain ⟨element, like⟩ := h
  have field : MemberKind.ofElement? n.name = some .field := by
    rw [element]
    rfl
  have inside := like.children (Region.inside_member field (.inl rfl))
  refine Field.ofNode_congr (like.attribute? (by simp)) ?_
  exact (inside.childrenNamed "value").imp fun _ _ h => h.2.attribute? (by simp)

/-- Names of references have no part in what declarations themselves need. -/
theorem WellDeclared.misnamed (declares : WellDeclared root sections fs)
    (h : Node.Misnamed r kept .elsewhere [root] [root']) :
    ∃ sections', WellDeclared root' sections' fs ∧ sections.Misnamed r kept sections' := by
  obtain ⟨sections', found, alike⟩ := declares.found.misnamed h
  have value := h.attribute? (by simp)
  have givesPart {key : String} (gives : Version.GivesPart root key) :
      Version.GivesPart root' key := by
    rwa [Version.GivesPart, value]
  have fields := alike.fields.childrenNamed "field"
  have components := componentNodes_misnamed h
  have messages := alike.messages.childrenNamed "message"
  have names {p : Region} (hp : p ≠ .body) {element : String} (key : String) {ns ns' : List Node}
      (h : List.Forall₂ (fun n n' => n.name = element ∧ Node.Misnamed r kept p [n] [n']) ns ns') :
      ns'.map (·.attributeD key) = ns.map (·.attributeD key) :=
    (map_eq_of_forall₂ h fun _ _ like => (like.2.attributeD hp key).symm).symm
  refine ⟨sections', ?_, alike⟩
  exact {
    root_name := h.of_single.1.trans declares.root_name
    major := givesPart declares.major
    minor := givesPart declares.minor
    servicePack := declares.servicePack.imp (value _).trans givesPart
    found := found
    fields_read := by
      refine (forall₂_comp fields.flip declares.fields_read).imp ?_
      rintro n' f ⟨n, like, read⟩
      exact (ofNode_misnamed like).trans read
    field_names := declares.field_names
    field_tags := declares.field_tags
    components_named := by
      intro n' hn'
      obtain ⟨n, hn, -, like⟩ := exists_mem_of_forall₂ components.flip hn'
      rw [like.attributeD (by simp)]
      exact declares.components_named n hn
    component_names := by
      rw [names (by simp) "name" components]
      exact declares.component_names
    messages_declared := by
      intro n' hn'
      obtain ⟨n, hn, -, like⟩ := exists_mem_of_forall₂ messages.flip hn'
      have declared := declares.messages_declared n hn
      have same := like.attributeD (by simp)
      refine ⟨?_, ?_, ?_, ?_⟩
      · exact same "name" ▸ declared.name_ne
      · exact same "msgtype" ▸ declared.type_ne
      · exact same "msgtype" ▸ declared.type_length
      · exact like.attribute? (by simp) "msgcat" ▸ declared.category
    message_types := by
      rw [names (by simp) "msgtype" messages]
      exact declares.message_types
    message_names := by
      rw [names (by simp) "name" messages]
      exact declares.message_names }

/-- A dictionary that compiles still does so leniently after references in bodies that neither the
header nor the trailer leads to have been given names of nothing, if only what each message unfolds
to still has a layout. -/
theorem compile_of_misnamed {bound : Option Nat} {s : Spec}
    (compiles : (compile root ⟨bound, true⟩).outcome = .ok s)
    (reached : ∀ c, s.components.ComesTo Member.HoldsOthers
      (s.header.children ++ s.trailer.children) c → c.name ∈ kept)
    (misnamed : Node.Misnamed ⟨s.fields, s.components, true⟩ kept .elsewhere [root] [root'])
    (fit : ∀ n, root'.find? "messages" = some n → ∀ m ∈ n.childrenNamed "message", ∀ out,
      Resolver.Unfolds ⟨s.fields, declaredComponents root', false⟩ []
        (s.header.children ++ Member.childrenOf m ++ s.trailer.children) out → Resolved.Fit out) :
    ∃ s', (compile root' ⟨bound, false⟩).outcome = .ok s' := by
  obtain ⟨t⟩ := compile_eq_ok_iff.mp compiles
  obtain ⟨fs, declares, keys, components, -⟩ := t.wellDeclared
  obtain ⟨sections', declares', alike⟩ := declares.misnamed misnamed
  have header : Member.childrenOf sections'.header = s.header.children :=
    (alike.header.ofNodes_eq rfl).trans t.header_children.symm
  have trailer : Member.childrenOf sections'.trailer = s.trailer.children :=
    (alike.trailer.ofNodes_eq rfl).trans t.trailer_children.symm
  have renamed : s.components.Misnamed ⟨s.fields, s.components, true⟩ kept
      (declaredComponents root') := by
    have declared := declaredComponents_misnamed misnamed
    rwa [← components] at declared
  have consistent := t.consistent
  rw [← t.header_children, ← t.trailer_children] at consistent
  apply Valid.compile_eq_ok
  refine ⟨sections', fs, declares', ?_⟩
  rw [header, trailer]
  refine (consistent.misnamed renamed reached ?_).of_keys keys
  intro ms hms
  obtain ⟨m, hm, rfl⟩ := List.mem_map.mp hms
  rw [header, trailer]
  exact fit sections'.messages declares'.found.messages m hm

/-- A dictionary whose message and one of its components refer to fields of the given names, and
whose header leads to the other component. -/
def framedLegs (text ratio : String) : Node :=
  { ((Node.leaf "fix").withAttribute "major" "4").withAttribute "minor" "4" with
    children := [
      { Node.leaf "fields" with
        children := [FieldRegistry.fieldNode "8" "BeginString" "STRING",
          FieldRegistry.fieldNode "555" "NoLegs" "NUMINGROUP",
          FieldRegistry.fieldNode "600" "LegSymbol" "STRING",
          FieldRegistry.fieldNode "623" "LegRatioQty" "FLOAT",
          FieldRegistry.fieldNode "58" "Text" "STRING",
          FieldRegistry.fieldNode "10" "CheckSum" "STRING"] },
      (Node.leaf "header").append (.named "component" "Frame" []),
      (Node.leaf "trailer").append (.named "field" "CheckSum" []),
      (Node.leaf "messages").append <| (Node.named "message" "News"
        [.named "field" text [], .named "component" "Legs" []]).withAttribute "msgtype" "B",
      { Node.leaf "components" with
        children := [.named "component" "Frame" [.named "field" "BeginString" []],
          .named "component" "Legs" [.named "group" "NoLegs"
            [.named "field" "LegSymbol" [], .named "field" ratio []]]] }] }

theorem framedLegs_misnamed (text : r.fields.lookup "Other" = none)
    (ratio : r.fields.lookup "Unheard" = none) :
    Node.Misnamed r ["Frame"] .elsewhere [framedLegs "Text" "LegRatioQty"]
      [framedLegs "Other" "Unheard"] := by
  have body : Node.Misnamed r ["Frame"] .body
      [.named "field" "Text" [], .named "component" "Legs" []]
      [.named "field" "Other" [], .named "component" "Legs" []] := by
    refine .append (.of_named rfl ?_ .nil) (.refl [_])
    simp [Resolver.Known, text]
  have entry : Node.Misnamed r ["Frame"] .body
      [.named "field" "LegSymbol" [], .named "field" "LegRatioQty" []]
      [.named "field" "LegSymbol" [], .named "field" "Unheard" []] := by
    refine .append (.refl [_]) (.of_named rfl ?_ .nil)
    simp [Resolver.Known, ratio]
  have legs : Node.Misnamed r ["Frame"] .components
      [.named "component" "Legs" [.named "group" "NoLegs"
        [.named "field" "LegSymbol" [], .named "field" "LegRatioQty" []]]]
      [.named "component" "Legs" [.named "group" "NoLegs"
        [.named "field" "LegSymbol" [], .named "field" "Unheard" []]]] :=
    .within (Region.inside_component rfl) (.within (Region.inside_member rfl (.inr rfl)) entry)
  refine .within (Region.inside_root rfl) (.same (.refl _) (.same (.refl _) (.same (.refl _) ?_)))
  refine .append (.within (Region.inside_messages rfl)
    (.within (Region.inside_message rfl) body)) ?_
  exact .within (Region.inside_components rfl) (.same (.refl _) legs)

set_option maxRecDepth 2000 in
theorem compile_of_misnamed_of_framedLegs :
    ∃ s, (compile (framedLegs "Text" "LegRatioQty") ⟨none, true⟩).outcome = .ok s ∧
      ∃ s', (compile (framedLegs "Other" "Unheard") ⟨none, false⟩).outcome = .ok s' := by
  have compiled : (compile (framedLegs "Text" "LegRatioQty") ⟨none, true⟩).outcome.map (fun s =>
      (s.header.children, s.trailer.children, s.components.lookup "Frame",
        s.fields.lookup "Other", s.fields.lookup "Unheard",
        (Resolver.resolve ⟨s.fields, declaredComponents (framedLegs "Other" "Unheard"), false⟩
          (s.header.children ++ Member.ofNodes [.named "field" "Other" [],
            .named "component" "Legs" []] ++ s.trailer.children) "").outcome)) =
      .ok ([⟨"Frame", .component, false, false, []⟩], [⟨"CheckSum", .field, false, false, []⟩],
        some ⟨"Frame", [⟨"BeginString", .field, false, false, []⟩]⟩, none, none,
        .ok [.field 8 "BeginString" false, .unresolved "Other",
          .group 555 "NoLegs" false [.field 600 "LegSymbol" false, .unresolved "Unheard"],
          .field 10 "CheckSum" false]) := by
    cbv
  cases hs : (compile (framedLegs "Text" "LegRatioQty") ⟨none, true⟩).outcome with
  | error => simp [hs, Except.map] at compiled
  | ok s =>
    simp only [hs, Except.map, Except.ok.injEq, Prod.mk.injEq] at compiled
    obtain ⟨header, trailer, frame, text, ratio, resolves⟩ := compiled
    refine ⟨s, rfl, compile_of_misnamed hs ?_ (framedLegs_misnamed text ratio) ?_⟩
    · rw [header, trailer]
      rintro c ⟨m, hm, refers, hc⟩
      rcases ComponentRegistry.meets_cons_iff.mp hm with hm | hm
      · rcases ComponentRegistry.meets_singleton_iff.mp hm with rfl | ⟨holds, -⟩ | ⟨d, -, hd, hm⟩
        · exact List.mem_singleton.mpr (ComponentRegistry.lookup_name hc)
        · exact absurd rfl holds
        · obtain rfl := Option.some.inj (hd.symm.trans frame)
          exact absurd ⟨m, hm, refers, hc⟩ (ComponentRegistry.not_comesTo_of_fields (by simp) c)
      · exact absurd ⟨m, hm, refers, hc⟩ (ComponentRegistry.not_comesTo_of_fields (by simp) c)
    · intro n hn m hm out unfolds
      obtain rfl := Option.some.inj (hn.symm.trans rfl)
      obtain rfl := List.mem_singleton.mp hm
      obtain rfl := unfolds.unique (Resolver.unfolds_of_resolve resolves)
      refine ⟨by simp [TagSequence.maxMembers], ?_⟩
      simp [Resolved.entryOf_cons_iff, Resolved.not_entryOf_nil, Resolved.entry?,
        TagSequence.maxMembers, Resolved.Tagged, Resolved.tag?]

variable {rows width : Nat}

theorem rowed_misnamed (unknown : r.components.lookup "Other" = none) :
    Node.Misnamed r kept .elsewhere [rowed rows width "Blank"] [rowed rows width "Other"] := by
  have last : Node.Misnamed r kept .body [.named "component" "Blank" []]
      [.named "component" "Other" []] := by
    refine .of_named rfl ?_ .nil
    simp [Resolver.Known, unknown]
  have messages : Node.Misnamed r kept .elsewhere [(rowedSections rows "Blank").messages]
      [(rowedSections rows "Other").messages] := by
    refine .within (Region.inside_messages rfl) (.within (Region.inside_message rfl) ?_)
    exact .append (.refl _) last
  refine .within (Region.inside_root rfl) ?_
  exact .same (.refl _) (.same (.refl _) (.same (.refl _) (.append messages (.refl _))))

/-- A dictionary with a group of one field. -/
def oneLine (text : String) : Node :=
  { ((Node.leaf "fix").withAttribute "major" "4").withAttribute "minor" "4" with
    children := [
      { Node.leaf "fields" with
        children := [FieldRegistry.fieldNode "33" "NoLinesOfText" "NUMINGROUP",
          FieldRegistry.fieldNode "58" "Text" "STRING"] },
      Node.leaf "header", Node.leaf "trailer",
      (Node.leaf "messages").append <| (Node.named "message" "News"
        [.named "group" "NoLinesOfText" [.named "field" text []]]).withAttribute "msgtype" "B"] }

theorem oneLine_misnamed (unknown : r.fields.lookup "Other" = none) :
    Node.Misnamed r kept .elsewhere [oneLine "Text"] [oneLine "Other"] := by
  have entry : Node.Misnamed r kept .body
      [.named "group" "NoLinesOfText" [.named "field" "Text" []]]
      [.named "group" "NoLinesOfText" [.named "field" "Other" []]] := by
    refine .within (Region.inside_member rfl (.inr rfl)) (.of_named rfl ?_ .nil)
    simp [Resolver.Known, unknown]
  refine .within (Region.inside_root rfl) (.same (.refl _) (.same (.refl _) (.same (.refl _) ?_)))
  exact .within (Region.inside_messages rfl) (.within (Region.inside_message rfl) entry)

/-- Two dictionaries that compile, but not even leniently once a reference has been given a name of
nothing: one where an empty component stood behind as many members as a list may have, and one where
a group had no other member. -/
theorem misnamed_fails_for_full_list_or_bare_group :
    (∃ s, (compile (rowed 257 255 "Blank") ⟨none, true⟩).outcome = .ok s ∧
      (∀ c, ¬ s.components.ComesTo Member.HoldsOthers
        (s.header.children ++ s.trailer.children) c) ∧
      Node.Misnamed ⟨s.fields, s.components, true⟩ [] .elsewhere [rowed 257 255 "Blank"]
        [rowed 257 255 "Other"] ∧
      ¬ ∃ s', (compile (rowed 257 255 "Other") ⟨none, false⟩).outcome = .ok s') ∧
    ∃ s, (compile (oneLine "Text") ⟨none, true⟩).outcome = .ok s ∧
      (∀ c, ¬ s.components.ComesTo Member.HoldsOthers
        (s.header.children ++ s.trailer.children) c) ∧
      Node.Misnamed ⟨s.fields, s.components, true⟩ [] .elsewhere [oneLine "Text"]
        [oneLine "Other"] ∧
      (compile (oneLine "Other") ⟨none, false⟩).outcome = .error ⟨"FIX 4.4",
        .schema (.invalidMessage "News" "group 'NoLinesOfText' has no members")⟩ := by
  have reached {s : Spec} (header : s.header.children = []) (trailer : s.trailer.children = [])
      (c : Component) : ¬ s.components.ComesTo Member.HoldsOthers
        (s.header.children ++ s.trailer.children) c := by
    rw [header, trailer]
    exact ComponentRegistry.not_comesTo_of_fields (by simp) c
  constructor
  · have blank : (rowedResolver 255 true).Unfolds [] [⟨"Blank", .component, false, false, []⟩]
        ([] ++ []) := .component rfl rfl .nil .nil
    have other : (rowedResolver 255 false).Unfolds [] [⟨"Other", .component, false, false, []⟩]
        [.unresolved "Other"] := .unknown rfl nofun .nil
    obtain ⟨s, hs⟩ := (compile_rowed_iff blank (by simp)).mpr (by decide : 257 * 255 + _ ≤ _)
    obtain ⟨t⟩ := compile_eq_ok_iff.mp hs
    obtain ⟨fs, declares, keys, components, -⟩ := t.wellDeclared
    have sections := declares.found.unique (rowed_wellDeclared 257 255 "Blank").found
    rw [declaredComponents_rowed true] at components
    refine ⟨s, hs, reached ?_ ?_, rowed_misnamed ?_, fun compiles => ?_⟩
    · rw [t.header_children, sections]
      rfl
    · rw [t.trailer_children, sections]
      rfl
    · rw [components]
      rfl
    · have fits := (compile_rowed_iff other (by simp [Resolved.entry?])).mp compiles
      exact absurd fits (by decide)
  · have compiled : (compile (oneLine "Text") ⟨none, true⟩).outcome.map (fun s =>
        (s.header.children, s.trailer.children, s.fields.lookup "Other")) = .ok ([], [], none) := by
      cbv
    cases hs : (compile (oneLine "Text") ⟨none, true⟩).outcome with
    | error => simp [hs, Except.map] at compiled
    | ok s =>
      simp only [hs, Except.map, Except.ok.injEq, Prod.mk.injEq] at compiled
      obtain ⟨header, trailer, unknown⟩ := compiled
      exact ⟨s, rfl, reached header trailer, oneLine_misnamed unknown, by cbv⟩

end Spec

end FixTables
