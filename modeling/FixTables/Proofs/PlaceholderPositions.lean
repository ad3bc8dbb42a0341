import FixTables.Proofs.Extension
import FixTables.Proofs.OrphanedReferences

namespace FixTables

/-- Components that are all kept are the same. -/
theorem ComponentRegistry.Misnamed.eq_of_kept {r : Resolver} {kept : List String}
    {cs cs' : ComponentRegistry} (h : cs.Misnamed r kept cs')
    (all : ∀ c ∈ cs.components, c.name ∈ kept) : cs' = cs := by
  have equal : List.Forall₂ (· = ·) cs.components cs'.components := by
    refine ((List.forall₂_and_left _ _).mpr ⟨all, h⟩).imp ?_
    rintro c c' ⟨hc, like⟩
    exact (like.kept hc).symm
  rw [List.forall₂_eq_eq_eq] at equal
  cases cs
  cases cs'
  exact congrArg ComponentRegistry.mk equal.symm

/-- A lenient resolver asks nothing of messages but that what they unfold to has a layout. -/
theorem Resolver.Consistent.leniently {fields : FieldRegistry} {components : ComponentRegistry}
    {header trailer : List Member} {messages messages' : List (List Member)}
    (h : Consistent ⟨fields, components, true⟩ header trailer messages)
    (fit : ∀ ms ∈ messages', ∀ out, Unfolds ⟨fields, components, false⟩ [] ms out →
      Resolved.Fit out) : Consistent ⟨fields, components, false⟩ header trailer messages' :=
  { h with
    components_known := nofun
    messages_known := nofun
    messages_fit := fit }

namespace Spec

variable {root root' msgs : Node} {elements : List Node} {bound : Option Nat} {s s' : Spec}

theorem misnamed_of_orphaned (r : Resolver) (kept : List String)
    (found : root.find? "messages" = some msgs)
    (orphaned : List.Forall₂ (Node.OrphanedIn r.fields) msgs.children elements) :
    Node.Misnamed r kept .elsewhere [root]
      [root.replaceFirst "messages" { msgs with children := elements }] := by
  rw [Node.find?_eq_findIn?] at found
  have like : Node.Misnamed r kept .messages msgs.children elements :=
    .of_forall₂ (orphaned.imp fun _ _ h => h.misnamed)
  exact .within rfl (Node.misnamed_replaceFirstIn found like _)

/-- The messages of a section before and after, element by element. -/
theorem messages_orphaned {fields : FieldRegistry}
    (orphaned : List.Forall₂ (Node.OrphanedIn fields) msgs.children elements) :
    List.Forall₂ (fun n n' => n.name = "message" ∧
        (n, n') ∈ msgs.children.zip elements ∧ n.OrphanedIn fields n')
      (msgs.childrenNamed "message")
      (Node.childrenNamed { msgs with children := elements } "message") := by
  obtain ⟨lengths, related⟩ := List.forall₂_iff_zip.mp orphaned
  have placed : List.Forall₂ (fun n n' => (n, n') ∈ msgs.children.zip elements ∧
      n.OrphanedIn fields n') msgs.children elements :=
    List.forall₂_iff_zip.mpr ⟨lengths, fun h => ⟨h, related h⟩⟩
  refine (List.forall₂_and_left _ _).mpr ⟨fun n hn => Node.name_of_mem_childrenNamed hn, ?_⟩
  refine Node.childrenNamed_forall₂ (fun _ _ h => ?_) placed "message"
  exact h.2.name

theorem find?_messages_replaced (found : root.find? "messages" = some msgs) :
    (root.replaceFirst "messages" { msgs with children := elements }).find? "messages" =
      some { msgs with children := elements } := by
  have named : msgs.name = "messages" := name_of_find found
  refine Node.find?_replaceFirst ?_ found
  exact named

namespace Stages

/-- What a document with other names of references declares apart from its messages. -/
theorem wellDeclared_misnamed (t : Stages root ⟨bound, true⟩ s)
    (misnamed : ∀ kept, Node.Misnamed ⟨s.fields, s.components, true⟩ kept .elsewhere
      [root] [root']) :
    ∃ sections' fs, WellDeclared root' sections' fs ∧ s.fields.keys = (FieldRegistry.mk fs).keys ∧
      declaredComponents root' = s.components ∧
      Member.childrenOf sections'.header = s.header.children ∧
      Member.childrenOf sections'.trailer = s.trailer.children := by
  obtain ⟨fs, declares, keys, components, -⟩ := t.wellDeclared
  have names := misnamed (s.components.components.map (·.name))
  obtain ⟨sections', declares', alike⟩ := declares.misnamed names
  refine ⟨sections', fs, declares', keys, ?_, ?_, ?_⟩
  · have renamed := declaredComponents_misnamed names
    rw [← components] at renamed
    exact renamed.eq_of_kept fun c hc => List.mem_map_of_mem hc
  · exact (alike.header.ofNodes_eq rfl).trans t.header_children.symm
  · exact (alike.trailer.ofNodes_eq rfl).trans t.trailer_children.symm

/-- Two dictionaries whose documents differ in names of references share all but messages. -/
theorem shares_of_misnamed (t : Stages root ⟨bound, true⟩ s) (t' : Stages root' ⟨bound, false⟩ s')
    (misnamed : ∀ kept, Node.Misnamed ⟨s.fields, s.components, true⟩ kept .elsewhere
      [root] [root']) :
    s'.fields.keys = s.fields.keys ∧ s'.components = s.components ∧
      s'.header.children = s.header.children ∧ s'.trailer.children = s.trailer.children := by
  obtain ⟨sections', fs, declares, keys, components, header, trailer⟩ :=
    t.wellDeclared_misnamed misnamed
  obtain ⟨fs', declares', keys', components', -⟩ := t'.wellDeclared
  obtain rfl := declares.found.unique declares'.found
  have read := except_mapM_eq_ok_iff.mpr declares.fields_read
  obtain rfl := Except.ok.inj (read.symm.trans (except_mapM_eq_ok_iff.mpr declares'.fields_read))
  exact ⟨keys'.trans keys.symm, components'.trans components,
    t'.header_children.trans header, t'.trailer_children.trans trailer⟩

/-- The members of a message unfold to what fits into tables. -/
theorem exists_unfolds_of_message (t : Stages root ⟨bound, true⟩ s)
    (found : root.find? "messages" = some msgs) {n : Node} (hn : n ∈ msgs.childrenNamed "message") :
    ∃ out, Resolver.Unfolds ⟨s.fields, s.components, true⟩ []
      (s.header.children ++ Member.childrenOf n ++ s.trailer.children) out ∧ Resolved.Fit out := by
  obtain ⟨fs, declares, -, -, members⟩ := t.wellDeclared
  obtain rfl := Option.some.inj (declares.found.messages.symm.trans found)
  have registered : s.header.children ++ Member.childrenOf n ++ s.trailer.children ∈
      s.messages.messages.map (·.members) := by
    rw [← members, t.header_children, t.trailer_children]
    exact List.mem_map_of_mem hn
  obtain ⟨m, hm, same⟩ := List.mem_map.mp registered
  obtain ⟨out, resolves, fit⟩ := t.messages_resolve hm
  exact ⟨out, same ▸ Resolver.unfolds_of_resolve resolves, fit⟩

end Stages

/-- A document stays one that compiles leniently when references of its messages are orphaned. -/
theorem exists_compile_orphaned (t : Stages root ⟨bound, true⟩ s)
    (found : root.find? "messages" = some msgs)
    (orphaned : List.Forall₂ (Node.OrphanedIn s.fields) msgs.children elements) :
    ∃ s', (compile (root.replaceFirst "messages" { msgs with children := elements })
      ⟨bound, false⟩).outcome = .ok s' := by
  have misnamed (kept : List String) :=
    misnamed_of_orphaned ⟨s.fields, s.components, true⟩ kept found orphaned
  obtain ⟨sections', fs, declares, keys, components, header, trailer⟩ :=
    t.wellDeclared_misnamed misnamed
  have messages : sections'.messages = { msgs with children := elements } :=
    Option.some.inj (declares.found.messages.symm.trans (find?_messages_replaced found))
  have consistent := t.consistent
  rw [← t.header_children, ← t.trailer_children] at consistent
  apply Valid.compile_eq_ok
  refine ⟨sections', fs, declares, ?_⟩
  rw [components, header, trailer]
  refine (consistent.leniently ?_).of_keys keys
  -- What a message unfolds to now is what it unfolded to before, with placeholders in it.
  intro ms hms out' unfolds'
  obtain ⟨n', hn', rfl⟩ := List.mem_map.mp hms
  rw [messages] at hn'
  obtain ⟨n, hn, -, -, changed⟩ := exists_mem_of_forall₂ (messages_orphaned orphaned).flip hn'
  obtain ⟨out, unfolds, fit⟩ := t.exists_unfolds_of_message found hn
  obtain ⟨_, lenient, replaces⟩ := Resolver.exists_replaces (changed.members _ _) unfolds
  rw [header, trailer] at unfolds'
  rw [unfolds'.unique lenient]
  exact replaces.hollowed.fit fit

/-- Messages that were read from two elements, between the same header and trailer. -/
structure ReadFromBoth (header trailer : List Member) (n n' : Node) (m m' : Message) : Prop where
  msgType : m.msgType = n.attributeD "msgtype"
  name' : m'.name = m.name
  msgType' : m'.msgType = m.msgType
  members : m.members = header ++ Member.childrenOf n ++ trailer
  members' : m'.members = header ++ Member.childrenOf n' ++ trailer

section InStep

variable (t : Stages root ⟨bound, true⟩ s)
  (t' : Stages (root.replaceFirst "messages" { msgs with children := elements }) ⟨bound, false⟩ s')
  (found : root.find? "messages" = some msgs)
  (orphaned : List.Forall₂ (Node.OrphanedIn s.fields) msgs.children elements)
include t t' found orphaned

theorem shares_of_orphaned :
    s'.fields.keys = s.fields.keys ∧ s'.components = s.components ∧
      s'.header.children = s.header.children ∧ s'.trailer.children = s.trailer.children :=
  t.shares_of_misnamed t' fun kept =>
    misnamed_of_orphaned ⟨s.fields, s.components, true⟩ kept found orphaned

/-- Messages come in the same order as before. -/
theorem messages_in_step :
    List.Forall₂ (fun m m' => ∃ n n', (n, n') ∈ msgs.children.zip elements ∧
        n.name = "message" ∧ n.OrphanedIn s.fields n' ∧
        ReadFromBoth s.header.children s.trailer.children n n' m m')
      s.messages.sortedByType s'.messages.sortedByType := by
  obtain ⟨-, -, header, trailer⟩ := shares_of_orphaned t t' found orphaned
  obtain ⟨ms, read, -, -, registered⟩ := MessageRegistry.ofSection_eq_ok_iff.mp t.messages_declared
  obtain ⟨ms', read', -, -, registered'⟩ :=
    MessageRegistry.ofSection_eq_ok_iff.mp t'.messages_declared
  have foundFirst := Sections.ofRoot_eq_ok_iff.mp t.sections_found
  have foundThen := Sections.ofRoot_eq_ok_iff.mp t'.sections_found
  rw [Option.some.inj (foundFirst.messages.symm.trans found), ← t.header_children,
    ← t.trailer_children] at read
  rw [Option.some.inj (foundThen.messages.symm.trans (find?_messages_replaced found)),
    ← t'.header_children, ← t'.trailer_children, header, trailer] at read'
  rw [registered, registered']
  refine forall₂_mergeSort ((forall₂_comp (except_mapM_eq_ok_iff.mp read).flip (forall₂_comp
    (messages_orphaned orphaned) (except_mapM_eq_ok_iff.mp read'))).imp ?_) ?_
  · rintro m m' ⟨n, hm, n', ⟨element, placed, changed⟩, hm'⟩
    obtain ⟨name, msgType, members⟩ := Message.ofNode_eq_ok hm
    obtain ⟨name', msgType', members'⟩ := Message.ofNode_eq_ok hm'
    refine ⟨n, n', placed, element, changed, msgType, ?_, ?_, members, members'⟩
    · rw [name', name, changed.attributeD]
    · rw [msgType', msgType, changed.attributeD]
  · rintro a a' b b' ⟨_, _, -, -, -, first⟩ ⟨_, _, -, -, -, second⟩
    rw [first.msgType', second.msgType']

/-- The members of each layout have become placeholders where their references were orphaned. -/
theorem layouts_in_step :
    List.Forall₂ (fun l l' => ∃ n n' m m', (n, n') ∈ msgs.children.zip elements ∧
        n.name = "message" ∧ ReadFromBoth s.header.children s.trailer.children n n' m m' ∧
        Resolver.Replaces ⟨s.fields, s.components, true⟩
          (s.header.children ++ Member.childrenOf n ++ s.trailer.children)
          (s.header.children ++ Member.childrenOf n' ++ s.trailer.children) l.members l'.members ∧
        (MessageLayout.build m l.members s.tagBound).outcome = .ok l ∧
        (MessageLayout.build m' l'.members s'.tagBound).outcome = .ok l')
      s.layouts s'.layouts := by
  obtain ⟨keys, components, -, -⟩ := shares_of_orphaned t t' found orphaned
  refine (forall₂_comp t.layouts_of_messages.flip (forall₂_comp
    (messages_in_step t t' found orphaned) t'.layouts_of_messages)).imp ?_
  rintro l l' ⟨m, ⟨resolves, built⟩, m', ⟨n, n', placed, element, changed, both⟩, resolves', built'⟩
  have unfolds := Resolver.unfolds_of_resolve resolves
  have unfolds' := Resolver.unfolds_of_resolve resolves'
  rw [both.members] at unfolds
  rw [both.members'] at unfolds'
  obtain ⟨out', lenient, replaces⟩ := Resolver.exists_replaces (changed.members _ _) unfolds
  have same : l'.members = out' := by
    have by_names : Resolver.Unfolds ⟨s.fields, s'.components, false⟩ [] _ l'.members :=
      unfolds'.of_keys keys
    rw [components] at by_names
    exact by_names.unique lenient
  rw [← same] at replaces
  exact ⟨n, n', m, m', placed, element, both, replaces, built, built'⟩

end InStep

/-- Placeholders keep the numbering: in a lenient compilation of a document in which references of
messages have been given names of no field, placeholders have taken the places of what these were,
and no other tag has moved. -/
theorem placeholders_keep_positions (compiles : (compile root ⟨bound, true⟩).outcome = .ok s)
    (found : root.find? "messages" = some msgs)
    (orphaned : List.Forall₂ (Node.OrphanedIn s.fields) msgs.children elements) :
    ∃ s', (compile (root.replaceFirst "messages" { msgs with children := elements })
        ⟨bound, false⟩).outcome = .ok s' ∧
      List.Forall₂ (fun l l' => ∃ n n', (n, n') ∈ msgs.children.zip elements ∧
          n.name = "message" ∧ n.attributeD "msgtype" = l.msgType ∧
          l.HollowedAs ⟨s.fields, s.components, true⟩
            (s.header.children ++ Member.childrenOf n ++ s.trailer.children)
            (s.header.children ++ Member.childrenOf n' ++ s.trailer.children) l')
        s.layouts s'.layouts := by
  obtain ⟨t⟩ := compile_eq_ok_iff.mp compiles
  obtain ⟨s', hs'⟩ := exists_compile_orphaned t found orphaned
  obtain ⟨t'⟩ := compile_eq_ok_iff.mp hs'
  have inStep := layouts_in_step t t' found orphaned
  -- With members lost the derived bound may shrink, but not below a tag that is still in use.
  have fewer : Resolved.maxTagIn (s'.layouts.map (·.members)) ≤
      Resolved.maxTagIn (s.layouts.map (·.members)) := by
    refine Resolved.maxTagIn_le_iff.mpr (List.forall_mem_map.mpr fun l' hl' => ?_)
    obtain ⟨l, hl, _, _, _, _, -, -, -, replaces, -⟩ := exists_mem_of_forall₂ inStep.flip hl'
    exact replaces.hollowed.maxTag_le.trans
      (Resolved.maxTagIn_le_iff.mp le_rfl _ (List.mem_map_of_mem hl))
  obtain ⟨le, wide⟩ := CompilerConfig.bound_of_more ⟨bound, false⟩ fewer
  have bound_eq : s.tagBound = _ := t.bound_resolved
  have bound_eq' : s'.tagBound = _ := t'.bound_resolved
  rw [maxUsedTag_eq, t.layout_members] at bound_eq
  rw [maxUsedTag_eq, t'.layout_members] at bound_eq'
  rw [← bound_eq'] at le wide
  have inUse : ∀ l' ∈ s'.layouts, s.tagBound ≤ s'.tagBound ∨
      Resolved.maxTag l'.members < s'.tagBound := by
    refine fun l' hl' => (bound_eq ▸ wide).imp_right fun all => lt_of_le_of_lt ?_ all
    exact Resolved.maxTagIn_le_iff.mp le_rfl _ (List.mem_map_of_mem hl')
  refine ⟨s', hs', ((List.forall₂_and_left _ _).mpr ⟨inUse, inStep.flip⟩).flip.imp ?_⟩
  rintro l l' ⟨within, n, n', m, m', placed, element, both, replaces, built, built'⟩
  refine ⟨n, n', placed, element, ?_, ?_⟩
  · rw [(MessageLayout.build_eq_ok built).2.1, both.msgType]
  · exact MessageLayout.hollowedAs_of_built replaces both.name' both.msgType' built built'
      (bound_eq ▸ le) within

/-- A section with a message that refers twice to a field, and to a group of orders between. -/
def newsSection (text orders : String) : Node :=
  (Node.leaf "messages").append <| (Node.named "message" "News" [.named "field" text [],
    .named "group" orders [.named "field" "ClOrdID" []], .named "field" "Text" [],
    .named "field" "ClOrdID" []]).withAttribute "msgtype" "B"

def newsOf (text orders : String) : Node :=
  { ((Node.leaf "fix").withAttribute "major" "4").withAttribute "minor" "4" with
    children := [
      { Node.leaf "fields" with
        children := [FieldRegistry.fieldNode "8" "BeginString" "STRING",
          FieldRegistry.fieldNode "11" "ClOrdID" "STRING",
          FieldRegistry.fieldNode "58" "Text" "STRING",
          FieldRegistry.fieldNode "73" "NoOrders" "NUMINGROUP",
          FieldRegistry.fieldNode "10" "CheckSum" "STRING"] },
      (Node.leaf "header").append (.named "field" "BeginString" []),
      (Node.leaf "trailer").append (.named "field" "CheckSum" []),
      newsSection text orders] }

theorem newsSection_orphaned {fields : FieldRegistry} (lost : fields.lookup "Lost" = none)
    (gone : fields.lookup "Gone" = none) :
    List.Forall₂ (Node.OrphanedIn fields) (newsSection "Text" "NoOrders").children
      (newsSection "Lost" "Gone").children := by
  have text : Node.Orphaned fields (.named "field" "Text" []) (.named "field" "Lost" []) :=
    ⟨by decide, "Lost", lost, rfl⟩
  have orders (cs : List Node) :
      Node.Orphaned fields (.named "group" "NoOrders" cs) (.named "group" "Gone" cs) :=
    ⟨by simp [Node.named, Node.leaf, Node.withAttribute], "Gone", gone, rfl⟩
  exact .cons (.inr ⟨rfl, _, .cons (.inr text) (.cons (.inr (orders _))
    (.cons (.inl rfl) (.cons (.inl rfl) .nil))), rfl⟩) .nil

/-- The tables shrink with the group that had the largest tag, and the field moves to its second
reference; the other field and the trailer stay where they were. -/
theorem placeholders_keep_positions_of_newsOf :
    ∃ s s', (compile (newsOf "Text" "NoOrders") ⟨none, true⟩).outcome = .ok s ∧
      (compile (newsOf "Lost" "Gone") ⟨none, false⟩).outcome = .ok s' ∧
      (s.tagBound, s'.tagBound) = (74, 59) ∧
      s.layouts.map (·.position 58) = [some 2] ∧ s'.layouts.map (·.position 58) = [some 4] ∧
      List.Forall₂ (fun l l' => ∀ tag, tag ≠ 58 → tag ≠ 73 → l'.position tag = l.position tag)
        s.layouts s'.layouts := by
  have compiled : (compile (newsOf "Text" "NoOrders") ⟨none, true⟩).outcome.map (fun s =>
      (s.tagBound, s.layouts.map (·.members), s.layouts.map (·.position 58),
        s.fields.lookup "Lost", s.fields.lookup "Gone")) = .ok (74,
        [[.field 8 "BeginString" false, .field 58 "Text" false, .group 73 "NoOrders" false
          [.field 11 "ClOrdID" false], .field 58 "Text" false, .field 11 "ClOrdID" false,
          .field 10 "CheckSum" false]], [some 2], none, none) := by
    cbv
  have compiled' : (compile (newsOf "Lost" "Gone") ⟨none, false⟩).outcome.map (fun s =>
      (s.tagBound, s.layouts.map (·.members), s.layouts.map (·.position 58))) = .ok (59,
        [[.field 8 "BeginString" false, .unresolved "Lost", .unresolved "Gone",
          .field 58 "Text" false, .field 11 "ClOrdID" false, .field 10 "CheckSum" false]],
          [some 4]) := by
    cbv
  obtain ⟨s, hs, facts⟩ := except_map_eq_ok_iff.mp compiled
  simp only [Prod.mk.injEq] at facts
  obtain ⟨bound, members, positions, lost, gone⟩ := facts
  have found : (newsOf "Text" "NoOrders").find? "messages" =
      some (newsSection "Text" "NoOrders") := rfl
  obtain ⟨s', hs', layouts⟩ :=
    placeholders_keep_positions hs found (newsSection_orphaned lost gone)
  have edited : (newsOf "Text" "NoOrders").replaceFirst "messages"
      { newsSection "Text" "NoOrders" with children := (newsSection "Lost" "Gone").children } =
        newsOf "Lost" "Gone" := by
    cbv
  rw [edited] at hs'
  simp only [hs', Except.map, Except.ok.injEq, Prod.mk.injEq] at compiled'
  obtain ⟨bound', members', positions'⟩ := compiled'
  refine ⟨s, s', hs, hs', by rw [bound, bound'], positions, positions', ?_⟩
  obtain ⟨l, one, hl⟩ := List.map_eq_singleton_iff.mp members
  obtain ⟨l', one', hl'⟩ := List.map_eq_singleton_iff.mp members'
  rw [one, one'] at layouts ⊢
  obtain ⟨_, _, -, -, -, hollowed⟩ := (List.forall₂_cons.mp layouts).1
  refine .cons (fun tag text orders => hollowed.position tag ?_) .nil
  rw [hl, hl']
  rintro ⟨m, m', hm, differ, ht⟩
  simp only [List.zip_cons_cons, List.zip_nil_right, List.mem_cons, Prod.mk.injEq,
    List.not_mem_nil, or_false] at hm
  obtain ⟨rfl, rfl⟩ | ⟨rfl, rfl⟩ | ⟨rfl, rfl⟩ | ⟨rfl, rfl⟩ | ⟨rfl, rfl⟩ | ⟨rfl, rfl⟩ := hm
  · exact differ rfl
  · exact text (Option.some.inj ht).symm
  · exact orders (Option.some.inj ht).symm
  · exact differ rfl
  · exact differ rfl
  · exact differ rfl

end Spec

end FixTables
