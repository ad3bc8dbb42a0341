import FixTables.Proofs.CompiledAlike
import FixTables.Proofs.IncrementalPairing
import FixTables.Proofs.LargerTables
import FixTables.Proofs.SectionSearch

namespace FixTables

namespace Node

/-- A declaration that can join a section and brings no section itself. -/
structure Joins (n : Node) (sectionName : String) : Prop where
  declares : (sectionName, n.name) ∈
    [("fields", "field"), ("components", "component"), ("messages", "message")]
  plain : ∀ name ∈ sectionNames, n.find? name = none

/-- Forests of elements that differ at most in declarations that have joined sections at their
ends. -/
inductive Extended : List Node → List Node → Prop
  | nil : Extended [] []
  | cons {name : String} {attributes : Attributes} {cs cs' joined ns ns' : List Node} :
      Extended cs cs' → (∀ n ∈ joined, n.Joins name) → Extended ns ns' →
      Extended (⟨name, attributes, cs⟩ :: ns) (⟨name, attributes, cs' ++ joined⟩ :: ns')

namespace Extended

variable {n n' root root' : Node} {ns ns' : List Node} {name : String}

theorem of_single (h : Extended [n] [n']) :
    n'.name = n.name ∧ n'.attributes = n.attributes ∧ ∃ cs joined, n'.children = cs ++ joined ∧
      Extended n.children cs ∧ ∀ c ∈ joined, c.Joins n.name := by
  cases h with
  | cons inner joins _ => exact ⟨rfl, rfl, _, _, rfl, inner, joins⟩

theorem refl (ns : List Node) : Extended ns ns := by
  induction ns using forest_induction with
  | nil => exact .nil
  | cons n ns inner rest =>
    cases n with
    | mk name attributes children =>
      have same := @Extended.cons name attributes _ _ [] _ _ inner (by simp) rest
      rwa [List.append_nil] at same

theorem join (n : Node) {joined : List Node} (joins : ∀ c ∈ joined, c.Joins n.name) :
    Extended [n] [{ n with children := n.children ++ joined }] := by
  cases n with
  | mk => exact .cons (.refl _) joins .nil

theorem of_forall₂ (h : List.Forall₂ (fun n n' => Extended [n] [n']) ns ns') : Extended ns ns' := by
  induction h with
  | nil => exact .nil
  | cons hn _ ih =>
    cases hn with
    | cons inner joins _ => exact .cons inner joins ih

theorem inside {n : Node} {cs : List Node}
    (h : List.Forall₂ (fun c c' => Extended [c] [c']) n.children cs) :
    Extended [n] [{ n with children := cs }] := by
  cases n with
  | mk name attributes children =>
    have same := @Extended.cons name attributes _ _ [] _ _ (of_forall₂ h) (by simp) .nil
    rwa [List.append_nil] at same

theorem forall₂ (h : Extended ns ns') : List.Forall₂ (fun n n' => Extended [n] [n']) ns ns' := by
  induction h with
  | nil => exact .nil
  | cons inner joins _ _ rest => exact .cons (.cons inner joins .nil) rest

theorem attribute? (h : Extended [n] [n']) (key : String) :
    n'.attribute? key = n.attribute? key := by
  rw [Node.attribute?, Node.attribute?, h.of_single.2.1]

theorem attributeD (h : Extended [n] [n']) (key : String) :
    n'.attributeD key = n.attributeD key := by
  rw [Node.attributeD, Node.attributeD, h.attribute?]

/-- Nothing joins an element that is no section of declarations. -/
theorem children (h : Extended [n] [n']) (other : n.name ∉ ["fields", "components", "messages"]) :
    Extended n.children n'.children := by
  obtain ⟨_, _, cs, joined, children, inner, joins⟩ := h.of_single
  cases joined with
  | nil =>
    rw [children, List.append_nil]
    exact inner
  | cons c joined =>
    have declares := (joins c (by simp)).declares
    simp only [List.mem_cons, Prod.mk.injEq, List.not_mem_nil, or_false] at declares other
    tauto

/-- No section is found among declarations that have joined one. -/
theorem findIn?_joined {sectionName : String} (joins : ∀ c ∈ ns, c.Joins sectionName)
    (hname : name ∈ sectionNames) : findIn? name ns = none := by
  apply findIn?_eq_none_iff.mpr
  intro c hc
  refine ⟨?_, (joins c hc).plain name hname⟩
  rintro rfl
  have declares := (joins c hc).declares
  simp only [sectionNames, List.mem_cons, Prod.mk.injEq, List.not_mem_nil, or_false]
    at declares hname
  rcases declares with ⟨-, same⟩ | ⟨-, same⟩ | ⟨-, same⟩ <;> simp [same] at hname

theorem find (h : Extended [root] [root']) (hname : name ∈ sectionNames) :
    Option.Rel (fun n n' => Extended [n] [n']) (root.find? name) (root'.find? name) := by
  obtain ⟨_, _, cs, joined, children, inner, joins⟩ := h.of_single
  rw [find?_eq_findIn?, find?_eq_findIn?, children, findIn?_append, findIn?_joined joins hname,
    Option.or_none]
  refine findIn?_rel (fun _ _ h => h.of_single.1) ?_ inner.forall₂
  intro n n' h
  obtain ⟨_, _, cs, joined, children, inner, joins⟩ := h.of_single
  exact ⟨cs, joined, children, inner.forall₂, findIn?_joined joins hname⟩

theorem ofNodes_eq (h : Extended ns ns') : Member.ofNodes ns' = Member.ofNodes ns := by
  induction h with
  | nil => rfl
  | @cons name attributes cs cs' joined ns ns' _ joins _ inner rest =>
    simp only [Member.ofNodes, Member.ofNode?]
    cases hk : MemberKind.ofElement? name with
    | none => exact rest
    | some kind =>
      have element := MemberKind.element_of_ofElement hk
      obtain rfl : joined = [] := by
        apply List.eq_nil_iff_forall_not_mem.mpr
        intro c hc
        have declares := (joins c hc).declares
        cases kind <;> simp [← element, MemberKind.element] at declares
      simp only [Option.map_some, List.append_nil, inner, rest]

theorem childrenOf_eq (h : Extended [n] [n'])
    (other : n.name ∉ ["fields", "components", "messages"]) :
    Member.childrenOf n' = Member.childrenOf n :=
  (h.children other).ofNodes_eq

/-- What a section holds under a name it holds before what has joined it. -/
theorem childrenNamed (h : Extended [n] [n']) (name : String) :
    ∃ front back, n'.childrenNamed name = front ++ back ∧
      List.Forall₂ (fun c c' => c.name = name ∧ Extended [c] [c']) (n.childrenNamed name) front := by
  obtain ⟨_, _, cs, joined, children, inner, joins⟩ := h.of_single
  refine ⟨cs.filter (·.name = name), joined.filter (·.name = name), ?_, ?_⟩
  · rw [Node.childrenNamed, children, List.filter_append]
  · refine (List.forall₂_and_left _ _).mpr ⟨fun c hc => name_of_mem_childrenNamed hc, ?_⟩
    refine List.rel_filter (fun c c' hc => ?_) inner.forall₂
    simp [hc.of_single.1]

end Extended

end Node

open Node (Extended)

/-- Declarations that join others are read after them. -/
theorem read_joined {read : Node → Except SchemaError α} {ns front back : List Node} {as' : List α}
    (same : List.Forall₂ (fun n n' => read n' = read n) ns front)
    (h : (front ++ back).mapM read = .ok as') :
    ∃ as more, ns.mapM read = .ok as ∧ as' = as ++ more := by
  have fronts : front.mapM read = ns.mapM read := by
    clear h
    induction same with
    | nil => rfl
    | cons hn _ ih => rw [List.mapM_cons, List.mapM_cons, hn, ih]
  rw [List.mapM_append, fronts, except_bind_eq_ok_iff] at h
  obtain ⟨as, hf, h⟩ := h
  obtain ⟨more, _, h⟩ := except_bind_eq_ok_iff.mp h
  exact ⟨as, more, hf, (Except.ok.inj h).symm⟩

/-- What a section held is read as before, with more behind it. -/
theorem read_extended {read : Node → Except SchemaError α} {n n' : Node} {name : String}
    {as as' : List α} (h : Extended [n] [n'])
    (each : ∀ c c', c.name = name ∧ Extended [c] [c'] → read c' = read c)
    (hr : (n.childrenNamed name).mapM read = .ok as)
    (hr' : (n'.childrenNamed name).mapM read = .ok as') : as <+: as' := by
  obtain ⟨front, back, children, same⟩ := h.childrenNamed name
  rw [children] at hr'
  obtain ⟨as, more, readFront, rfl⟩ := read_joined (same.imp each) hr'
  obtain rfl := Except.ok.inj (readFront.symm.trans hr)
  exact List.prefix_append as more

section Readers

variable {n n' : Node}

theorem Field.ofNode_extended (h : n.name = "field" ∧ Extended [n] [n']) :
    ofNode n' = ofNode n := by
  obtain ⟨named, h⟩ := h
  have inner := (h.children (by simp [named])).forall₂
  have values := Node.childrenNamed_forall₂ (fun _ _ h => h.of_single.1) inner "value"
  exact ofNode_congr h.attribute? (values.imp fun _ _ h => h.attribute?)

theorem Component.ofNode_extended (h : n.name = "component" ∧ Extended [n] [n']) :
    ofNode n' = ofNode n := by
  obtain ⟨named, h⟩ := h
  simp only [ofNode, h.attribute?, h.childrenOf_eq (by simp [named])]

theorem Message.ofNode_extended (header trailer : List Member)
    (h : n.name = "message" ∧ Extended [n] [n']) :
    ofNode header trailer n' = ofNode header trailer n := by
  obtain ⟨named, h⟩ := h
  simp only [ofNode, readCategory, h.attribute?, h.attributeD, h.childrenOf_eq (by simp [named])]

end Readers

namespace Field

/-- The same field but for its partner, which it keeps if it has one. -/
structure KeptAs (f g : Field) : Prop where
  same : g = { f with related := g.related }
  partner : f.related ≠ 0 → g.related = f.related

theorem KeptAs.name_eq {f g : Field} (h : f.KeptAs g) : g.name = f.name := by
  rw [h.same]

theorem KeptAs.placed {f g : Field} (h : f.KeptAs g) (name : String) (location : Location) :
    (f.placed name location).KeptAs (g.placed name location) := by
  unfold Field.placed
  rw [h.name_eq]
  split
  next =>
    refine ⟨?_, h.partner⟩
    rw [h.same]
  next => exact h

end Field

namespace FieldRegistry

variable {r r' moved : FieldRegistry} {before later : List Field}

def KeptIn (r r' : FieldRegistry) : Prop := ∀ f ∈ r.fields, ∃ g ∈ r'.fields, f.KeptAs g

/-- Later fields find their partners among themselves and the fields without one. -/
theorem paired_keptIn (h : Unrelated (before ++ later)) :
    (paired before).KeptIn (paired (before ++ later)) := by
  intro f hf
  have joined := List.mem_append_left later hf
  rw [← h.paired_append.1, foldl_relate_fields]
  refine ⟨_, List.mem_map_of_mem joined, Field.foldl_relatedBy_eq f _, fun related => ?_⟩
  -- A field with a partner is taken, so no new pair has it.
  rw [Field.foldl_relatedBy_of_not_mem]
  intro again
  refine not_mem_taken_of_mem_pairedTags again ?_
  exact List.mem_map_of_mem (List.mem_filter.mpr ⟨joined, by simpa using related⟩)

theorem KeptIn.setLocation {name : String} {location : Location} (h : r.KeptIn r')
    (hm : r.setLocation name location = some moved) :
    ∃ moved', r'.setLocation name location = some moved' ∧ moved.KeptIn moved' := by
  obtain ⟨⟨f, hf, named⟩, rfl⟩ := setLocation_eq_some_iff.mp hm
  obtain ⟨g, hg, kept⟩ := h f hf
  refine ⟨_, setLocation_eq_some_iff.mpr ⟨⟨g, hg, kept.name_eq.trans named⟩, rfl⟩, ?_⟩
  intro f' hf'
  obtain ⟨f, hf, rfl⟩ := List.mem_map.mp hf'
  obtain ⟨g, hg, kept⟩ := h f hf
  exact ⟨_, List.mem_map_of_mem hg, kept.placed name location⟩

theorem KeptIn.lookup {name : String} {f : Field} (h : r.KeptIn r')
    (names : (r'.fields.map (·.name)).Nodup) (hf : r.lookup name = some f) :
    ∃ g, r'.lookup name = some g ∧ f.KeptAs g := by
  obtain ⟨g, hg, kept⟩ := h f (List.mem_of_find?_eq_some hf)
  have named : f.name = name := by simpa using List.find?_some hf
  exact ⟨g, (find?_key_eq_some_iff names).mpr ⟨hg, kept.name_eq.trans named⟩, kept⟩

end FieldRegistry

theorem ComponentRegistry.lookup_of_prefix {r r' : ComponentRegistry}
    (h : r.components <+: r'.components) {name : String} {c : Component}
    (hc : r.lookup name = some c) : r'.lookup name = some c := by
  obtain ⟨more, joined⟩ := h
  rw [lookup] at hc ⊢
  rw [← joined, List.find?_append, hc, Option.some_or]

theorem CompilerConfig.bound_of_more (config : CompilerConfig) {used used' : Nat}
    (more : used ≤ used') :
    min (config.wantedTagBound used) maxTagBound ≤ min (config.wantedTagBound used') maxTagBound ∧
      (min (config.wantedTagBound used') maxTagBound ≤ min (config.wantedTagBound used) maxTagBound ∨
        used < min (config.wantedTagBound used) maxTagBound) := by
  unfold wantedTagBound maxTagBound
  cases config.tagBound with
  | some bound => simp
  | none =>
    simp only [Option.getD_none]
    omega

/-- Declarations that others have joined, behind those there before. -/
structure Declarations.Grown (d d' : Declarations) : Prop where
  header : d'.header = d.header
  trailer : d'.trailer = d.trailer
  fields : d.fields.KeptIn d'.fields
  components : d.components.components <+: d'.components.components
  messages : d.messages.messages <+: d'.messages.messages

namespace FieldRegistry

theorem ofSection_extended {n n' : Node} {r r' : FieldRegistry} (h : Extended [n] [n'])
    (hr : (ofSection n).outcome = .ok r) (hr' : (ofSection n').outcome = .ok r') :
    r.KeptIn r' := by
  obtain ⟨fs, read, -, -, paired_eq⟩ := ofSection_eq_ok_iff.mp hr
  obtain ⟨fs', read', names, tags, paired_eq'⟩ := ofSection_eq_ok_iff.mp hr'
  have unrelated := unrelated_of_read read' names tags
  obtain ⟨more, rfl⟩ := read_extended h (fun _ _ => Field.ofNode_extended) read read'
  obtain rfl := Except.ok.inj paired_eq
  obtain rfl := Except.ok.inj paired_eq'
  exact paired_keptIn unrelated

end FieldRegistry

theorem MessageRegistry.ofSection_extended {header trailer : List Member} {n n' : Node}
    {r r' : MessageRegistry} (h : Extended [n] [n'])
    (hr : (ofSection header trailer n).outcome = .ok r)
    (hr' : (ofSection header trailer n').outcome = .ok r') : r.messages <+: r'.messages := by
  obtain ⟨ms, read, -, -, rfl⟩ := ofSection_eq_ok_iff.mp hr
  obtain ⟨ms', read', -, -, rfl⟩ := ofSection_eq_ok_iff.mp hr'
  exact read_extended h (fun _ _ => Message.ofNode_extended header trailer) read read'

theorem ComponentRegistry.ofSection_extended {n n' : Node} {r r' : ComponentRegistry}
    (h : Extended [n] [n']) (hr : (ofSection n).outcome = .ok r)
    (hr' : (ofSection n').outcome = .ok r') : r.components <+: r'.components := by
  obtain ⟨cs, read, -, rfl⟩ := ofSection_eq_ok_iff.mp hr
  obtain ⟨cs', read', -, rfl⟩ := ofSection_eq_ok_iff.mp hr'
  exact read_extended h (fun _ _ => Component.ofNode_extended) read read'

theorem Spec.componentsOf_extended {root root' : Node} {r r' : ComponentRegistry}
    (h : Extended [root] [root']) (hr : (componentsOf root).outcome = .ok r)
    (hr' : (componentsOf root').outcome = .ok r') : r.components <+: r'.components := by
  have found := h.find (show "components" ∈ Node.sectionNames by decide)
  unfold componentsOf at hr hr'
  generalize root.find? "components" = first, root'.find? "components" = second at found hr hr'
  cases found with
  | none =>
    obtain rfl := Except.ok.inj hr
    obtain rfl := Except.ok.inj hr'
    exact List.prefix_refl _
  | some hn => exact ComponentRegistry.ofSection_extended hn hr hr'

namespace Declarations

variable {d d' : Declarations} {root root' : Node} {sections sections' : Spec.Sections}
  {config : CompilerConfig} {s s' : Spec}

theorem ReadFrom.grown (h : Extended [root] [root']) (read : d.ReadFrom root sections)
    (read' : d'.ReadFrom root' sections') : d.Grown d' := by
  obtain ⟨-, found, header, trailer, fields, components, messages⟩ := read
  obtain ⟨-, found', header', trailer', fields', components', messages'⟩ := read'
  have known : ["fields", "header", "trailer", "messages"] ⊆ Node.sectionNames := by
    simp [Node.sectionNames]
  obtain ⟨again, foundAgain, hf, hh, ht, hm⟩ := found.follow fun name hname => h.find (known hname)
  obtain rfl := foundAgain.unique found'
  have header_eq : d'.header = d.header := by
    rw [header, header', hh.childrenOf_eq (by simp [Spec.name_of_find found.header])]
  have trailer_eq : d'.trailer = d.trailer := by
    rw [trailer, trailer', ht.childrenOf_eq (by simp [Spec.name_of_find found.trailer])]
  rw [header_eq, trailer_eq] at messages'
  exact ⟨header_eq, trailer_eq, FieldRegistry.ofSection_extended hf fields fields',
    Spec.componentsOf_extended h components components',
    MessageRegistry.ofSection_extended hm messages messages'⟩

theorem Grown.propagate (grown : d.Grown d') {location : Location} {ms : List Member}
    {fields fields' moved moved' : FieldRegistry} (start : fields.KeptIn fields')
    (h : fields.propagate d.components location [] ms = .ok moved)
    (h' : fields'.propagate d'.components location [] ms = .ok moved') : moved.KeptIn moved' := by
  have there {name : String} {c : Component} (hc : d.components.lookup name = some c) :
      ∃ c', d'.components.lookup name = some c' ∧ c.unflagged = c'.unflagged :=
    ⟨c, ComponentRegistry.lookup_of_prefix grown.components hc, rfl⟩
  obtain ⟨same, hs, kept⟩ := FieldRegistry.propagate_follows
    (fun kept hm => FieldRegistry.KeptIn.setLocation kept hm) there rfl start h
  obtain rfl := Except.ok.inj (hs.symm.trans h')
  exact kept

/-- All that a strict dictionary looks up it looks up when others have joined. -/
theorem Grown.within (grown : d.Grown d') {fields fields' : FieldRegistry}
    (kept : fields.KeptIn fields') (names : (fields'.fields.map (·.name)).Nodup) :
    Resolver.Within ⟨fields, d.components, true⟩ ⟨fields', d'.components, true⟩ where
  strict := rfl
  field hf := by
    obtain ⟨g, hg, same⟩ := kept.lookup names hf
    exact ⟨g, hg, by rw [same.same], same.name_eq⟩
  component := ComponentRegistry.lookup_of_prefix grown.components
  unknown := by simp

end Declarations

/-- Each layout has its like, fields keep all but what they lack of partners, and tables only grow. -/
structure Spec.KeptIn (s s' : Spec) : Prop where
  layouts : ∀ l ∈ s.layouts, ∃ l' ∈ s'.layouts, l.KeptAs l'
  tagBound_le : s.tagBound ≤ s'.tagBound
  fields : s.fields.KeptIn s'.fields

namespace Declarations

variable {d d' : Declarations} {config : CompilerConfig} {s s' : Spec}

theorem LinkTo.fields_kept (link : d.LinkTo config s) (link' : d'.LinkTo config s')
    (grown : d.Grown d') : s.fields.KeptIn s'.fields := by
  obtain ⟨placed, hh, ht⟩ := link.placed
  obtain ⟨placed', hh', ht'⟩ := link'.placed
  rw [grown.header] at hh'
  rw [grown.trailer] at ht'
  exact grown.propagate (grown.propagate grown.fields hh hh') ht ht'

/-- Each layout has one beside it that is built for the same message from the same members. -/
theorem LinkTo.exists_layout (link : d.LinkTo config s) (link' : d'.LinkTo config s')
    (grown : d.Grown d') (distinct : d'.Distinct) (strict : config.strict = true)
    {l : MessageLayout} (hl : l ∈ s.layouts) :
    ∃ m, ∃ l' ∈ s'.layouts, l'.members = l.members ∧
      (MessageLayout.build m l.members s.tagBound).outcome = .ok l ∧
      (MessageLayout.build m l.members s'.tagBound).outcome = .ok l' := by
  have names := FieldRegistry.names_nodup_of_keys link'.fields_keys distinct.field_names
  have within := grown.within (link.fields_kept link' grown) names
  obtain ⟨m, hm, unfolds, builds⟩ := exists_mem_of_forall₂ link.layouts_built.flip hl
  have joined : m ∈ d'.messages.sortedByType :=
    d'.messages.sortedByType_perm.mem_iff.mpr
      (grown.messages.subset (d.messages.sortedByType_perm.mem_iff.mp hm))
  obtain ⟨l', hl', unfolds', builds'⟩ := exists_mem_of_forall₂ link'.layouts_built joined
  rw [strict] at unfolds unfolds'
  have members := unfolds'.unique (unfolds.within within)
  exact ⟨m, l', hl', members, builds, members ▸ builds'⟩

theorem LinkTo.keptIn (link : d.LinkTo config s) (link' : d'.LinkTo config s')
    (grown : d.Grown d') (distinct : d'.Distinct) (strict : config.strict = true) :
    s.KeptIn s' := by
  have layouts {l : MessageLayout} (hl : l ∈ s.layouts) :=
    link.exists_layout link' grown distinct strict hl
  have more : Resolved.maxTagIn (s.layouts.map (·.members)) ≤
      Resolved.maxTagIn (s'.layouts.map (·.members)) := by
    refine Resolved.maxTagIn_le_iff.mpr (List.forall_mem_map.mpr fun l hl => ?_)
    obtain ⟨_, l', hl', members, _⟩ := layouts hl
    rw [← members]
    exact Resolved.maxTagIn_le_iff.mp le_rfl _ (List.mem_map_of_mem hl')
  -- A bound that grows was derived, and so lies above all tags in use before.
  obtain ⟨le, wide⟩ := config.bound_of_more more
  rw [← link.bound_eq, ← link'.bound_eq] at le wide
  refine ⟨fun l hl => ?_, le, link.fields_kept link' grown⟩
  obtain ⟨m, l', hl', _, builds, builds'⟩ := layouts hl
  refine ⟨l', hl', MessageLayout.build_keptAs builds builds' le (wide.imp_right fun all => ?_)⟩
  exact lt_of_le_of_lt (Resolved.maxTagIn_le_iff.mp le_rfl _ (List.mem_map_of_mem hl)) all

end Declarations

namespace Spec

variable {root root' : Node} {config : CompilerConfig} {s s' : Spec}

/-- Fields, components and messages that join a strict dictionary leave all that it defined as it
was. -/
theorem compile_extended (h : Extended [root] [root']) (strict : config.strict = true)
    (hs : (compile root config).outcome = .ok s) (hs' : (compile root' config).outcome = .ok s') :
    s.KeptIn s' := by
  obtain ⟨d, sections, read, link⟩ := compile_eq_ok_iff_linkTo.mp hs
  obtain ⟨d', sections', read', link'⟩ := compile_eq_ok_iff_linkTo.mp hs'
  exact link.keptIn link' (read.grown h read') read'.distinct strict

/-- A dictionary whose sections further declarations may have joined. -/
def raceDictionary (fields components messages : List Node) : Node :=
  let named (element name : String) := (Node.leaf element).withAttribute "name" name
  { ((Node.leaf "fix").withAttribute "major" "4").withAttribute "minor" "4" with
    children := [
      { Node.leaf "fields" with
        children := [FieldRegistry.fieldNode "8" "BeginString" "STRING",
          FieldRegistry.fieldNode "95" "RawDataLength" "LENGTH",
          FieldRegistry.fieldNode "96" "RawData" "DATA",
          FieldRegistry.fieldNode "354" "TextLen" "LENGTH",
          FieldRegistry.fieldNode "33" "NoLines" "NUMINGROUP",
          FieldRegistry.fieldNode "10" "CheckSum" "STRING"] ++ fields },
      { Node.leaf "components" with
        children := [(named "component" "Lines").append
          ((named "group" "NoLines").append (named "field" "RawData"))] ++ components },
      (Node.leaf "header").append (named "field" "BeginString"),
      (Node.leaf "trailer").append (named "field" "CheckSum"),
      { Node.leaf "messages" with
        children := [((named "message" "News").withAttribute "msgtype" "B").append
          (named "component" "Lines")] ++ messages }] }

/-- A data field for the length field without one, and another for the one that has one. -/
def joiningFields : List Node :=
  [FieldRegistry.fieldNode "101" "Text" "DATA", FieldRegistry.fieldNode "102" "Raw" "DATA"]

def joiningComponents : List Node :=
  let named (element name : String) := (Node.leaf element).withAttribute "name" name
  [(named "component" "More").append (named "component" "Lines")]

def joiningMessages : List Node :=
  let named (element name : String) := (Node.leaf element).withAttribute "name" name
  [((named "message" "Email").withAttribute "msgtype" "A").append (named "field" "Raw")]

theorem race_extended : Extended [raceDictionary [] [] []]
    [raceDictionary joiningFields joiningComponents joiningMessages] := by
  have fields : ∀ c ∈ joiningFields, c.Joins "fields" :=
    List.forall_mem_cons.mpr ⟨⟨by decide, by decide⟩,
      List.forall_mem_cons.mpr ⟨⟨by decide, by decide⟩, by simp⟩⟩
  have components : ∀ c ∈ joiningComponents, c.Joins "components" :=
    List.forall_mem_cons.mpr ⟨⟨by decide, by decide⟩, by simp⟩
  have messages : ∀ c ∈ joiningMessages, c.Joins "messages" :=
    List.forall_mem_cons.mpr ⟨⟨by decide, by decide⟩, by simp⟩
  exact .inside (.cons (.join _ fields) (.cons (.join _ components) (.cons (.refl _)
    (.cons (.refl _) (.cons (.join _ messages) .nil)))))

set_option maxRecDepth 1000 in
theorem compile_extended_of_race :
    Extended [raceDictionary [] [] []]
        [raceDictionary joiningFields joiningComponents joiningMessages] ∧
      ∃ s s', (compile (raceDictionary [] [] []) .default).outcome = .ok s ∧
        (compile (raceDictionary joiningFields joiningComponents joiningMessages)
          .default).outcome = .ok s' ∧ s.KeptIn s' ∧
        (s.tagBound, s'.tagBound) = (97, 103) ∧
        s.fields.fields.map (fun f => (f.tag, f.related)) =
          [(8, 0), (95, 96), (96, 95), (354, 0), (33, 0), (10, 0)] ∧
        s'.fields.fields.map (fun f => (f.tag, f.related)) =
          [(8, 0), (95, 96), (96, 95), (354, 101), (33, 0), (10, 0), (101, 354), (102, 0)] := by
  have compiled : (compile (raceDictionary [] [] []) .default).outcome.map (fun s =>
      (s.tagBound, s.fields.fields.map fun f => (f.tag, f.related))) =
        .ok (97, [(8, 0), (95, 96), (96, 95), (354, 0), (33, 0), (10, 0)]) := by
    cbv
  have compiled' : (compile (raceDictionary joiningFields joiningComponents joiningMessages)
      .default).outcome.map (fun s =>
        (s.tagBound, s.fields.fields.map fun f => (f.tag, f.related))) =
          .ok (103, [(8, 0), (95, 96), (96, 95), (354, 101), (33, 0), (10, 0), (101, 354),
            (102, 0)]) := by
    cbv
  cases hs : (compile (raceDictionary [] [] []) .default).outcome with
  | error => simp [hs, Except.map] at compiled
  | ok s =>
    cases hs' : (compile (raceDictionary joiningFields joiningComponents joiningMessages)
        .default).outcome with
    | error => simp [hs', Except.map] at compiled'
    | ok s' =>
      have kept := compile_extended race_extended rfl hs hs'
      obtain ⟨bound, related⟩ : s.tagBound = 97 ∧ s.fields.fields.map (fun f => (f.tag, f.related)) =
          [(8, 0), (95, 96), (96, 95), (354, 0), (33, 0), (10, 0)] := by
        simpa [hs, Except.map] using compiled
      obtain ⟨bound', related'⟩ : s'.tagBound = 103 ∧
          s'.fields.fields.map (fun f => (f.tag, f.related)) =
            [(8, 0), (95, 96), (96, 95), (354, 101), (33, 0), (10, 0), (101, 354), (102, 0)] := by
        simpa [hs', Except.map] using compiled'
      exact ⟨race_extended, s, s', rfl, rfl, kept, by rw [bound, bound'], related, related'⟩

end Spec

end FixTables
