import FixTables.Proofs.IncrementalPairing
import FixTables.Proofs.SectionSearch
import FixTables.Proofs.WrittenAlike

namespace FixTables

namespace Node

/-- Every element with the name of a section is a child of the root. -/
def SectionsOnTop (root : Node) : Prop :=
  ∀ name ∈ sectionNames, ∀ c ∈ root.children, c.find? name = none

/-- The same element with what it holds in another order. -/
structure Shuffled (n n' : Node) : Prop where
  name_eq : n'.name = n.name
  attributes_eq : n'.attributes = n.attributes
  children_perm : n.children.Perm n'.children

/-- Documents that differ at most in the order of what the children of the root with one of the
names hold. -/
structure Reordered (names : List String) (root root' : Node) : Prop where
  name_eq : root'.name = root.name
  attributes_eq : root'.attributes = root.attributes
  children : List.Forall₂ (fun n n' => n' = n ∨ n.name ∈ names ∧ n.Shuffled n')
    root.children root'.children

variable {n n' root root' : Node} {names : List String} {name : String}

theorem Shuffled.symm (h : n.Shuffled n') : n'.Shuffled n :=
  ⟨h.name_eq.symm, h.attributes_eq.symm, h.children_perm.symm⟩

theorem Shuffled.find_eq_none_iff (h : n.Shuffled n') (name : String) :
    n'.find? name = none ↔ n.find? name = none := by
  rw [find?_eq_findIn?, find?_eq_findIn?, findIn?_eq_none_iff, findIn?_eq_none_iff]
  exact forall_congr' fun c => imp_congr_left h.children_perm.mem_iff.symm

namespace Reordered

theorem symm (h : Reordered names root root') : Reordered names root' root := by
  refine ⟨h.name_eq.symm, h.attributes_eq.symm, h.children.flip.imp ?_⟩
  rintro n' n (rfl | ⟨hn, shuffled⟩)
  · exact .inl rfl
  · exact .inr ⟨shuffled.name_eq ▸ hn, shuffled.symm⟩

theorem sectionsOnTop (h : Reordered names root root') (top : root.SectionsOnTop) :
    root'.SectionsOnTop := by
  intro name hname c' hc'
  obtain ⟨c, hc, rfl | ⟨-, shuffled⟩⟩ := exists_mem_of_forall₂ h.children.flip hc'
  · exact top name hname _ hc
  · exact (shuffled.find_eq_none_iff name).mpr (top name hname c hc)

theorem find (h : Reordered names root root') (top : root.SectionsOnTop)
    (hname : name ∈ sectionNames) :
    Option.Rel (fun n n' => n' = n ∨ n.name ∈ names ∧ n.Shuffled n') (root.find? name)
      (root'.find? name) := by
  -- The search stays on top, so it does not see into what has been put in another order.
  rw [find?_eq_findIn?, find?_eq_findIn?, findIn?_eq_find? (top name hname),
    findIn?_eq_find? (h.sectionsOnTop top name hname)]
  refine find?_rel_of_forall₂ h.children ?_
  rintro n n' (rfl | ⟨-, shuffled⟩)
  · rfl
  · rw [shuffled.name_eq]

/-- A section whose name is not among those given is the same in both documents. -/
theorem find_eq (h : Reordered names root root') (top : root.SectionsOnTop)
    (hname : name ∈ sectionNames) (kept : name ∉ names) : root'.find? name = root.find? name := by
  have found := h.find top hname
  cases hn : root.find? name with
  | none =>
    rw [hn] at found
    generalize root'.find? name = second at found ⊢
    cases found
    rfl
  | some n =>
    obtain ⟨n', hn', rfl | ⟨moved, -⟩⟩ := exists_of_rel found hn
    · exact hn'
    · exact absurd (Spec.name_of_find hn ▸ moved) kept

end Reordered

/-- What a section holds under a name is the same, if in another order. -/
theorem childrenNamed_perm (h : n' = n ∨ n.name ∈ names ∧ n.Shuffled n') (name : String) :
    (n.childrenNamed name).Perm (n'.childrenNamed name) := by
  rcases h with rfl | ⟨-, shuffled⟩
  · rfl
  · exact shuffled.children_perm.filter _

end Node

open Node (Reordered)

/-- A field without its partner. -/
def Field.unpaired (f : Field) : Field := { f with related := 0 }

theorem Field.unpaired_isView : IsView unpaired where
  tag _ := rfl
  name _ := rfl
  moved _ _ := rfl

namespace Field

variable {f f' : Field}

theorem unpaired_foldl_relatedBy (f : Field) (pairs : List (Nat × Nat)) :
    (pairs.foldl relatedBy f).unpaired = f.unpaired := by
  rw [foldl_relatedBy_eq]
  rfl

theorem row_of_unpaired_eq (h : f.unpaired = f'.unpaired) :
    f'.row = { f.row with related := f'.row.related } := by
  cases f
  cases f'
  obtain ⟨rfl, rfl, rfl, rfl, -⟩ := Field.mk.inj h
  rfl

end Field

namespace FieldRegistry

variable {n n' : Node} {r : FieldRegistry}

/-- Fields that are declared in another order get another order and other partners, at most. -/
theorem ofSection_reordered (hp : (n.childrenNamed "field").Perm (n'.childrenNamed "field"))
    (hr : (ofSection n).outcome = .ok r) :
    ∃ r', (ofSection n').outcome = .ok r' ∧ r.AlikeBy Field.unpaired r' := by
  obtain ⟨fs, read, names, tags, paired_eq⟩ := ofSection_eq_ok_iff.mp hr
  obtain ⟨fs', read', same⟩ := except_mapM_perm hp read
  obtain rfl := Except.ok.inj paired_eq
  refine ⟨paired fs', ofSection_eq_ok_iff.mpr ⟨fs', read', (same.map _).nodup_iff.mp names,
    (same.map _).nodup_iff.mp tags, rfl⟩, ?_⟩
  have seen (fs : List Field) (pairs : List (Nat × Nat)) :
      (pairs.foldl relate ⟨fs⟩).fields.map Field.unpaired = fs.map Field.unpaired := by
    simp [foldl_relate_fields, Field.unpaired_foldl_relatedBy]
  rw [AlikeBy, paired, seen, seen]
  exact same.map _

end FieldRegistry

theorem MessageRegistry.ofSection_reordered {header trailer : List Member} {n n' : Node}
    {r : MessageRegistry} (hp : (n.childrenNamed "message").Perm (n'.childrenNamed "message"))
    (hr : (ofSection header trailer n).outcome = .ok r) :
    ∃ r', (ofSection header trailer n').outcome = .ok r' ∧ r.messages.Perm r'.messages := by
  obtain ⟨ms, read, types, names, rfl⟩ := ofSection_eq_ok_iff.mp hr
  obtain ⟨ms', read', same⟩ := except_mapM_perm hp read
  exact ⟨⟨ms'⟩, ofSection_eq_ok_iff.mpr ⟨ms', read', (same.map _).nodup_iff.mp types,
    (same.map _).nodup_iff.mp names, rfl⟩, same⟩

theorem Spec.componentsOf_reordered {root root' : Node} {r : ComponentRegistry}
    (hp : (componentNodes root).Perm (componentNodes root'))
    (hr : (componentsOf root).outcome = .ok r) :
    ∃ r', (componentsOf root').outcome = .ok r' ∧ r.components.Perm r'.components := by
  obtain ⟨named, distinct, rfl⟩ := componentsOf_eq_ok_iff.mp hr
  exact ⟨declaredComponents root', componentsOf_eq_ok_iff.mpr
    ⟨fun n hn => named n (hp.mem_iff.mpr hn), (hp.map _).nodup_iff.mp distinct, rfl⟩, hp.map _⟩

namespace Declarations

variable {d : Declarations} {root root' : Node} {sections : Spec.Sections}

theorem ReadFrom.version_reordered {names : List String} (h : Reordered names root root')
    (read : d.ReadFrom root sections) : Version.ofNode root' = .ok d.version := by
  rw [Version.ofNode_congr h.name_eq fun key _ => by rw [Node.attribute?, h.attributes_eq]; rfl]
  exact read.version_read

theorem alike_of_perm {view : Field → Field} {fields : FieldRegistry}
    {components : ComponentRegistry} {messages : MessageRegistry}
    (same_fields : d.fields.AlikeBy view fields)
    (same_components : d.components.components.Perm components.components)
    (same_messages : d.messages.messages.Perm messages.messages) :
    d.Alike view { d with fields, components, messages } :=
  ⟨rfl, rfl, rfl, same_fields, same_components.map _, same_messages.map _⟩

/-- Messages and components that are declared in another order are read in another order. -/
theorem ReadFrom.members_reordered (h : Reordered ["components", "messages"] root root')
    (top : root.SectionsOnTop) (read : d.ReadFrom root sections) :
    ∃ (d' : Declarations) (sections' : Spec.Sections),
      d'.ReadFrom root' sections' ∧ d.Alike id d' := by
  have version := read.version_reordered h
  obtain ⟨-, found, header, trailer, fields, components, messages⟩ := read
  obtain ⟨messages', hm, order⟩ := exists_of_rel (h.find top (by decide)) found.messages
  have nodes : (Spec.componentNodes root).Perm (Spec.componentNodes root') := by
    have found := h.find top (show "components" ∈ Node.sectionNames by decide)
    unfold Spec.componentNodes
    generalize root.find? "components" = first, root'.find? "components" = second at found ⊢
    cases found with
    | none => rfl
    | some order => exact Node.childrenNamed_perm order "component"
  obtain ⟨components', components_declared, same_components⟩ :=
    Spec.componentsOf_reordered nodes components
  obtain ⟨registry', messages_declared, same_messages⟩ :=
    MessageRegistry.ofSection_reordered (Node.childrenNamed_perm order "message") messages
  have kept {name : String} (hname : name ∈ Node.sectionNames)
      (other : name ∉ ["components", "messages"]) := h.find_eq top hname other
  refine ⟨{ d with components := components', messages := registry' },
    { sections with messages := messages' }, ⟨version, ⟨?_, ?_, ?_, hm⟩, header, trailer,
    fields, components_declared, messages_declared⟩,
    alike_of_perm (.refl _) same_components same_messages⟩
  · exact (kept (by decide) (by decide)).trans found.fields
  · exact (kept (by decide) (by decide)).trans found.header
  · exact (kept (by decide) (by decide)).trans found.trailer

/-- Fields that are declared in another order are read in another order and paired in another way. -/
theorem ReadFrom.fields_reordered (h : Reordered ["fields"] root root')
    (top : root.SectionsOnTop) (read : d.ReadFrom root sections) :
    ∃ (d' : Declarations) (sections' : Spec.Sections),
      d'.ReadFrom root' sections' ∧ d.Alike Field.unpaired d' := by
  have version := read.version_reordered h
  obtain ⟨-, found, header, trailer, fields, components, messages⟩ := read
  obtain ⟨fields', hf, order⟩ := exists_of_rel (h.find top (by decide)) found.fields
  obtain ⟨registry', fields_declared, same_fields⟩ :=
    FieldRegistry.ofSection_reordered (Node.childrenNamed_perm order "field") fields
  have kept {name : String} (hname : name ∈ Node.sectionNames) (other : name ∉ ["fields"]) :=
    h.find_eq top hname other
  have components_declared : (Spec.componentsOf root').outcome = .ok d.components := by
    rw [Spec.componentsOf, kept (by decide) (by decide)]
    exact components
  refine ⟨{ d with fields := registry' }, { sections with fields := fields' }, ⟨version, ⟨hf, ?_, ?_, ?_⟩, header, trailer,
    fields_declared, components_declared, messages⟩,
    alike_of_perm same_fields (.refl _) (.refl _)⟩
  · exact (kept (by decide) (by decide)).trans found.header
  · exact (kept (by decide) (by decide)).trans found.trailer
  · exact (kept (by decide) (by decide)).trans found.messages

end Declarations

/-- Texts of one listing and of another that differs from it at most in the partners that the rows
of its tag table name. -/
def SameButRelated (c : EmitterConfig) (text text' : String) : Prop :=
  ∃ (l : Listing) (rows' : List TagRow),
    List.Forall₂ (fun r r' => r' = { r with related := r'.related }) l.rows rows' ∧
    text = String.join ((l.linesBefore c ++ l.rows.map (·.sourceLine) ++ l.linesAfter c).map
      (· ++ "\n")) ∧
    text' = String.join ((l.linesBefore c ++ rows'.map (·.sourceLine) ++ l.linesAfter c).map
      (· ++ "\n"))

theorem Spec.Alike.source_sameButRelated {s s' : Spec} (h : s.Alike Field.unpaired s')
    (c : EmitterConfig) : SameButRelated c (s.source c) (s'.source c) := by
  have fields : List.Forall₂ (fun f f' => Field.unpaired f = Field.unpaired f')
      s.fields.sortedByTag s'.fields.sortedByTag := by
    have sorted := h.fields_sorted Field.unpaired_isView
    rwa [← List.forall₂_eq_eq_eq, List.forall₂_map_left_iff, List.forall₂_map_right_iff] at sorted
  have rows : List.Forall₂ (fun r r' => r' = { r with related := r'.related })
      s.tagRows s'.tagRows :=
    List.forall₂_map_left_iff.mpr (List.forall₂_map_right_iff.mpr
      (fields.imp fun _ _ => Field.row_of_unpaired_eq))
  have before : (s'.listing c.emitGroups).linesBefore c = (s.listing c.emitGroups).linesBefore c := by
    rw [h.listing]
    exact Listing.linesBefore_congr c (s.listing c.emitGroups) rows.length_eq
  refine ⟨s.listing c.emitGroups, s'.tagRows, rows, ?_, ?_⟩
  · rw [Spec.source, Listing.sourceLines_around_rows]
  · rw [Spec.source, Listing.sourceLines_around_rows, before, h.listing]
    rfl

/-- The order in which messages and components are declared leaves no trace in generated text, and
that of fields decides on nothing but the partners of length fields. -/
theorem generateNode_of_reordered {root : Node} (top : root.SectionsOnTop) (root' : Node)
    (config : CompilerConfig) (emitter : EmitterConfig) :
    (Reordered ["components", "messages"] root root' → ∀ text,
      (generateNode root config emitter).outcome = .ok text ↔
        (generateNode root' config emitter).outcome = .ok text) ∧
    (Reordered ["fields"] root root' →
      ((∃ text, (generateNode root config emitter).outcome = .ok text) ↔
        ∃ text', (generateNode root' config emitter).outcome = .ok text') ∧
      ∀ text text', (generateNode root config emitter).outcome = .ok text →
        (generateNode root' config emitter).outcome = .ok text' →
          SameButRelated emitter text text') := by
  have plain : Field.IsView id := ⟨fun _ => rfl, fun _ => rfl, fun _ _ => rfl⟩
  have follows {root root' : Node} (top : root.SectionsOnTop) (h : Reordered ["fields"] root root')
      {s : Spec} (hs : (Spec.compile root config).outcome = .ok s) :
      ∃ s', (Spec.compile root' config).outcome = .ok s' ∧ s.Alike Field.unpaired s' :=
    Spec.compile_follows Field.unpaired_isView (fun _ _ read => read.fields_reordered h top) hs
  refine ⟨fun h text => ⟨?_, ?_⟩, fun h => ⟨⟨?_, ?_⟩, ?_⟩⟩
  · exact generateNode_follows plain (fun _ => rfl) fun _ _ read => read.members_reordered h top
  · exact generateNode_follows plain (fun _ => rfl)
      fun _ _ read => read.members_reordered h.symm (h.sectionsOnTop top)
  · rintro ⟨text, written⟩
    obtain ⟨s, hs, rfl⟩ := generateNode_eq_ok_iff.mp written
    obtain ⟨s', hs', -⟩ := follows top h hs
    exact ⟨_, generateNode_eq_ok_iff.mpr ⟨s', hs', rfl⟩⟩
  · rintro ⟨text, written⟩
    obtain ⟨s, hs, rfl⟩ := generateNode_eq_ok_iff.mp written
    obtain ⟨s', hs', -⟩ := follows (h.sectionsOnTop top) h.symm hs
    exact ⟨_, generateNode_eq_ok_iff.mpr ⟨s', hs', rfl⟩⟩
  · intro text text' written written'
    obtain ⟨s, hs, rfl⟩ := generateNode_eq_ok_iff.mp written
    obtain ⟨s', hs', rfl⟩ := generateNode_eq_ok_iff.mp written'
    obtain ⟨t, ht, alike⟩ := follows top h hs
    obtain rfl := Except.ok.inj (ht.symm.trans hs')
    exact alike.source_sameButRelated emitter

/-- A dictionary of fields, components and messages in given orders. It has two length fields that
can count the bytes of one data field, and two messages whose names give one identifier. -/
def rivals (fieldOrder memberOrder : List Node → List Node) : Node :=
  let named (element name : String) := (Node.leaf element).withAttribute "name" name
  { ((Node.leaf "fix").withAttribute "major" "4").withAttribute "minor" "4" with
    children := [
      { Node.leaf "fields" with
        children := fieldOrder [FieldRegistry.fieldNode "8" "BeginString" "STRING",
          FieldRegistry.fieldNode "95" "RawDataLength" "LENGTH",
          FieldRegistry.fieldNode "96" "RawData" "DATA",
          FieldRegistry.fieldNode "383" "RawDataLen" "LENGTH",
          FieldRegistry.fieldNode "10" "CheckSum" "STRING"] },
      { Node.leaf "components" with
        children := memberOrder [(named "component" "Outer").append (named "component" "Inner"),
          (named "component" "Inner").append (named "field" "RawData")] },
      (Node.leaf "header").append (named "field" "BeginString"),
      (Node.leaf "trailer").append (named "field" "CheckSum"),
      { Node.leaf "messages" with
        children := memberOrder [((named "message" "NewsItem").withAttribute "msgtype" "N").append
            (named "component" "Outer"),
          (named "message" "News-Item").withAttribute "msgtype" "E"] }] }

set_option maxRecDepth 1000 in
theorem generateNode_of_reordered_of_rivals :
    (rivals id id).SectionsOnTop ∧
      Reordered ["components", "messages"] (rivals id id) (rivals id List.reverse) ∧
      Reordered ["fields"] (rivals id id) (rivals List.reverse id) ∧
      ∃ s s', (Spec.compile (rivals id id) .default).outcome = .ok s ∧
        (Spec.compile (rivals List.reverse id) .default).outcome = .ok s' ∧
        s.fields.fields.map (fun f => (f.tag, f.related)) =
          [(8, 0), (95, 96), (96, 95), (383, 0), (10, 0)] ∧
        s'.fields.fields.map (fun f => (f.tag, f.related)) =
          [(10, 0), (383, 96), (96, 383), (95, 0), (8, 0)] ∧
        (generateNode (rivals id List.reverse) .default .default).outcome =
          .ok (s.source .default) ∧
        SameButRelated .default (s.source .default) (s'.source .default) := by
  have shallow : (Node.sectionNames.all fun name => (rivals id id).children.all fun c =>
      (c.find? name).isNone) = true := by
    cbv
  have top : (rivals id id).SectionsOnTop := by
    simpa only [Node.SectionsOnTop, List.all_eq_true, Option.isNone_iff_eq_none] using shallow
  have reversed {n : Node} : n.Shuffled { n with children := n.children.reverse } :=
    ⟨rfl, rfl, (List.reverse_perm _).symm⟩
  have turns : Reordered ["components", "messages"] (rivals id id) (rivals id List.reverse) :=
    ⟨rfl, rfl, .cons (.inl rfl) (.cons (.inr ⟨by decide, reversed⟩) (.cons (.inl rfl)
      (.cons (.inl rfl) (.cons (.inr ⟨by decide, reversed⟩) .nil))))⟩
  have crosses : Reordered ["fields"] (rivals id id) (rivals List.reverse id) :=
    ⟨rfl, rfl, .cons (.inr ⟨by decide, reversed⟩) (List.forall₂_same.mpr fun _ _ => .inl rfl)⟩
  have compiled : (Spec.compile (rivals id id) .default).outcome.map
      (fun s => s.fields.fields.map fun f => (f.tag, f.related)) =
        .ok [(8, 0), (95, 96), (96, 95), (383, 0), (10, 0)] := by
    cbv
  have compiled' : (Spec.compile (rivals List.reverse id) .default).outcome.map
      (fun s => s.fields.fields.map fun f => (f.tag, f.related)) =
        .ok [(10, 0), (383, 96), (96, 383), (95, 0), (8, 0)] := by
    cbv
  obtain ⟨unmoved, -⟩ := generateNode_of_reordered top (rivals id List.reverse) .default .default
  obtain ⟨-, partners⟩ := generateNode_of_reordered top (rivals List.reverse id) .default .default
  cases hs : (Spec.compile (rivals id id) .default).outcome with
  | error => simp [hs, Except.map] at compiled
  | ok s =>
    cases hs' : (Spec.compile (rivals List.reverse id) .default).outcome with
    | error => simp [hs', Except.map] at compiled'
    | ok s' =>
      have written : (generateNode (rivals id id) .default .default).outcome =
          .ok (s.source .default) :=
        generateNode_eq_ok_iff.mpr ⟨s, hs, rfl⟩
      have written' : (generateNode (rivals List.reverse id) .default .default).outcome =
          .ok (s'.source .default) :=
        generateNode_eq_ok_iff.mpr ⟨s', hs', rfl⟩
      refine ⟨top, turns, crosses, s, s', rfl, rfl, ?_, ?_, (unmoved turns _).mp written,
        (partners crosses).2 _ _ written written'⟩
      · simpa [hs, Except.map] using compiled
      · simpa [hs', Except.map] using compiled'

end FixTables
