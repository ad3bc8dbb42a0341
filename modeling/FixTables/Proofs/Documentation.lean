import FixTables.Proofs.IncrementalPairing
import FixTables.Proofs.SectionSearch
import FixTables.Proofs.WrittenAlike

namespace FixTables

/-- Attributes that differ at most in what documents an element, in whether it is required, and in
which of the allowed categories it gives, if any. -/
structure Attributes.SameData (as as' : Attributes) : Prop where
  others : ∀ key, key ≠ "required" → key ≠ "description" → key ≠ "msgcat" →
    as'.get? key = as.get? key
  category : as'.get? "msgcat" = as.get? "msgcat" ∨
    as.get? "msgcat" ∈ [none, some "admin", some "app"] ∧
      as'.get? "msgcat" ∈ [none, some "admin", some "app"]

/-- Forests of elements that differ at most in such attributes. -/
inductive Node.Redocumented : List Node → List Node → Prop
  | nil : Redocumented [] []
  | cons {name : String} {as as' : Attributes} {cs cs' ns ns' : List Node} :
      as.SameData as' → Redocumented cs cs' → Redocumented ns ns' →
      Redocumented (⟨name, as, cs⟩ :: ns) (⟨name, as', cs'⟩ :: ns')

namespace Attributes

namespace SameData

variable {as as' : Attributes}

theorem refl (as : Attributes) : as.SameData as := ⟨fun _ _ _ _ => rfl, .inl rfl⟩

theorem symm (h : as.SameData as') : as'.SameData as where
  others key required description category := (h.others key required description category).symm
  category := h.category.imp Eq.symm And.symm

theorem insert (as : Attributes) {name : String} (h : name = "required" ∨ name = "description")
    (value : String) : as.SameData (as.insert name value) where
  others key required description _ := by
    apply get?_insert_of_ne
    rintro rfl
    exact h.elim required description
  category := by
    refine .inl (get?_insert_of_ne ?_ as value)
    rintro rfl
    simp at h

theorem categorize (as : Attributes) (value : String)
    (before : as.get? "msgcat" ∈ [none, some "admin", some "app"])
    (h : value = "admin" ∨ value = "app") : as.SameData (as.insert "msgcat" value) where
  others _ _ _ category := get?_insert_of_ne category as value
  category := by
    refine .inr ⟨before, ?_⟩
    rw [get?_insert_self]
    rcases h with rfl | rfl <;> simp

end SameData

end Attributes

namespace Node

variable {n n' root root' : Node} {ns ns' : List Node}

namespace Redocumented

theorem refl (ns : List Node) : Redocumented ns ns := by
  induction ns using forest_induction with
  | nil => exact .nil
  | cons n ns inner rest =>
    cases n with
    | mk name attributes children => exact .cons (.refl attributes) inner rest

theorem symm (h : Redocumented ns ns') : Redocumented ns' ns := by
  induction h with
  | nil => exact .nil
  | cons same _ _ inner rest => exact .cons same.symm inner rest

theorem forall₂ (h : Redocumented ns ns') :
    List.Forall₂ (fun n n' => Redocumented [n] [n']) ns ns' := by
  induction h with
  | nil => exact .nil
  | cons same inner _ _ rest => exact .cons (.cons same inner .nil) rest

theorem of_single (h : Redocumented [n] [n']) :
    n'.name = n.name ∧ n.attributes.SameData n'.attributes ∧ Redocumented n.children n'.children := by
  cases h with
  | cons same inner _ => exact ⟨rfl, same, inner⟩

theorem get (h : Redocumented [n] [n']) (key : String) (required : key ≠ "required")
    (description : key ≠ "description") (category : key ≠ "msgcat") :
    n'.attribute? key = n.attribute? key :=
  h.of_single.2.1.others key required description category

theorem getD (h : Redocumented [n] [n']) (key : String) (required : key ≠ "required")
    (description : key ≠ "description") (category : key ≠ "msgcat") :
    n'.attributeD key = n.attributeD key := by
  rw [Node.attributeD, Node.attributeD, h.get key required description category]

theorem childrenNamed (h : Redocumented [n] [n']) (name : String) :
    List.Forall₂ (fun n n' => Redocumented [n] [n']) (n.childrenNamed name)
      (n'.childrenNamed name) :=
  childrenNamed_forall₂ (fun _ _ h => h.of_single.1) h.of_single.2.2.forall₂ name

theorem find (h : Redocumented [root] [root']) (name : String) :
    Option.Rel (fun n n' => Redocumented [n] [n']) (root.find? name) (root'.find? name) := by
  rw [find?_eq_findIn?, find?_eq_findIn?]
  refine findIn?_rel (fun _ _ h => h.of_single.1) ?_ h.of_single.2.2.forall₂
  intro n n' h
  exact ⟨n'.children, [], by simp, h.of_single.2.2.forall₂, rfl⟩

/-- Whatever is said of presence, the members declared are the same but for their flags. -/
theorem ofNodes_unflagged (h : Redocumented ns ns') :
    (Member.ofNodes ns).map Member.unflagged = (Member.ofNodes ns').map Member.unflagged := by
  induction h with
  | nil => rfl
  | @cons name as as' cs cs' ns ns' same _ _ inner rest =>
    simp only [Member.ofNodes, Member.ofNode?]
    cases MemberKind.ofElement? name with
    | none => exact rest
    | some kind =>
      have named := same.others "name" (by decide) (by decide) (by decide)
      simp only [Option.map_some, List.map_cons, Member.unflagged, Member.unflaggedAll_eq_map, inner,
        rest, named]

theorem childrenOf_unflagged (h : Redocumented [n] [n']) :
    (Member.childrenOf n).map Member.unflagged = (Member.childrenOf n').map Member.unflagged :=
  h.of_single.2.2.ofNodes_unflagged

end Redocumented

end Node

open Node (Redocumented)

namespace Field

variable {n n' : Node} {f : Field}

/-- A field without what only documents it. -/
def undocumented (f : Field) : Field := { f with values := [], description := none }

theorem undocumented_isView : IsView undocumented where
  tag _ := rfl
  name _ := rfl
  moved _ _ := rfl

theorem ofNode_follows (h : Redocumented [n] [n']) (hf : ofNode n = .ok f) :
    ∃ f', ofNode n' = .ok f' ∧ f.undocumented = f'.undocumented := by
  have name := h.getD "name" (by decide) (by decide) (by decide)
  have number := h.get "number" (by decide) (by decide) (by decide)
  have typed := h.getD "type" (by decide) (by decide) (by decide)
  have codes := map_eq_of_forall₂ (h.childrenNamed "value") fun _ _ hv =>
    (hv.get "enum" (by decide) (by decide) (by decide)).symm
  obtain ⟨named, coded, tag, type, givesTag, givesType, rfl⟩ := ofNode_eq_ok_iff.mp hf
  rw [← name] at named
  rw [GivesTag, ← number] at givesTag
  rw [GivesType, ← typed] at givesType
  refine ⟨_, ofNode_eq_ok_iff.mpr ⟨named, coded.of_codes codes.symm, tag, type, givesTag,
    givesType, rfl⟩, ?_⟩
  simp only [undocumented, name]

theorem undocumented_foldl_relatedBy (f : Field) (pairs : List (Nat × Nat)) :
    (pairs.foldl relatedBy f).undocumented = pairs.foldl relatedBy f.undocumented := by
  refine (List.foldl_hom undocumented fun f pair => ?_).symm
  unfold relatedBy undocumented
  dsimp only
  split
  next => rfl
  next => split <;> rfl

end Field

namespace FieldRegistry

variable {fs fs' : List Field}

/-- What documents fields has no part in pairing them. -/
theorem paired_undocumented (h : Unrelated fs) (h' : Unrelated fs')
    (same : fs.map Field.undocumented = fs'.map Field.undocumented) :
    (paired fs).fields.map Field.undocumented = (paired fs').fields.map Field.undocumented := by
  have pairs : (FieldRegistry.mk fs).lengthPairs = (FieldRegistry.mk fs').lengthPairs := by
    have seen (fs : List Field) := pairUp_map (g := Field.undocumented) (fun _ => ⟨rfl, rfl, rfl⟩)
      fs [] fs
    rw [h.lengthPairs, h'.lengthPairs, ← seen fs, ← seen fs', same]
  have seen (fs : List Field) (pairs : List (Nat × Nat)) :
      (pairs.foldl relate ⟨fs⟩).fields.map Field.undocumented =
        (fs.map Field.undocumented).map fun f => pairs.foldl Field.relatedBy f := by
    simp [foldl_relate_fields, Field.undocumented_foldl_relatedBy]
  rw [paired, paired, seen, seen, same, pairs]

/-- A section with fields that are documented in another way declares them alike. -/
theorem ofSection_follows {n n' : Node} {r : FieldRegistry} (h : Redocumented [n] [n'])
    (hr : (ofSection n).outcome = .ok r) :
    ∃ r', (ofSection n').outcome = .ok r' ∧ r.AlikeBy Field.undocumented r' := by
  obtain ⟨fs, read, names, tags, hp⟩ := ofSection_eq_ok_iff.mp hr
  obtain ⟨fs', read', same⟩ := except_mapM_follows (h.childrenNamed "field")
    (fun _ _ _ => Field.ofNode_follows) read
  have names' : fs.map (·.name) = fs'.map (·.name) := by
    simpa [Function.comp_def, Field.undocumented] using congrArg (List.map Field.name) same
  have tags' : fs.map (·.tag) = fs'.map (·.tag) := by
    simpa [Function.comp_def, Field.undocumented] using congrArg (List.map Field.tag) same
  have unrelated := unrelated_of_read read names tags
  have unrelated' := unrelated_of_read read' (names' ▸ names) (tags' ▸ tags)
  obtain rfl := Except.ok.inj hp
  refine ⟨paired fs', ofSection_eq_ok_iff.mpr ⟨fs', read', unrelated'.names_distinct,
    unrelated'.tags_distinct, rfl⟩, ?_⟩
  exact .of_eq (paired_undocumented unrelated unrelated' same)

end FieldRegistry

namespace Message

variable {n n' : Node} {header trailer header' trailer' : List Member} {m : Message}

theorem Declared.follow (h : Redocumented [n] [n']) (declared : Declared n) : Declared n' := by
  have name := h.getD "name" (by decide) (by decide) (by decide)
  have type := h.getD "msgtype" (by decide) (by decide) (by decide)
  refine ⟨name ▸ declared.name_ne, type ▸ declared.type_ne, type ▸ declared.type_length, ?_⟩
  intro raw hraw
  rcases h.of_single.2.1.category with same | ⟨-, allowed⟩
  · exact declared.category raw (same.symm.trans hraw)
  · have hraw : n'.attributes.get? "msgcat" = some raw := hraw
    simpa [hraw] using allowed

/-- All of a read message that matters to its tables. -/
theorem ofNode_unflagged (h : ofNode header trailer n = .ok m) :
    m.unflagged = ⟨n.attributeD "name", n.attributeD "msgtype", .app, none,
      header.map Member.unflagged, (Member.childrenOf n).map Member.unflagged,
      trailer.map Member.unflagged⟩ := by
  simp only [ofNode, except_bind_eq_ok_iff, make_eq_ok_iff] at h
  obtain ⟨_, ⟨_, _, _, rfl⟩, _, _, h⟩ := h
  obtain rfl := Except.ok.inj h
  rfl

theorem ofNode_follows (h : Redocumented [n] [n'])
    (headers : header.map Member.unflagged = header'.map Member.unflagged)
    (trailers : trailer.map Member.unflagged = trailer'.map Member.unflagged)
    (hm : ofNode header trailer n = .ok m) :
    ∃ m', ofNode header' trailer' n' = .ok m' ∧ m.unflagged = m'.unflagged := by
  have declared := (ofNode_succeeds_iff header trailer n).mp ⟨m, hm⟩
  obtain ⟨m', hm'⟩ := (ofNode_succeeds_iff header' trailer' n').mpr (declared.follow h)
  refine ⟨m', hm', ?_⟩
  rw [ofNode_unflagged hm, ofNode_unflagged hm', headers, trailers, h.childrenOf_unflagged,
    h.getD _ (by decide) (by decide) (by decide), h.getD _ (by decide) (by decide) (by decide)]

end Message

theorem MessageRegistry.ofSection_follows {header trailer header' trailer' : List Member}
    {n n' : Node} {r : MessageRegistry} (h : Redocumented [n] [n'])
    (headers : header.map Member.unflagged = header'.map Member.unflagged)
    (trailers : trailer.map Member.unflagged = trailer'.map Member.unflagged)
    (hr : (ofSection header trailer n).outcome = .ok r) :
    ∃ r', (ofSection header' trailer' n').outcome = .ok r' ∧
      r.messages.map Message.unflagged = r'.messages.map Message.unflagged := by
  obtain ⟨ms, read, types, names, rfl⟩ := ofSection_eq_ok_iff.mp hr
  obtain ⟨ms', read', same⟩ := except_mapM_follows (h.childrenNamed "message")
    (fun _ _ _ hn hm => Message.ofNode_follows hn headers trailers hm) read
  have types' : ms.map (·.msgType) = ms'.map (·.msgType) := by
    simpa [Function.comp_def, Message.unflagged] using congrArg (List.map Message.msgType) same
  have names' : ms.map (·.name) = ms'.map (·.name) := by
    simpa [Function.comp_def, Message.unflagged] using congrArg (List.map Message.name) same
  exact ⟨⟨ms'⟩, ofSection_eq_ok_iff.mpr ⟨ms', read', types' ▸ types, names' ▸ names,
    rfl⟩, same⟩

namespace Spec

variable {root root' : Node}

theorem componentNodes_follow (h : Redocumented [root] [root']) :
    List.Forall₂ (fun n n' => Redocumented [n] [n']) (componentNodes root)
      (componentNodes root') := by
  have found := h.find "components"
  unfold componentNodes
  generalize root.find? "components" = first, root'.find? "components" = second at found ⊢
  cases found with
  | none => exact .nil
  | some hn => exact hn.childrenNamed "component"

theorem componentsOf_follows (h : Redocumented [root] [root']) {r : ComponentRegistry}
    (hr : (componentsOf root).outcome = .ok r) :
    ∃ r', (componentsOf root').outcome = .ok r' ∧
      r.components.map Component.unflagged = r'.components.map Component.unflagged := by
  have nodes := componentNodes_follow h
  have names : (componentNodes root).map (·.attributeD "name") =
      (componentNodes root').map (·.attributeD "name") :=
    map_eq_of_forall₂ nodes fun _ _ h => (h.getD _ (by decide) (by decide) (by decide)).symm
  obtain ⟨named, distinct, rfl⟩ := componentsOf_eq_ok_iff.mp hr
  refine ⟨declaredComponents root', componentsOf_eq_ok_iff.mpr ⟨?_, names ▸ distinct, rfl⟩, ?_⟩
  · have named : ∀ name ∈ (componentNodes root).map (·.attributeD "name"), name ≠ "" := by
      simpa using named
    rw [names] at named
    simpa using named
  · simp only [declaredComponents, List.map_map]
    refine map_eq_of_forall₂ nodes fun n n' h => ?_
    simp only [Function.comp_apply, Component.unflagged, h.childrenOf_unflagged,
      h.getD "name" (by decide) (by decide) (by decide)]

end Spec

/-- Declarations that are documented in another way are read as the same but for flags. -/
theorem Declarations.ReadFrom.redocumented {d : Declarations} {root root' : Node}
    {sections : Spec.Sections} (h : Redocumented [root] [root']) (read : d.ReadFrom root sections) :
    ∃ (d' : Declarations) (sections' : Spec.Sections),
      d'.ReadFrom root' sections' ∧ d.Alike Field.undocumented d' := by
  obtain ⟨version, found, header, trailer, fields, components, messages⟩ := read
  obtain ⟨sections', found', hf, hh, ht, hm⟩ := found.follow fun name _ => h.find name
  have headers := header ▸ hh.childrenOf_unflagged
  have trailers := trailer ▸ ht.childrenOf_unflagged
  obtain ⟨fields', fields_declared, fields_alike⟩ := FieldRegistry.ofSection_follows hf fields
  obtain ⟨components', components_declared, components_alike⟩ :=
    Spec.componentsOf_follows h components
  obtain ⟨messages', messages_declared, messages_alike⟩ :=
    MessageRegistry.ofSection_follows hm headers trailers messages
  have same : Version.ofNode root' = Version.ofNode root := by
    apply Version.ofNode_congr h.of_single.1
    intro key hkey
    apply h.get <;> rintro rfl <;> simp at hkey
  exact ⟨⟨d.version, Member.childrenOf sections'.header, Member.childrenOf sections'.trailer,
      fields', components', messages'⟩, sections',
    ⟨same.trans version, found', rfl, rfl, fields_declared, components_declared,
      messages_declared⟩,
    ⟨rfl, headers, trailers, fields_alike, .of_eq components_alike, .of_eq messages_alike⟩⟩

/-- Descriptions, presence and the categories of messages leave no trace in generated text. -/
theorem generateNode_of_redocumented {root root' : Node} (h : Redocumented [root] [root'])
    (config : CompilerConfig) (emitter : EmitterConfig) (text : String) :
    (generateNode root config emitter).outcome = .ok text ↔
      (generateNode root' config emitter).outcome = .ok text := by
  have shown : ∀ f : Field, f.undocumented.row = f.row := fun _ => rfl
  constructor
  · exact generateNode_follows Field.undocumented_isView shown fun _ _ read => read.redocumented h
  · exact generateNode_follows Field.undocumented_isView shown
      fun _ _ read => read.redocumented h.symm

/-- A small dictionary that may say more about itself, about its message and about a member. -/
def logonDictionary (root message member : Attributes → Attributes) : Node :=
  let named (element name : String) := (Node.leaf element).withAttribute "name" name
  let fix := ((Node.leaf "fix").withAttribute "major" "4").withAttribute "minor" "4"
  let logon := (named "message" "Logon").withAttribute "msgtype" "A"
  let text := named "field" "Text"
  { fix with
    attributes := root fix.attributes
    children := [
      { Node.leaf "fields" with
        children := [FieldRegistry.fieldNode "8" "BeginString" "STRING",
          FieldRegistry.fieldNode "58" "Text" "STRING",
          FieldRegistry.fieldNode "10" "CheckSum" "STRING"] },
      (Node.leaf "header").append (named "field" "BeginString"),
      (Node.leaf "trailer").append (named "field" "CheckSum"),
      { Node.leaf "messages" with
        children := [{ logon with
          attributes := message logon.attributes
          children := [{ text with attributes := member text.attributes }] }] }] }

theorem generateNode_of_redocumented_of_logon :
    let silent := logonDictionary id id id
    let telling := logonDictionary (·.insert "description" "Session layer")
      (·.insert "msgcat" "admin") (·.insert "required" "maybe")
    Redocumented [silent] [telling] ∧
      ∃ text, (generateNode silent .default .default).outcome = .ok text ∧
        (generateNode telling .default .default).outcome = .ok text := by
  have compiled : (Spec.compile (logonDictionary id id id) .default).outcome.map (fun _ => ()) =
      .ok () := by
    cbv
  intro silent telling
  have message : Attributes.SameData _ _ := .categorize
    (((Node.leaf "message").withAttribute "name" "Logon").withAttribute "msgtype" "A").attributes
    "admin" (by decide) (.inl rfl)
  have redocumented : Redocumented [silent] [telling] :=
    .cons (.insert _ (.inr rfl) "Session layer")
      (.cons (.refl _) (.refl _)
        (.cons (.refl _) (.refl _)
          (.cons (.refl _) (.refl _)
            (.cons (.refl _) (.cons message (.cons (.insert _ (.inl rfl) "maybe") .nil .nil) .nil)
              .nil)))) .nil
  cases hs : (Spec.compile silent .default).outcome with
  | error => simp [silent, hs, Except.map] at compiled
  | ok s =>
    have written : (generateNode silent .default .default).outcome = .ok (s.source .default) :=
      generateNode_eq_ok_iff.mpr ⟨s, hs, rfl⟩
    exact ⟨redocumented, _, written,
      (generateNode_of_redocumented redocumented .default .default _).mp written⟩

end FixTables
