import FixTables.Proofs.Registration
import FixTables.Spec

namespace FixTables

namespace Attributes

theorem lookup_insertEntry_of_ne {name key : String} (ne : key ≠ name) (value : String)
    (es : List (String × String)) : (insertEntry name value es).lookup key = es.lookup key := by
  have other : (key == name) = false := by simpa using ne
  induction es with
  | nil => simp [insertEntry, other]
  | cons e es ih =>
    obtain ⟨k, v⟩ := e
    simp only [insertEntry]
    split
    next => simp [List.lookup_cons, other]
    next =>
      split
      next => simp [List.lookup_cons, ih]
      next not_lt not_gt =>
        -- The value is put over one under its own name.
        obtain rfl : name = k :=
          String.le_antisymm (String.not_lt.mp not_gt) (String.not_lt.mp not_lt)
        simp [List.lookup_cons, other]

theorem lookup_insertEntry_self (name value : String) (es : List (String × String)) :
    (insertEntry name value es).lookup name = some value := by
  induction es with
  | nil => simp [insertEntry]
  | cons e es ih =>
    obtain ⟨k, v⟩ := e
    simp only [insertEntry]
    split
    next => simp
    next =>
      split
      next above =>
        have other : (name == k) = false := by
          rw [beq_eq_false_iff_ne]
          rintro rfl
          exact String.lt_irrefl name above
        simp [List.lookup_cons, other, ih]
      next => simp

theorem get?_insert_self (as : Attributes) (name value : String) :
    (as.insert name value).get? name = some value :=
  lookup_insertEntry_self name value as.entries

theorem get?_insert_of_ne {name key : String} (ne : key ≠ name) (as : Attributes) (value : String) :
    (as.insert name value).get? key = as.get? key :=
  lookup_insertEntry_of_ne ne value as.entries

end Attributes

theorem MemberKind.element_of_ofElement {name : String} {kind : MemberKind}
    (h : MemberKind.ofElement? name = some kind) : kind.element = name := by
  simpa using List.find?_some h

namespace Member

theorem ofNode?_eq_some_iff {n : Node} {m : Member} :
    ofNode? n = some m ↔ ∃ kind, MemberKind.ofElement? n.name = some kind ∧
      m = ⟨n.attributeD "name", kind, n.attribute? "required" = some "Y",
        (n.attribute? "required").isSome, childrenOf n⟩ := by
  cases n
  simp only [ofNode?, Option.map_eq_some_iff, eq_comm (b := m)]
  rfl

theorem ofNodes_append (ns ms : List Node) : ofNodes (ns ++ ms) = ofNodes ns ++ ofNodes ms := by
  induction ns with
  | nil => rfl
  | cons n ns ih =>
    simp only [List.cons_append, ofNodes, ih]
    cases ofNode? n <;> rfl

theorem ofNodes_replicate {n : Node} {m : Member} (h : ofNode? n = some m) (k : Nat) :
    ofNodes (List.replicate k n) = List.replicate k m := by
  induction k with
  | zero => rfl
  | succ k ih => simp only [List.replicate_succ, ofNodes, h, ih]

end Member

theorem Node.requireAttribute_eq_ok_iff {n : Node} {key value : String} :
    n.requireAttribute key = .ok value ↔ n.attribute? key = some value := by
  unfold requireAttribute
  cases n.attribute? key <;> simp

namespace Version

/-- An attribute gives a part of a version if it reads, without the blanks around it, as one. -/
def GivesPart (root : Node) (key : String) : Prop :=
  ∃ raw n, root.attribute? key = some raw ∧ readUnsigned maxPart (trimBlanks raw) = .ok n

variable {root : Node} {key : String}

theorem readPart_succeeds_iff : (∃ n, readPart root key = .ok n) ↔ GivesPart root key := by
  simp only [readPart, except_bind_eq_ok_iff, Node.requireAttribute_eq_ok_iff, GivesPart]
  constructor
  · rintro ⟨n, raw, ha, h⟩
    split at h
    next part hr => exact ⟨raw, part, ha, hr⟩
    next => simp at h
  · rintro ⟨raw, n, ha, hr⟩
    exact ⟨n, raw, ha, by simp [hr]⟩

theorem readServicePack_succeeds_iff :
    (∃ n, readServicePack root = .ok n) ↔
      root.attribute? "servicepack" = none ∨ GivesPart root "servicepack" := by
  unfold readServicePack
  cases h : root.attribute? "servicepack" with
  | none => simp
  | some raw => simp [readPart_succeeds_iff]

theorem ofNode_succeeds_iff :
    (∃ v, ofNode root = .ok v) ↔
      root.name = rootElement ∧ GivesPart root "major" ∧ GivesPart root "minor" ∧
        (root.attribute? "servicepack" = none ∨ GivesPart root "servicepack") := by
  rw [← readServicePack_succeeds_iff, ← readPart_succeeds_iff, ← readPart_succeeds_iff]
  unfold ofNode
  by_cases hn : root.name = rootElement
  · simp only [hn, ne_eq, not_true_eq_false, if_false, except_bind_eq_ok_iff, true_and]
    constructor
    · rintro ⟨_, pack, hp, major, ha, minor, hi, _⟩
      exact ⟨⟨major, ha⟩, ⟨minor, hi⟩, pack, hp⟩
    · rintro ⟨⟨major, ha⟩, ⟨minor, hi⟩, pack, hp⟩
      exact ⟨_, pack, hp, major, ha, minor, hi, rfl⟩
  · simp only [hn, ne_eq, not_false_eq_true, if_true, false_and, iff_false]
    rintro ⟨v, h⟩
    simp [throw, throwThe, MonadExceptOf.throw, bind, Except.bind] at h

end Version

namespace Component

theorem ofNode_eq_ok_iff {n : Node} {c : Component} :
    ofNode n = .ok c ↔ n.attributeD "name" ≠ "" ∧ c = ⟨n.attributeD "name", Member.childrenOf n⟩ := by
  unfold ofNode Node.attributeD
  split
  next h => simp [h]
  next h => simp [h]
  next name hne h =>
    have named : name ≠ "" := hne
    simp [h, named, eq_comm]

end Component

namespace Message

/-- A message is declared with a name, a type of one to eight bytes, and a category if it says
one. -/
structure Declared (n : Node) : Prop where
  name_ne : n.attributeD "name" ≠ ""
  type_ne : n.attributeD "msgtype" ≠ ""
  type_length : (n.attributeD "msgtype").utf8ByteSize ≤ 8
  category : ∀ raw, n.attribute? "msgcat" = some raw → raw = "admin" ∨ raw = "app"

variable {n : Node} {header trailer : List Member} {m : Message}

theorem ofAttribute_succeeds_iff (raw : String) :
    (∃ c, MessageCategory.ofAttribute? raw = some c) ↔ raw = "admin" ∨ raw = "app" := by
  unfold MessageCategory.ofAttribute?
  split <;> simp_all

theorem readCategory_succeeds_iff (name : String) (n : Node) :
    (∃ c, readCategory name n = .ok c) ↔
      ∀ raw, n.attribute? "msgcat" = some raw → raw = "admin" ∨ raw = "app" := by
  unfold readCategory
  cases n.attribute? "msgcat" with
  | none => simp
  | some raw =>
    simp only [Option.some.injEq, forall_eq', ← ofAttribute_succeeds_iff]
    cases MessageCategory.ofAttribute? raw <;> simp

theorem make_eq_ok_iff {name msgType : String} {header body trailer : List Member} :
    make name msgType header body trailer = .ok m ↔
      name ≠ "" ∧ msgType ≠ "" ∧ msgType.utf8ByteSize ≤ maxTypeLength ∧
        m = ⟨name, msgType, .app, none, header, body, trailer⟩ := by
  unfold make
  by_cases hn : name = ""
  · simp [hn]
  · by_cases ht : msgType = "" ∨ maxTypeLength < msgType.utf8ByteSize
    · have wrong : ¬ (msgType ≠ "" ∧ msgType.utf8ByteSize ≤ maxTypeLength) := by
        rintro ⟨hne, hle⟩
        rcases ht with he | hlt
        · exact hne he
        · omega
      simp [hn, ht, ← and_assoc, wrong]
    · obtain ⟨hne, hle⟩ := not_or.mp ht
      rw [if_neg hn, if_neg ht, Except.ok.injEq, eq_comm]
      simp [hn, hne, Nat.not_lt.mp hle]

theorem ofNode_eq_ok (h : ofNode header trailer n = .ok m) :
    m.name = n.attributeD "name" ∧ m.msgType = n.attributeD "msgtype" ∧
      m.members = header ++ Member.childrenOf n ++ trailer := by
  simp only [ofNode, except_bind_eq_ok_iff, make_eq_ok_iff] at h
  obtain ⟨_, ⟨_, _, _, rfl⟩, _, _, h⟩ := h
  obtain rfl := Except.ok.inj h
  exact ⟨rfl, rfl, rfl⟩

theorem ofNode_succeeds_iff (header trailer : List Member) (n : Node) :
    (∃ m, ofNode header trailer n = .ok m) ↔ Declared n := by
  simp only [ofNode, except_bind_eq_ok_iff, make_eq_ok_iff]
  constructor
  · rintro ⟨_, _, ⟨name_ne, type_ne, type_length, _⟩, c, hc, _⟩
    exact ⟨name_ne, type_ne, type_length, (readCategory_succeeds_iff _ n).mp ⟨c, hc⟩⟩
  · rintro ⟨name_ne, type_ne, type_length, category⟩
    obtain ⟨c, hc⟩ := (readCategory_succeeds_iff _ n).mpr category
    exact ⟨_, _, ⟨name_ne, type_ne, type_length, rfl⟩, c, hc, rfl⟩

end Message

namespace Spec

variable {root : Node}

structure Sections.FoundIn (sections : Sections) (root : Node) : Prop where
  fields : root.find? "fields" = some sections.fields
  header : root.find? "header" = some sections.header
  trailer : root.find? "trailer" = some sections.trailer
  messages : root.find? "messages" = some sections.messages

theorem findSection_eq_ok_iff {name : String} {n : Node} :
    findSection root name = .ok n ↔ root.find? name = some n := by
  unfold findSection
  cases root.find? name <;> simp

theorem Sections.ofRoot_eq_ok_iff {sections : Sections} :
    Sections.ofRoot root = .ok sections ↔ sections.FoundIn root := by
  simp only [ofRoot, except_bind_eq_ok_iff, findSection_eq_ok_iff]
  constructor
  · rintro ⟨fields, hf, header, hh, trailer, ht, messages, hm, h⟩
    obtain rfl := Except.ok.inj h
    exact ⟨hf, hh, ht, hm⟩
  · rintro ⟨hf, hh, ht, hm⟩
    exact ⟨_, hf, _, hh, _, ht, _, hm, rfl⟩

/-- The declarations of components; a dictionary may do without the section. -/
def componentNodes (root : Node) : List Node :=
  ((root.find? "components").map (·.childrenNamed "component")).getD []

def declaredComponents (root : Node) : ComponentRegistry :=
  ⟨(componentNodes root).map fun n => ⟨n.attributeD "name", Member.childrenOf n⟩⟩

theorem forall₂_component_iff {ns : List Node} {cs : List Component} :
    List.Forall₂ (fun n c => Component.ofNode n = .ok c) ns cs ↔
      (∀ n ∈ ns, n.attributeD "name" ≠ "") ∧
        cs = ns.map fun n => ⟨n.attributeD "name", Member.childrenOf n⟩ := by
  simp only [Component.ofNode_eq_ok_iff]
  induction ns generalizing cs with
  | nil => simp
  | cons n ns ih =>
    rw [List.forall₂_cons_left_iff, List.forall_mem_cons, List.map_cons]
    constructor
    · rintro ⟨c, others, ⟨hn, rfl⟩, h, rfl⟩
      obtain ⟨hns, rfl⟩ := ih.mp h
      exact ⟨⟨hn, hns⟩, rfl⟩
    · rintro ⟨⟨hn, hns⟩, rfl⟩
      exact ⟨_, _, ⟨hn, rfl⟩, ih.mpr ⟨hns, rfl⟩, rfl⟩

theorem componentsOf_eq_ok_iff {r : ComponentRegistry} :
    (componentsOf root).outcome = .ok r ↔
      (∀ n ∈ componentNodes root, n.attributeD "name" ≠ "") ∧
        ((componentNodes root).map (·.attributeD "name")).Nodup ∧ r = declaredComponents root := by
  unfold componentsOf declaredComponents componentNodes
  cases root.find? "components" with
  | none =>
    constructor
    · intro h
      exact ⟨by simp, by simp, (Except.ok.inj h).symm⟩
    · rintro ⟨_, _, rfl⟩
      rfl
  | some n =>
    have names : ((n.childrenNamed "component").map fun n =>
        Component.mk (n.attributeD "name") (Member.childrenOf n)).map (·.name) =
          (n.childrenNamed "component").map (·.attributeD "name") := by
      rw [List.map_map]
      rfl
    simp only [ComponentRegistry.ofSection_eq_ok_iff, except_mapM_eq_ok_iff, forall₂_component_iff,
      Option.map_some, Option.getD_some]
    constructor
    · rintro ⟨cs, ⟨named, rfl⟩, distinct, rfl⟩
      exact ⟨named, names ▸ distinct, rfl⟩
    · rintro ⟨named, distinct, rfl⟩
      exact ⟨_, ⟨named, rfl⟩, names ▸ distinct, rfl⟩

end Spec

end FixTables
