import FixTables.Proofs.Declarations

namespace FixTables

theorem rel_or {rel : α → β → Prop} {x x' : Option α} {y y' : Option β} (h : Option.Rel rel x y)
    (h' : Option.Rel rel x' y') : Option.Rel rel (x.or x') (y.or y') := by
  cases h with
  | some h => exact .some h
  | none => exact h'

theorem exists_of_rel {rel : α → β → Prop} {x : Option α} {y : Option β} (h : Option.Rel rel x y)
    {a : α} (hx : x = some a) : ∃ b, y = some b ∧ rel a b := by
  subst hx
  cases h with
  | some h => exact ⟨_, rfl, h⟩

namespace Node

/-- The names of the sections of a document. -/
def sectionNames : List String := ["fields", "components", "header", "trailer", "messages"]

variable {name : String} {ns ns' ms : List Node} {rel : Node → Node → Prop}

theorem find?_eq_findIn? (name : String) (n : Node) : find? name n = findIn? name n.children := by
  cases n
  rfl

theorem findIn?_cons (n : Node) (ns : List Node) :
    findIn? name (n :: ns) =
      if n.name = name then some n else (findIn? name n.children).or (findIn? name ns) := by
  rw [findIn?, find?_eq_findIn?]

theorem findIn?_append :
    findIn? name (ns ++ ms) = (findIn? name ns).or (findIn? name ms) := by
  induction ns with
  | nil => rfl
  | cons n ns ih =>
    rw [List.cons_append, findIn?_cons, findIn?_cons, ih]
    by_cases named : n.name = name
    · rw [if_pos named, if_pos named, Option.some_or]
    · rw [if_neg named, if_neg named, Option.or_assoc]

theorem findIn?_eq_none_iff :
    findIn? name ns = none ↔ ∀ n ∈ ns, n.name ≠ name ∧ find? name n = none := by
  induction ns with
  | nil => simp [findIn?]
  | cons n ns ih =>
    rw [List.forall_mem_cons, ← ih, findIn?_cons, find?_eq_findIn?]
    by_cases named : n.name = name
    · simp [named]
    · simp [named]

/-- Where no element lies deeper, a search goes through the elements of a list alone. -/
theorem findIn?_eq_find? (shallow : ∀ n ∈ ns, find? name n = none) :
    findIn? name ns = ns.find? (·.name = name) := by
  induction ns with
  | nil => rfl
  | cons n ns ih =>
    obtain ⟨first, rest⟩ := List.forall_mem_cons.mp shallow
    rw [findIn?_cons, List.find?_cons, ih rest, ← find?_eq_findIn?, first, Option.none_or]
    by_cases named : n.name = name <;> simp [named]

/-- Induction over the elements of a list and those in them. -/
theorem forest_induction {motive : List Node → Prop} (nil : motive [])
    (cons : ∀ n ns, motive n.children → motive ns → motive (n :: ns)) (ns : List Node) :
    motive ns :=
  match ns with
  | [] => nil
  | ⟨name, attributes, children⟩ :: ns =>
    cons ⟨name, attributes, children⟩ ns (forest_induction nil cons children)
      (forest_induction nil cons ns)

theorem findIn?_name {n : Node} (h : findIn? name ns = some n) : n.name = name := by
  induction ns using forest_induction with
  | nil => simp [findIn?] at h
  | cons first ns nested rest =>
    rw [findIn?_cons] at h
    split at h
    next named => exact Option.some.inj h ▸ named
    next =>
      rcases Option.or_eq_some_iff.mp h with h | ⟨-, h⟩
      · exact nested h
      · exact rest h

/-- Elements related all the way down, but for some behind the others in which nothing of the name
is found, are found together. -/
theorem findIn?_rel (names : ∀ n n', rel n n' → n'.name = n.name)
    (inside : ∀ n n', rel n n' → ∃ cs extra, n'.children = cs ++ extra ∧
      List.Forall₂ rel n.children cs ∧ findIn? name extra = none)
    (h : List.Forall₂ rel ns ns') : Option.Rel rel (findIn? name ns) (findIn? name ns') := by
  induction ns using forest_induction generalizing ns' with
  | nil =>
    cases h
    exact .none
  | cons n ns nested rest =>
    obtain ⟨n', ns', hn, hns, rfl⟩ := List.forall₂_cons_left_iff.mp h
    obtain ⟨cs, extra, children, hcs, absent⟩ := inside n n' hn
    rw [findIn?_cons, findIn?_cons, names n n' hn, children, findIn?_append, absent, Option.or_none]
    by_cases named : n.name = name
    · rw [if_pos named, if_pos named]
      exact .some hn
    · rw [if_neg named, if_neg named]
      exact rel_or (nested hcs) (rest hns)

theorem name_of_mem_childrenNamed {n c : Node} (h : c ∈ n.childrenNamed name) : c.name = name := by
  simpa using (List.mem_filter.mp h).2

theorem childrenNamed_forall₂ {n n' : Node} (names : ∀ c c', rel c c' → c'.name = c.name)
    (h : List.Forall₂ rel n.children n'.children) (name : String) :
    List.Forall₂ rel (n.childrenNamed name) (n'.childrenNamed name) := by
  apply List.rel_filter
  · intro c c' hc
    simp [names c c' hc]
  · exact h

end Node

namespace Version

theorem ofNode_congr {root root' : Node} (name : root'.name = root.name)
    (same : ∀ key ∈ ["servicepack", "major", "minor", "type"],
      root'.attribute? key = root.attribute? key) : ofNode root' = ofNode root := by
  simp only [ofNode, readServicePack, readPart, Node.requireAttribute, name,
    same "servicepack" (by simp), same "major" (by simp), same "minor" (by simp),
    same "type" (by simp)]

end Version

namespace Field

variable {n n' : Node} {ns ns' : List Node}

/-- Elements with the same attributes. -/
def ReadsAlike (n n' : Node) : Prop := ∀ key, n'.attribute? key = n.attribute? key

theorem readValues_congr (name : String) (h : List.Forall₂ ReadsAlike ns ns')
    (values : List EnumValue) :
    ns'.foldlM (addValue name) values = ns.foldlM (addValue name) values := by
  induction h generalizing values with
  | nil => rfl
  | cons hn _ ih =>
    have same (key : String) := hn key
    simp only [List.foldlM_cons, ih, addValue, Node.attributeD, same]

/-- A field is read from the attributes of an element and of the values in it. -/
theorem ofNode_congr (h : ReadsAlike n n')
    (values : List.Forall₂ ReadsAlike (n.childrenNamed "value") (n'.childrenNamed "value")) :
    ofNode n' = ofNode n := by
  have same (key : String) := h key
  have read (name : String) := readValues_congr name values []
  simp only [ofNode, readName, readTag, readType, Node.attributeD, same, read]

end Field

namespace Spec

variable {root root' : Node} {sections : Sections} {rel : Node → Node → Prop}

theorem Sections.FoundIn.unique {sections' : Sections} (h : sections.FoundIn root)
    (h' : sections'.FoundIn root) : sections = sections' := by
  cases sections
  cases sections'
  simp only [Sections.mk.injEq]
  exact ⟨Option.some.inj (h.fields.symm.trans h'.fields),
    Option.some.inj (h.header.symm.trans h'.header),
    Option.some.inj (h.trailer.symm.trans h'.trailer),
    Option.some.inj (h.messages.symm.trans h'.messages)⟩

theorem name_of_find {name : String} {n : Node} (h : root.find? name = some n) : n.name = name :=
  Node.findIn?_name (root.find?_eq_findIn? name ▸ h)

/-- Sections found in one document have their like in another where each search does. -/
theorem Sections.FoundIn.follow (h : sections.FoundIn root)
    (search : ∀ name ∈ ["fields", "header", "trailer", "messages"],
      Option.Rel rel (root.find? name) (root'.find? name)) :
    ∃ sections' : Sections, sections'.FoundIn root' ∧ rel sections.fields sections'.fields ∧
      rel sections.header sections'.header ∧ rel sections.trailer sections'.trailer ∧
      rel sections.messages sections'.messages := by
  obtain ⟨fields, hf, alikeFields⟩ := exists_of_rel (search "fields" (by simp)) h.fields
  obtain ⟨header, hh, alikeHeader⟩ := exists_of_rel (search "header" (by simp)) h.header
  obtain ⟨trailer, ht, alikeTrailer⟩ := exists_of_rel (search "trailer" (by simp)) h.trailer
  obtain ⟨messages, hm, alikeMessages⟩ := exists_of_rel (search "messages" (by simp)) h.messages
  exact ⟨⟨fields, header, trailer, messages⟩, ⟨hf, hh, ht, hm⟩, alikeFields, alikeHeader,
    alikeTrailer, alikeMessages⟩

end Spec

end FixTables
