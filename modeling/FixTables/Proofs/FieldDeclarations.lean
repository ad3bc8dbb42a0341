import Mathlib
import FixTables.Field
import FixTables.Proofs.Numerals
import FixTables.Proofs.Outcome

namespace FixTables

/-- Where no key stands twice, the value that a look-up gives is the one listed under the key. -/
theorem lookup_eq_some_iff_mem {es : List (String × α)} (h : (es.map (·.1)).Nodup) {key : String}
    {a : α} : es.lookup key = some a ↔ (key, a) ∈ es := by
  rw [List.lookup_eq_some_iff]
  constructor
  · rintro ⟨before, after, rfl, -⟩
    simp
  · intro hm
    obtain ⟨before, after, rfl⟩ := List.append_of_mem hm
    refine ⟨before, after, rfl, fun e he => ?_⟩
    rw [List.map_append, List.map_cons] at h
    have apart := (List.nodup_append.mp h).2.2 e.1 (List.mem_map_of_mem he) key (by simp)
    simpa using Ne.symm apart

namespace FieldType

/-- Texts that are the same but for the case of ASCII letters. -/
def SameButCase (s t : String) : Prop := s.toList.map Char.toUpper = t.toList.map Char.toUpper

theorem spellings_distinct : (spellings.map (·.1)).Nodup := by
  decide +kernel

theorem spellings_upper : ∀ p ∈ spellings, p.1.toList.map Char.toUpper = p.1.toList := by
  decide +kernel

theorem ofSpelling?_eq_some_iff {s : String} {type : FieldType} :
    ofSpelling? s = some type ↔
      ∃ spelling, (spelling, type) ∈ spellings ∧ SameButCase s spelling := by
  rw [ofSpelling?, lookup_eq_some_iff_mem spellings_distinct]
  constructor
  · intro h
    refine ⟨_, h, ?_⟩
    rw [SameButCase, spellings_upper _ h, String.toList_ofList]
  · rintro ⟨spelling, h, same⟩
    rwa [same, spellings_upper _ h, String.ofList_toList]

end FieldType

namespace Field

variable {n : Node} {name : String} {tag : Nat} {type : FieldType} {e : SchemaError}

theorem readName_eq_ok_iff :
    readName n = .ok name ↔ n.attributeD "name" = name ∧ name ≠ "" := by
  unfold readName Node.attributeD
  split
  next h => simp [h, eq_comm]
  next h => simp [h, eq_comm]
  next given named h =>
    have : given ≠ "" := named
    simp only [h, Option.getD_some, Except.ok.injEq, iff_self_and]
    rintro rfl
    exact this

theorem readName_eq_error_iff :
    readName n = .error e ↔
      n.attributeD "name" = "" ∧ e = .invalidField unnamed "missing name" := by
  unfold readName Node.attributeD
  split
  next h => simp [h, eq_comm]
  next h => simp [h, eq_comm]
  next given named h =>
    have : given ≠ "" := named
    simp [h, this]

/-- An element gives a tag by a number within the limits. -/
def GivesTag (n : Node) (tag : Nat) : Prop :=
  ∃ raw, n.attribute? "number" = some raw ∧ SpellsAmongBlanks raw tag ∧ 0 < tag ∧ tag ≤ maxTag

/-- What is wrong with the number of an element, as reports say it. -/
inductive NumberFault (n : Node) : String → Prop
  | missing : n.attribute? "number" = none → NumberFault n "missing tag number"
  | notNumeric {raw : String} : n.attribute? "number" = some raw →
      (∀ tag ≤ maxTag, ¬ SpellsAmongBlanks raw tag) → NumberFault n s!"non-numeric tag '{raw}'"
  | zero {raw : String} : n.attribute? "number" = some raw → SpellsAmongBlanks raw 0 →
      NumberFault n "tag must be positive"

theorem readTag_eq_ok_iff : readTag name n = .ok tag ↔ GivesTag n tag := by
  constructor
  · intro h
    unfold readTag at h
    split at h
    next => simp at h
    next raw given =>
      split at h
      next => simp at h
      next => simp at h
      next number positive hr =>
        obtain rfl := Except.ok.inj h
        obtain ⟨spells, below⟩ := readUnsigned_trimBlanks_eq_ok_iff.mp hr
        exact ⟨raw, given, spells, Nat.pos_of_ne_zero positive, below⟩
  · rintro ⟨raw, given, spells, positive, below⟩
    have hr := readUnsigned_trimBlanks_eq_ok_iff.mpr ⟨spells, below⟩
    unfold readTag
    simp only [given, hr]
    split
    next other => simp at other
    next other =>
      obtain rfl := Except.ok.inj other
      exact absurd positive (Nat.lt_irrefl 0)
    next same =>
      obtain rfl := Except.ok.inj same
      rfl

theorem readTag_eq_error_iff :
    readTag name n = .error e ↔ ∃ fault, NumberFault n fault ∧ e = .invalidField name fault := by
  constructor
  · intro h
    unfold readTag at h
    split at h
    next absent => exact ⟨_, .missing absent, (Except.error.inj h).symm⟩
    next raw given =>
      split at h
      next hr =>
        refine ⟨_, .notNumeric given ?_, (Except.error.inj h).symm⟩
        intro tag below spells
        have read := readUnsigned_trimBlanks_eq_ok_iff.mpr ⟨spells, below⟩
        simp [hr] at read
      next hr =>
        have spells := (readUnsigned_trimBlanks_eq_ok_iff.mp hr).1
        exact ⟨_, .zero given spells, (Except.error.inj h).symm⟩
      next => simp at h
  · rintro ⟨fault, hf, rfl⟩
    unfold readTag
    cases hf with
    | missing absent => simp only [absent]
    | notNumeric given none =>
      rename_i raw
      cases hr : readUnsigned maxTag (trimBlanks raw) with
      | error => simp only [given, hr]
      | ok tag =>
        obtain ⟨spells, below⟩ := readUnsigned_trimBlanks_eq_ok_iff.mp hr
        exact absurd spells (none tag below)
    | zero given spells =>
      have hr := readUnsigned_trimBlanks_eq_ok_iff.mpr ⟨spells, Nat.zero_le maxTag⟩
      simp only [given, hr]

theorem NumberFault.not_givesTag {fault : String} (h : NumberFault n fault) : ¬ GivesTag n tag := by
  intro given
  have refused : readTag unnamed n = .error (.invalidField unnamed fault) :=
    readTag_eq_error_iff.mpr ⟨fault, h, rfl⟩
  rw [readTag_eq_ok_iff.mpr given] at refused
  cases refused

/-- An element gives a type by one of its spellings, in whatever case. -/
def GivesType (n : Node) (type : FieldType) : Prop :=
  ∃ spelling, (spelling, type) ∈ FieldType.spellings ∧
    FieldType.SameButCase (n.attributeD "type") spelling

theorem readType_eq_ok_iff : readType name n = .ok type ↔ GivesType n type := by
  rw [GivesType, ← FieldType.ofSpelling?_eq_some_iff, readType]
  cases FieldType.ofSpelling? (n.attributeD "type") <;> simp

theorem readType_eq_error_iff :
    readType name n = .error e ↔
      (∀ type, ¬ GivesType n type) ∧ e = .unknownFieldType name (n.attributeD "type") := by
  simp only [GivesType, ← FieldType.ofSpelling?_eq_some_iff, readType]
  cases FieldType.ofSpelling? (n.attributeD "type") <;> simp [eq_comm]

section Values

variable {vs : List Node} {v : Node} {values out : List EnumValue} {fault : String}

/-- The value that an element declares. -/
def declaredValue (v : Node) : EnumValue := ⟨v.attributeD "enum", v.attributeD "description"⟩

/-- Each element has a code, and no two have the same. -/
structure WellCoded (vs : List Node) : Prop where
  coded : ∀ v ∈ vs, v.attribute? "enum" ≠ none
  distinct : (vs.map (·.attribute? "enum")).Nodup

/-- What is wrong with the code of an element behind others, as reports say it. -/
inductive CodeFault (before : List Node) (v : Node) : String → Prop
  | missing : v.attribute? "enum" = none → CodeFault before v "value without enum code"
  | repeated {code : String} : v.attribute? "enum" = some code →
      (∃ u ∈ before, u.attribute? "enum" = some code) →
      CodeFault before v s!"duplicate enum code '{code}'"

/-- What is wrong with the first element that has anything wrong with its code. -/
def ValueFault (vs : List Node) (fault : String) : Prop :=
  ∃ before v after, vs = before ++ v :: after ∧ WellCoded before ∧ CodeFault before v fault

theorem WellCoded.of_codes {vs' : List Node} (h : WellCoded vs)
    (same : vs'.map (·.attribute? "enum") = vs.map (·.attribute? "enum")) : WellCoded vs' where
  coded v hv missing := by
    have listed : none ∈ vs'.map (·.attribute? "enum") := missing ▸ List.mem_map_of_mem hv
    rw [same] at listed
    obtain ⟨u, hu, absent⟩ := List.mem_map.mp listed
    exact h.coded u hu absent
  distinct := same ▸ h.distinct

theorem wellCoded_nil : WellCoded [] := ⟨by simp, by simp⟩

theorem wellCoded_concat_iff :
    WellCoded (vs ++ [v]) ↔ WellCoded vs ∧ ∃ code, v.attribute? "enum" = some code ∧
      ∀ u ∈ vs, u.attribute? "enum" ≠ some code := by
  constructor
  · rintro ⟨coded, distinct⟩
    obtain ⟨before, last⟩ := List.forall_mem_append.mp coded
    obtain ⟨code, hc⟩ := Option.ne_none_iff_exists'.mp (last v (List.mem_singleton_self v))
    rw [List.map_append, List.nodup_append] at distinct
    refine ⟨⟨before, distinct.1⟩, code, hc, fun u hu same => ?_⟩
    exact distinct.2.2 _ (List.mem_map_of_mem hu) _ (by simp) (same.trans hc.symm)
  · rintro ⟨⟨coded, distinct⟩, code, hc, new⟩
    refine ⟨List.forall_mem_append.mpr ⟨coded, by simp [hc]⟩, ?_⟩
    rw [List.map_append, List.nodup_append]
    refine ⟨distinct, by simp, ?_⟩
    intro a ha b hb
    obtain ⟨u, hu, rfl⟩ := List.mem_map.mp ha
    obtain rfl : b = v.attribute? "enum" := by simpa using hb
    rw [hc]
    exact new u hu

theorem valueFault_concat_iff :
    ValueFault (vs ++ [v]) fault ↔ ValueFault vs fault ∨ WellCoded vs ∧ CodeFault vs v fault := by
  constructor
  · rintro ⟨before, u, after, split, well, hf⟩
    rcases List.eq_nil_or_concat' after with rfl | ⟨rest, last, rfl⟩
    · obtain ⟨rfl, same⟩ := List.append_inj' split rfl
      obtain rfl := List.singleton_inj.mp same
      exact .inr ⟨well, hf⟩
    · rw [← List.cons_append, ← List.append_assoc] at split
      obtain ⟨rfl, -⟩ := List.append_inj' split rfl
      exact .inl ⟨before, u, rest, rfl, well, hf⟩
  · rintro (⟨before, u, after, rfl, well, hf⟩ | ⟨well, hf⟩)
    · exact ⟨before, u, after ++ [v], by simp, well, hf⟩
    · exact ⟨vs, v, [], rfl, well, hf⟩

theorem any_code_iff (coded : ∀ u ∈ vs, u.attribute? "enum" ≠ none) (code : String) :
    (vs.map declaredValue).any (·.code = code) ↔ ∃ u ∈ vs, u.attribute? "enum" = some code := by
  simp only [List.any_map, List.any_eq_true, Function.comp_apply, decide_eq_true_eq]
  refine exists_congr fun u => and_congr_right fun hu => ?_
  obtain ⟨given, hg⟩ := Option.ne_none_iff_exists'.mp (coded u hu)
  simp [declaredValue, Node.attributeD, hg]

/-- A further element with a code of its own adds its value to those declared before. -/
theorem addValue_eq_ok_iff (h : WellCoded vs) :
    addValue name (vs.map declaredValue) v = .ok values ↔
      WellCoded (vs ++ [v]) ∧ values = (vs ++ [v]).map declaredValue := by
  rw [wellCoded_concat_iff]
  unfold addValue
  cases hv : v.attribute? "enum" with
  | none => simp
  | some code =>
    have value : declaredValue v = ⟨code, v.attributeD "description"⟩ := by
      simp [declaredValue, Node.attributeD, hv]
    by_cases used : ∃ u ∈ vs, u.attribute? "enum" = some code
    · simp only [(any_code_iff h.coded code).mpr used, if_true]
      simpa using fun _ unused => absurd used (by simpa using unused)
    · have new : ∀ u ∈ vs, u.attribute? "enum" ≠ some code := by simpa using used
      rw [and_iff_right ⟨h, code, rfl, new⟩]
      simp [mt (any_code_iff h.coded code).mp used, value, @eq_comm _ _ values]

theorem addValue_eq_error_iff (h : WellCoded vs) :
    addValue name (vs.map declaredValue) v = .error e ↔
      ∃ fault, CodeFault vs v fault ∧ e = .invalidField name fault := by
  constructor
  · intro ha
    unfold addValue at ha
    split at ha
    next absent => exact ⟨_, .missing absent, (Except.error.inj ha).symm⟩
    next code given =>
      split at ha
      next used =>
        exact ⟨_, .repeated given ((any_code_iff h.coded code).mp used), (Except.error.inj ha).symm⟩
      next => simp at ha
  · rintro ⟨fault, hf, rfl⟩
    unfold addValue
    cases hf with
    | missing absent => simp only [absent]
    | repeated given used => simp only [given, (any_code_iff h.coded _).mpr used, if_true]

/-- The values of elements are read if their codes are in order, and then all of them are. -/
theorem readValues_eq_ok_iff :
    vs.foldlM (addValue name) [] = .ok values ↔ WellCoded vs ∧ values = vs.map declaredValue := by
  induction vs using List.reverseRecOn generalizing values with
  | nil => simp [pure, Except.pure, eq_comm, wellCoded_nil]
  | append_singleton vs v ih =>
    simp only [List.foldlM_append, List.foldlM_cons, List.foldlM_nil, bind_pure,
      except_bind_eq_ok_iff, ih]
    constructor
    · rintro ⟨_, ⟨well, rfl⟩, h⟩
      exact (addValue_eq_ok_iff well).mp h
    · intro h
      have well := (wellCoded_concat_iff.mp h.1).1
      exact ⟨_, ⟨well, rfl⟩, (addValue_eq_ok_iff well).mpr h⟩

theorem readValues_eq_error_iff :
    vs.foldlM (addValue name) [] = .error e ↔
      ∃ fault, ValueFault vs fault ∧ e = .invalidField name fault := by
  induction vs using List.reverseRecOn with
  | nil => simp [pure, Except.pure, ValueFault]
  | append_singleton vs v ih =>
    simp only [List.foldlM_append, List.foldlM_cons, List.foldlM_nil, bind_pure,
      except_bind_eq_error_iff, ih, readValues_eq_ok_iff, valueFault_concat_iff]
    constructor
    · rintro (⟨fault, hf, rfl⟩ | ⟨_, ⟨well, rfl⟩, h⟩)
      · exact ⟨fault, .inl hf, rfl⟩
      · obtain ⟨fault, hf, rfl⟩ := (addValue_eq_error_iff well).mp h
        exact ⟨fault, .inr ⟨well, hf⟩, rfl⟩
    · rintro ⟨fault, hf | ⟨well, hf⟩, rfl⟩
      · exact .inl ⟨fault, hf, rfl⟩
      · exact .inr ⟨_, ⟨well, rfl⟩, (addValue_eq_error_iff well).mpr ⟨fault, hf, rfl⟩⟩

end Values

/-- An element declares a field with a name, a tag, a type and, if it has values, a code of its own
for each. -/
structure Declared (n : Node) : Prop where
  named : n.attributeD "name" ≠ ""
  numbered : ∃ tag, GivesTag n tag
  typed : ∃ type, GivesType n type
  coded : WellCoded (n.childrenNamed "value")

/-- How an element is refused: for the first thing wrong with its name, its number, its type and its
values, in this order. -/
inductive Refused (n : Node) : SchemaError → Prop
  | name : n.attributeD "name" = "" → Refused n (.invalidField unnamed "missing name")
  | number {fault : String} : n.attributeD "name" ≠ "" → NumberFault n fault →
      Refused n (.invalidField (n.attributeD "name") fault)
  | type : n.attributeD "name" ≠ "" → (∃ tag, GivesTag n tag) → (∀ type, ¬ GivesType n type) →
      Refused n (.unknownFieldType (n.attributeD "name") (n.attributeD "type"))
  | values {fault : String} : n.attributeD "name" ≠ "" → (∃ tag, GivesTag n tag) →
      (∃ type, GivesType n type) → ValueFault (n.childrenNamed "value") fault →
      Refused n (.invalidField (n.attributeD "name") fault)

theorem ofNode_eq_ok_iff {f : Field} :
    ofNode n = .ok f ↔ n.attributeD "name" ≠ "" ∧ WellCoded (n.childrenNamed "value") ∧
      ∃ tag type, GivesTag n tag ∧ GivesType n type ∧
        f = { tag, name := n.attributeD "name", type, location := .body, related := 0,
              values := (n.childrenNamed "value").map declaredValue,
              description := n.attribute? "description" } := by
  simp only [ofNode, except_bind_eq_ok_iff, readName_eq_ok_iff, readTag_eq_ok_iff,
    readType_eq_ok_iff, readValues_eq_ok_iff]
  constructor
  · rintro ⟨_, ⟨rfl, named⟩, tag, ht, type, hty, _, ⟨coded, rfl⟩, h⟩
    exact ⟨named, coded, tag, type, ht, hty, (Except.ok.inj h).symm⟩
  · rintro ⟨named, coded, tag, type, ht, hty, rfl⟩
    exact ⟨_, ⟨rfl, named⟩, tag, ht, type, hty, _, ⟨coded, rfl⟩, rfl⟩

theorem ofNode_eq_error_iff : ofNode n = .error e ↔ Refused n e := by
  simp only [ofNode, except_bind_eq_error_iff, readName_eq_ok_iff, readName_eq_error_iff,
    readTag_eq_ok_iff, readTag_eq_error_iff, readType_eq_ok_iff, readType_eq_error_iff,
    readValues_eq_ok_iff, readValues_eq_error_iff]
  constructor
  · rintro (⟨none, rfl⟩ | ⟨_, ⟨rfl, named⟩, h⟩)
    · exact .name none
    rcases h with ⟨fault, hf, rfl⟩ | ⟨tag, ht, h⟩
    · exact .number named hf
    rcases h with ⟨untyped, rfl⟩ | ⟨type, hty, h⟩
    · exact .type named ⟨tag, ht⟩ untyped
    rcases h with ⟨fault, hf, rfl⟩ | ⟨_, _, h⟩
    · exact .values named ⟨tag, ht⟩ ⟨type, hty⟩ hf
    · cases h
  · intro h
    cases h with
    | name none => exact .inl ⟨none, rfl⟩
    | number named hf => exact .inr ⟨_, ⟨rfl, named⟩, .inl ⟨_, hf, rfl⟩⟩
    | type named given untyped =>
      obtain ⟨tag, ht⟩ := given
      exact .inr ⟨_, ⟨rfl, named⟩, .inr ⟨tag, ht, .inl ⟨untyped, rfl⟩⟩⟩
    | values named given typed hf =>
      obtain ⟨tag, ht⟩ := given
      obtain ⟨type, hty⟩ := typed
      exact .inr ⟨_, ⟨rfl, named⟩, .inr ⟨tag, ht, .inr ⟨type, hty, .inl ⟨_, hf, rfl⟩⟩⟩⟩

/-- How reports call the field that an element declares. -/
def reportName (n : Node) : String :=
  if n.attributeD "name" = "" then unnamed else n.attributeD "name"

/-- An element is taken for a field exactly if it declares one, and then the field is what its
attributes say, with the values of all its value elements in their order. What is refused is
reported under its name, for its type exactly if name and number are in order and the type is
not. -/
theorem ofNode_accepts_exactly_declared (n : Node) :
    ((∃ f, ofNode n = .ok f) ↔ Declared n) ∧
    (∀ f, ofNode n = .ok f →
      f.name = n.attributeD "name" ∧ GivesTag n f.tag ∧ GivesType n f.type ∧
        f.values = (n.childrenNamed "value").map declaredValue ∧
        (f.isEnumerated = false ↔ n.childrenNamed "value" = []) ∧
        f.description = n.attribute? "description" ∧ f.location = .body ∧ f.related = 0) ∧
    ∀ e, ofNode n = .error e →
      Refused n e ∧
        (e = .unknownFieldType (reportName n) (n.attributeD "type") ∨
          ∃ reason, e = .invalidField (reportName n) reason) ∧
        (e = .unknownFieldType (reportName n) (n.attributeD "type") ↔
          n.attributeD "name" ≠ "" ∧ (∃ tag, GivesTag n tag) ∧ ¬ ∃ type, GivesType n type) := by
  refine ⟨?_, fun f h => ?_, fun e h => ?_⟩
  · simp only [ofNode_eq_ok_iff]
    constructor
    · rintro ⟨f, named, coded, tag, type, ht, hty, -⟩
      exact ⟨named, ⟨tag, ht⟩, ⟨type, hty⟩, coded⟩
    · rintro ⟨named, ⟨tag, ht⟩, ⟨type, hty⟩, coded⟩
      exact ⟨_, named, coded, tag, type, ht, hty, rfl⟩
  · obtain ⟨-, -, tag, type, ht, hty, rfl⟩ := ofNode_eq_ok_iff.mp h
    exact ⟨rfl, ht, hty, rfl, by simp [isEnumerated], rfl, rfl, rfl⟩
  · have refused := ofNode_eq_error_iff.mp h
    refine ⟨refused, ?_⟩
    cases refused with
    | name none => simp [reportName, none]
    | number named hf =>
      have given (tag : Nat) : ¬ GivesTag n tag := hf.not_givesTag
      simp [reportName, named, given]
    | type named given untyped => simpa [reportName, named, given] using untyped
    | values named given typed hf => simp [reportName, named, given, typed]

/-- A field of type `char` whose number stands between a sign and a blank; the same with a number
beyond 32 bits, with a type of no spelling and with a code used twice. -/
theorem ofNode_accepts_exactly_declared_of_side :
    let value (code description : String) : Node :=
      ((Node.leaf "value").withAttribute "enum" code).withAttribute "description" description
    let side (number type : String) (children : List Node) : Node :=
      { (((Node.leaf "field").withAttribute "number" number).withAttribute "name"
          "Side").withAttribute "type" type with children }
    let sides : List Node := [value "1" "BUY", Node.leaf "note", value "2" "SELL"]
    let f : Field := { plain 54 "Side" .char with values := [⟨"1", "BUY"⟩, ⟨"2", "SELL"⟩] }
    let beyond : SchemaError := .invalidField "Side" "non-numeric tag '4294967296'"
    let untyped : SchemaError := .unknownFieldType "Side" "SIDE"
    let twice : SchemaError := .invalidField "Side" "duplicate enum code '1'"
    ofNode (side " +0054\n" "Char" sides) = .ok f ∧ Declared (side " +0054\n" "Char" sides) ∧
      GivesTag (side " +0054\n" "Char" sides) 54 ∧
    ofNode (side "4294967296" "SIDE" sides) = .error beyond ∧
      Refused (side "4294967296" "SIDE" sides) beyond ∧
    ofNode (side "54" "SIDE" (value "1" "" :: sides)) = .error untyped ∧
      Refused (side "54" "SIDE" (value "1" "" :: sides)) untyped ∧
    ofNode (side "54" "CHAR" (value "1" "" :: sides)) = .error twice ∧
      Refused (side "54" "CHAR" (value "1" "" :: sides)) twice := by
  intro value side sides f beyond untyped twice
  have accepted : ofNode (side " +0054\n" "Char" sides) = .ok f := by cbv
  have tooLarge : ofNode (side "4294967296" "SIDE" sides) = .error beyond := by cbv
  have noType : ofNode (side "54" "SIDE" (value "1" "" :: sides)) = .error untyped := by cbv
  have repeated : ofNode (side "54" "CHAR" (value "1" "" :: sides)) = .error twice := by cbv
  exact ⟨accepted, (ofNode_accepts_exactly_declared _).1.mp ⟨f, accepted⟩,
    ((ofNode_accepts_exactly_declared _).2.1 f accepted).2.1,
    tooLarge, ((ofNode_accepts_exactly_declared _).2.2 _ tooLarge).1,
    noType, ((ofNode_accepts_exactly_declared _).2.2 _ noType).1,
    repeated, ((ofNode_accepts_exactly_declared _).2.2 _ repeated).1⟩

end Field

end FixTables
