import Mathlib
import FixTables.Proofs.FieldDeclarations
import FixTables.Proofs.LengthPairs
import FixTables.Proofs.OrderedSearch

namespace FixTables

namespace Field

theorem ofNode_eq_ok {n : Node} {f : Field} (h : ofNode n = .ok f) : f.tag ≠ 0 ∧ f.related = 0 := by
  obtain ⟨-, -, tag, type, given, -, rfl⟩ := ofNode_eq_ok_iff.mp h
  obtain ⟨raw, -, -, positive, -⟩ := given
  exact ⟨Nat.pos_iff_ne_zero.mp positive, rfl⟩

/-- A field under a pair of tags: the two fields with these tags point at each other. -/
def relatedBy (f : Field) (pair : Nat × Nat) : Field :=
  if f.tag = pair.1 then { f with related := pair.2 }
  else if f.tag = pair.2 then { f with related := pair.1 }
  else f

variable {f : Field} {pair : Nat × Nat}

/-- A pair changes nothing in a field but what it is related to. -/
theorem relatedBy_eq (f : Field) (pair : Nat × Nat) :
    f.relatedBy pair = { f with related := (f.relatedBy pair).related } := by
  unfold relatedBy
  split
  next => rfl
  next => split <;> rfl

@[simp] theorem relatedBy_tag (f : Field) (pair : Nat × Nat) :
    (f.relatedBy pair).tag = f.tag := by
  rw [f.relatedBy_eq pair]

theorem relatedBy_of_left (h : f.tag = pair.1) : f.relatedBy pair = { f with related := pair.2 } :=
  if_pos h

theorem relatedBy_of_right (hne : f.tag ≠ pair.1) (h : f.tag = pair.2) :
    f.relatedBy pair = { f with related := pair.1 } := by
  rw [relatedBy, if_neg hne, if_pos h]

theorem relatedBy_of_apart (left : f.tag ≠ pair.1) (right : f.tag ≠ pair.2) :
    f.relatedBy pair = f := by
  rw [relatedBy, if_neg left, if_neg right]

theorem Counts.congr {length data length' data' : Field} (h : length.Counts data)
    (hl : length'.name = length.name ∧ length'.type = length.type)
    (hd : data'.name = data.name ∧ data'.type = data.type) : length'.Counts data' := by
  obtain ⟨lengthType, dataType, starts, longer⟩ := h
  exact ⟨by rwa [hl.2], by rwa [hd.2], by rwa [hd.1, hl.1], by rwa [hd.1, hl.1]⟩

theorem Counts.ne {length data : Field} (h : length.Counts data) : length ≠ data := by
  rintro rfl
  exact h.data_type h.length_type

end Field

namespace FieldRegistry

/-- Whatever field is related to another has that one as its partner. -/
structure Partnered (r : FieldRegistry) : Prop where
  tags_distinct : (r.fields.map (·.tag)).Nodup
  tags_ne_zero : ∀ f ∈ r.fields, f.tag ≠ 0
  partner : ∀ f ∈ r.fields, f.related ≠ 0 →
    ∃ g ∈ r.fields, g.tag = f.related ∧ g.related = f.tag ∧ (f.Counts g ∨ g.Counts f)

/-- A pair of a length field and a data field that it may count, neither related so far. -/
structure Fresh (r : FieldRegistry) (pair : Nat × Nat) (l d : Field) : Prop where
  length_mem : l ∈ r.fields
  data_mem : d ∈ r.fields
  tags : pair = (l.tag, d.tag)
  counts : l.Counts d
  length_free : l.related = 0
  data_free : d.related = 0

variable {r : FieldRegistry} {f g l d : Field} {pair : Nat × Nat} {pairs : List (Nat × Nat)}

theorem relate_fields (r : FieldRegistry) (pair : Nat × Nat) :
    (r.relate pair).fields = r.fields.map (·.relatedBy pair) := rfl

theorem Partnered.eq_of_tag_eq (h : r.Partnered) (hf : f ∈ r.fields) (hg : g ∈ r.fields)
    (same : f.tag = g.tag) : f = g :=
  List.inj_on_of_nodup_map h.tags_distinct hf hg same

theorem partnered_empty : empty.Partnered :=
  ⟨by simp [empty], by simp [empty], by simp [empty]⟩

/-- Partners stay partners when fields change in nothing that partners have to do with. -/
theorem Partnered.map {change : Field → Field} (h : r.Partnered)
    (keeps : ∀ f, (change f).tag = f.tag ∧ (change f).name = f.name ∧ (change f).type = f.type ∧
      (change f).related = f.related) :
    (FieldRegistry.mk (r.fields.map change)).Partnered where
  tags_distinct := by
    have tags : (fun f => (change f).tag) = (·.tag) := funext fun f => (keeps f).1
    simpa [Function.comp_def, tags] using h.tags_distinct
  tags_ne_zero := by
    simpa [keeps] using h.tags_ne_zero
  partner := by
    intro f' hf' related
    obtain ⟨f, hf, rfl⟩ := List.mem_map.mp hf'
    obtain ⟨tag, name, type, back⟩ := keeps f
    rw [back] at related
    obtain ⟨g, hg, there, again, counts⟩ := h.partner f hf related
    obtain ⟨tag', name', type', back'⟩ := keeps g
    refine ⟨change g, List.mem_map_of_mem hg, by rw [tag', back, there], by rw [back', tag, again],
      ?_⟩
    exact counts.imp (·.congr ⟨name, type⟩ ⟨name', type'⟩) (·.congr ⟨name', type'⟩ ⟨name, type⟩)

theorem Partnered.setLocation {moved : FieldRegistry} {name : String} {location : Location}
    (h : r.Partnered) (hm : r.setLocation name location = some moved) : moved.Partnered := by
  unfold FieldRegistry.setLocation at hm
  split at hm
  next =>
    obtain rfl := Option.some.inj hm
    apply h.map
    intro f
    split <;> exact ⟨rfl, rfl, rfl, rfl⟩
  next => simp at hm

theorem Partnered.registerNode {registered : FieldRegistry} {n : Node} (h : r.Partnered)
    (hr : (r.registerNode n).outcome = .ok registered) : registered.Partnered := by
  simp only [FieldRegistry.registerNode, Traced.bind_eq_ok_iff, Traced.ofExcept_outcome] at hr
  obtain ⟨f, hf, hr⟩ := hr
  obtain ⟨fresh, rfl⟩ := (register_eq_ok_iff r.fields f registered).mp hr
  obtain ⟨positive, unrelated⟩ := Field.ofNode_eq_ok hf
  refine ⟨?_, ?_, ?_⟩
  · rw [List.map_append, List.nodup_append]
    refine ⟨h.tags_distinct, by simp, ?_⟩
    intro tag ht tag' ht'
    obtain ⟨g, hg, rfl⟩ := List.mem_map.mp ht
    obtain rfl : tag' = f.tag := by simpa using ht'
    exact fun same => fresh g hg (.inr same)
  · intro g hg
    rcases List.mem_append.mp hg with hg | hg
    · exact h.tags_ne_zero g hg
    · obtain rfl := List.mem_singleton.mp hg
      exact positive
  · intro g hg related
    rcases List.mem_append.mp hg with hg | hg
    · obtain ⟨k, hk, rest⟩ := h.partner g hg related
      exact ⟨k, List.mem_append_left _ hk, rest⟩
    · obtain rfl := List.mem_singleton.mp hg
      exact absurd unrelated related

/-- Relating a fresh pair makes the two partners and leaves all other partners alone. -/
theorem Partnered.relate (h : r.Partnered) (fresh : r.Fresh pair l d) :
    (r.relate pair).Partnered := by
  obtain ⟨hl, hd, rfl, counts, freeL, freeD⟩ := fresh
  have apart : d.tag ≠ l.tag := fun same => counts.ne (h.eq_of_tag_eq hd hl same).symm
  have left : l.relatedBy (l.tag, d.tag) = { l with related := d.tag } :=
    Field.relatedBy_of_left rfl
  have right : d.relatedBy (l.tag, d.tag) = { d with related := l.tag } :=
    Field.relatedBy_of_right apart rfl
  have others {f : Field} (hf : f ∈ r.fields) (hfl : f ≠ l) (hfd : f ≠ d) :
      f.relatedBy (l.tag, d.tag) = f :=
    Field.relatedBy_of_apart (fun same => hfl (h.eq_of_tag_eq hf hl same))
      (fun same => hfd (h.eq_of_tag_eq hf hd same))
  have inside {f : Field} (hf : f ∈ r.fields) :
      f.relatedBy (l.tag, d.tag) ∈ (r.relate (l.tag, d.tag)).fields := by
    rw [relate_fields]
    exact List.mem_map_of_mem hf
  refine ⟨by simpa [relate_fields, Function.comp_def] using h.tags_distinct,
    by simpa [relate_fields] using h.tags_ne_zero, ?_⟩
  intro f' hf' related
  rw [relate_fields] at hf'
  obtain ⟨f, hf, rfl⟩ := List.mem_map.mp hf'
  by_cases hfl : f = l
  · subst f
    rw [left]
    exact ⟨_, inside hd, by simp, by rw [right], .inl (counts.congr ⟨rfl, rfl⟩ (by simp [right]))⟩
  · by_cases hfd : f = d
    · subst f
      rw [right]
      exact ⟨_, inside hl, by simp, by rw [left], .inr (counts.congr (by simp [left]) ⟨rfl, rfl⟩)⟩
    · rw [others hf hfl hfd] at related ⊢
      obtain ⟨g, hg, there, again, rest⟩ := h.partner f hf related
      -- A field with a partner is not free, so `g` is none of the two.
      have taken : g.related ≠ 0 := again ▸ h.tags_ne_zero f hf
      have unchanged := others hg (fun same => taken (same ▸ freeL))
        (fun same => taken (same ▸ freeD))
      exact ⟨g, unchanged ▸ inside hg, there, again, rest⟩

/-- A fresh pair stays fresh when fields with other tags are related. -/
theorem Fresh.relate {other : Nat × Nat} (h : r.Fresh pair l d)
    (apart : ∀ tag, tag = pair.1 ∨ tag = pair.2 → tag ≠ other.1 ∧ tag ≠ other.2) :
    (r.relate other).Fresh pair l d := by
  obtain ⟨hl, hd, rfl, counts, freeL, freeD⟩ := h
  obtain ⟨left, right⟩ := apart l.tag (.inl rfl)
  obtain ⟨left', right'⟩ := apart d.tag (.inr rfl)
  have unchanged : l.relatedBy other = l := Field.relatedBy_of_apart left right
  have unchanged' : d.relatedBy other = d := Field.relatedBy_of_apart left' right'
  refine ⟨?_, ?_, rfl, counts, freeL, freeD⟩
  · rw [relate_fields, ← unchanged]
    exact List.mem_map_of_mem hl
  · rw [relate_fields, ← unchanged']
    exact List.mem_map_of_mem hd

theorem Partnered.foldl_relate (h : r.Partnered)
    (fresh : ∀ pair ∈ pairs, ∃ l d, r.Fresh pair l d) (distinct : (pairedTags pairs).Nodup) :
    (pairs.foldl FieldRegistry.relate r).Partnered := by
  induction pairs generalizing r with
  | nil => exact h
  | cons first rest ih =>
    obtain ⟨l, d, hf⟩ := fresh first (by simp)
    rw [pairedTags_cons, List.nodup_cons, List.nodup_cons, List.mem_cons, not_or] at distinct
    obtain ⟨⟨-, left⟩, right, distinct⟩ := distinct
    refine ih (h.relate hf) (fun pair hp => ?_) distinct
    obtain ⟨l', d', hf'⟩ := fresh pair (List.mem_cons_of_mem first hp)
    refine ⟨l', d', hf'.relate fun tag ht => ⟨?_, ?_⟩⟩
    · rintro rfl
      exact left (mem_pairedTags.mpr ⟨pair, hp, ht⟩)
    · rintro rfl
      exact right (mem_pairedTags.mpr ⟨pair, hp, ht⟩)

theorem lengthPairs_fresh (h : pair ∈ r.lengthPairs) : ∃ l d, r.Fresh pair l d := by
  obtain ⟨l, hl, d, hd, tags, counts, freeL, freeD⟩ := pairUp_counts h
  have free {f : Field} (hf : f ∈ r.fields)
      (ht : f.tag ∉ (r.fields.filter (·.related != 0)).map (·.tag)) : f.related = 0 := by
    by_contra related
    exact ht (List.mem_map_of_mem (List.mem_filter.mpr ⟨hf, by simpa using related⟩))
  exact ⟨l, d, hl, hd, tags, counts, free hl freeL, free hd freeD⟩

theorem Partnered.pairLengths {paired : FieldRegistry} (h : r.Partnered)
    (hp : r.pairLengths.outcome = .ok paired) : paired.Partnered := by
  obtain rfl := Except.ok.inj hp
  exact h.foldl_relate (fun _ => lengthPairs_fresh)
    (pairedTags_pairUp_nodup h.tags_distinct (List.Subset.refl r.fields))

/-- What can be done to a registry while a dictionary is read. -/
inductive Operation
  | registerNode (n : Node)
  | pairLengths
  | setLocation (name : String) (location : Location)

/-- A registry after an operation; one that fails changes nothing. -/
def apply (r : FieldRegistry) : Operation → FieldRegistry
  | .registerNode n => (r.registerNode n).outcome.toOption.getD r
  | .pairLengths => r.pairLengths.outcome.toOption.getD r
  | .setLocation name location => (r.setLocation name location).getD r

/-- The registry that operations lead to from the empty one. -/
def after (operations : List Operation) : FieldRegistry := operations.foldl apply empty

theorem Partnered.apply (h : r.Partnered) (operation : Operation) :
    (r.apply operation).Partnered := by
  cases operation with
  | registerNode n =>
    cases hr : (r.registerNode n).outcome with
    | error => simpa [FieldRegistry.apply, hr, Except.toOption] using h
    | ok => simpa [FieldRegistry.apply, hr, Except.toOption] using h.registerNode hr
  | pairLengths =>
    simpa [FieldRegistry.apply, FieldRegistry.pairLengths, Except.toOption] using h.pairLengths rfl
  | setLocation name location =>
    cases hm : r.setLocation name location with
    | none => simpa [FieldRegistry.apply, hm] using h
    | some => simpa [FieldRegistry.apply, hm] using h.setLocation hm

theorem after_partnered (operations : List Operation) : (after operations).Partnered := by
  have run {r : FieldRegistry} (h : r.Partnered) :
      (operations.foldl FieldRegistry.apply r).Partnered := by
    induction operations generalizing r with
    | nil => exact h
    | cons operation operations ih => exact ih (h.apply operation)
  exact run partnered_empty

theorem Partnered.lookupTag (h : r.Partnered) (hf : f ∈ r.fields) :
    r.lookupTag f.tag = some f :=
  (find?_key_eq_some_iff h.tags_distinct).mpr ⟨hf, rfl⟩

/-- Whatever is done to a registry, a field with a related tag has one partner, which no other
field has: the two point at each other, and one is a length field that the name of the other
starts. -/
theorem related_field_has_partner (operations : List Operation) {f : Field}
    (hf : f ∈ (after operations).fields) (related : f.related ≠ 0) :
    ∃ g, (after operations).lookupTag f.related = some g ∧ g ≠ f ∧ g.related = f.tag ∧
      (f.Counts g ∨ g.Counts f) ∧
      ∀ other ∈ (after operations).fields, other.related = f.related → other = f := by
  have h := after_partnered operations
  obtain ⟨g, hg, there, again, counts⟩ := h.partner f hf related
  refine ⟨g, there ▸ h.lookupTag hg, ?_, again, counts, ?_⟩
  · rintro rfl
    exact counts.elim (·.ne rfl) (·.ne rfl)
  · intro other ho same
    obtain ⟨k, hk, there', again', -⟩ := h.partner other ho (same ▸ related)
    have hkg : k = g := h.eq_of_tag_eq hk hg (there'.trans (same.trans there.symm))
    exact h.eq_of_tag_eq ho hf (again'.symm.trans (hkg ▸ again))

def fieldNode (number name type : String) : Node :=
  (((Node.leaf "field").withAttribute "number" number).withAttribute "name" name).withAttribute
    "type" type

/-- A run that pairs a length field late, with two registrations that fail on the way. -/
def latePairing : List Operation :=
  [.registerNode (fieldNode "349" "EncodedTextLen" "LENGTH"), .pairLengths,
    .registerNode (fieldNode "349" "EncodedText" "DATA"),
    .registerNode (fieldNode "350" "EncodedText" "DATA"), .setLocation "EncodedText" .header,
    .registerNode (fieldNode "351" "EncodedTextLength" "LENGTH"), .pairLengths,
    .registerNode (fieldNode "352" "EncodedText" "DATA"), .setLocation "Text" .trailer,
    .pairLengths]

theorem related_field_has_partner_of_latePairing :
    ∃ f ∈ (after latePairing).fields, f.tag = 349 ∧ f.related = 350 ∧
      ∃ g, (after latePairing).lookupTag 350 = some g ∧ g ≠ f ∧ g.related = 349 ∧
        (f.Counts g ∨ g.Counts f) ∧
        ∀ other ∈ (after latePairing).fields, other.related = 350 → other = f := by
  have fields : (after latePairing).fields =
      [⟨349, "EncodedTextLen", .length, .body, 350, [], none⟩,
        ⟨350, "EncodedText", .data, .header, 349, [], none⟩,
        ⟨351, "EncodedTextLength", .length, .body, 0, [], none⟩] := by
    cbv
  have hf : ⟨349, "EncodedTextLen", .length, .body, 350, [], none⟩ ∈
      (after latePairing).fields := by
    simp [fields]
  exact ⟨_, hf, rfl, rfl, related_field_has_partner latePairing hf (by decide)⟩

end FieldRegistry

end FixTables
