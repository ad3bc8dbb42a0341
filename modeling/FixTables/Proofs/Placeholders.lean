import FixTables.Proofs.StrictAndLenient
import FixTables.Proofs.TableBounds

namespace FixTables

namespace Resolved

/-- Members some of which placeholders have replaced. -/
def Hollowed (ms ms' : List Resolved) : Prop :=
  List.Forall₂ (fun m m' => m' = m ∨ ∃ name, m' = .unresolved name) ms ms'

/-- The tags of the members that other members have replaced. -/
def lostTags (ms ms' : List Resolved) : Set Nat :=
  {tag | ∃ m m', (m, m') ∈ ms.zip ms' ∧ m ≠ m' ∧ m.tag? = some tag}

namespace Hollowed

variable {ms ms' : List Resolved} {m' : Resolved} {tag : Nat}

theorem refl (ms : List Resolved) : Hollowed ms ms :=
  List.forall₂_same.mpr fun _ _ => .inl rfl

theorem mem (h : Hollowed ms ms') (hm : m' ∈ ms') (resolved : ∀ name, m' ≠ .unresolved name) :
    m' ∈ ms := by
  obtain ⟨m, hm, rfl | ⟨name, rfl⟩⟩ := exists_mem_of_forall₂ h.flip hm
  · exact hm
  · exact absurd rfl (resolved name)

theorem entryOf (h : Hollowed ms ms') {entry : List Resolved} (he : EntryOf ms' entry) :
    EntryOf ms entry := by
  have of_entry {m' : Resolved} {outer : List Resolved} (hm : m' ∈ ms')
      (ho : m'.entry? = some outer) : m' ∈ ms := by
    refine h.mem hm ?_
    rintro name rfl
    simp [Resolved.entry?] at ho
  cases he with
  | here hm he => exact .here (of_entry hm he) he
  | inside hm ho he => exact .inside (of_entry hm ho) ho he

/-- With placeholders in it, a list that fits into tables still does. -/
theorem fit (h : Hollowed ms ms') (fit : Fit ms) : Fit ms' where
  length_le := h.length_eq ▸ fit.length_le
  entries entry he := fit.entries entry (h.entryOf he)

theorem usedTags_subset (h : Hollowed ms ms') : usedTags ms' ⊆ usedTags ms := by
  rintro tag ⟨list, rfl | hl, x, hx, ht⟩
  · refine mem_usedTags_of_mem (h.mem hx ?_) ht
    rintro name rfl
    simp [Resolved.tag?] at ht
  · exact ⟨list, .inr (h.entryOf hl), x, hx, ht⟩

theorem maxTag_le (h : Hollowed ms ms') : maxTag ms' ≤ maxTag ms := by
  rcases maxTag_mem_usedTags ms' with none | used
  · rw [none]
    exact Nat.zero_le _
  · exact le_maxTag_of_mem_usedTags (h.usedTags_subset used)

/-- Placeholders take up the places of what they replace, so no other tag moves. -/
theorem firstPlace_eq (h : Hollowed ms ms') (stays : tag ∉ lostTags ms ms') :
    TagSequence.firstPlace? ms' tag = TagSequence.firstPlace? ms tag := by
  obtain ⟨lengths, related⟩ := List.forall₂_iff_zip.mp h
  have agree : List.Forall₂ (fun m m' => decide (m.tag? = some tag) = decide (m'.tag? = some tag))
      ms ms' := by
    refine List.forall₂_iff_zip.mpr ⟨lengths, ?_⟩
    intro m m' hm
    rcases related hm with rfl | ⟨name, rfl⟩
    · rfl
    · have untagged : m.tag? ≠ some tag := by
        intro ht
        refine stays ⟨m, .unresolved name, hm, ?_, ht⟩
        rintro rfl
        simp [Resolved.tag?] at ht
      have placeholder : (unresolved name).tag? = none := rfl
      simp [untagged, placeholder]
  have same := map_eq_of_forall₂ agree fun _ _ h => h
  have searched (xs : List Resolved) : xs.findIdx? (fun m => decide (m.tag? = some tag)) =
      (xs.map fun m => decide (m.tag? = some tag)).findIdx? id := by
    rw [List.findIdx?_map]
    rfl
  rw [TagSequence.firstPlace?, TagSequence.firstPlace?, searched, searched, same]

end Hollowed

end Resolved

namespace GroupLayout

variable {ms ms' : List Resolved} {bound bound' : Nat} {owner : String} {gs gs' : List GroupLayout}

/-- The groups that are left show the same, in the order in which they were. -/
theorem ofMembers_hollowed (h : Resolved.Hollowed ms ms')
    (hg : (ofMembers bound owner ms).outcome = .ok gs)
    (hg' : (ofMembers bound' owner ms').outcome = .ok gs') (le : bound' ≤ bound)
    (wide : bound ≤ bound' ∨ Resolved.maxTag ms' < bound') :
    ∃ left, left.Sublist gs ∧ SameEntries gs' left := by
  induction h generalizing gs gs' with
  | nil =>
    rw [ofMembers] at hg'
    obtain rfl := Except.ok.inj hg'
    exact ⟨[], List.nil_sublist _, .nil⟩
  | @cons m m' ms ms' hm _ ih =>
    have later : bound ≤ bound' ∨ Resolved.maxTag ms' < bound' := by
      refine wide.imp_right fun all => ?_
      rw [Resolved.maxTag_cons] at all
      exact lt_of_le_of_lt (Nat.le_max_right _ _) all
    rcases hm with rfl | ⟨name, rfl⟩
    · cases m' with
      | field | unresolved => exact ih hg hg' later
      | group countTag name required entry =>
        obtain ⟨tag, sequence, groups, others, ht, hs, hn, ho, rfl⟩ := ofMembers_cons_of_group hg
        obtain ⟨tag', sequence', groups', others', ht', hs', hn', ho', rfl⟩ :=
          ofMembers_cons_of_group hg'
        obtain rfl := Except.ok.inj (ht.symm.trans ht')
        obtain ⟨left, sub, same⟩ := ih ho ho' later
        have nested : bound ≤ bound' ∨ Resolved.maxTag entry < bound' :=
          wide.imp_right (lt_of_le_of_lt (Resolved.maxTag_entry_le List.mem_cons_self rfl))
        refine ⟨⟨name, countTag, tag, sequence, groups⟩ :: left, sub.cons_cons _, ?_⟩
        exact .cons (TagSequence.build_entries_eq hs' hs le nested)
          (ofMembers_sameEntries hn' hn le nested) same
    · rw [ofMembers, ofMember_eq_none_iff.mpr rfl] at hg'
      cases m with
      | field | unresolved => exact ih hg hg' later
      | group =>
        obtain ⟨_, _, _, others, _, _, _, ho, rfl⟩ := ofMembers_cons_of_group hg
        obtain ⟨left, sub, same⟩ := ih ho hg' later
        exact ⟨left, sub.cons _, same⟩

end GroupLayout

/-- A reference to a field or a group that has been given the name of no field. -/
def Member.Orphaned (fields : FieldRegistry) (m m' : Member) : Prop :=
  m.kind ≠ .component ∧ ∃ name, fields.lookup name = none ∧ m' = { m with name }

namespace Resolver

/-- What references unfold to, and the same with placeholders for those that bear another name in a
second list. -/
inductive Replaces (r : Resolver) :
    List Member → List Member → List Resolved → List Resolved → Prop
  | nil : Replaces r [] [] [] []
  | kept {m : Member} {ms ms' : List Member} {part out out' : List Resolved} :
      r.Unfolds [] [m] part → Replaces r ms ms' out out' →
      Replaces r (m :: ms) (m :: ms') (part ++ out) (part ++ out')
  | renamed {m m' : Member} {ms ms' : List Member} {x : Resolved} {out out' : List Resolved} :
      m'.name ≠ m.name → r.Unfolds [] [m] [x] → Replaces r ms ms' out out' →
      Replaces r (m :: ms) (m' :: ms') (x :: out) (.unresolved m'.name :: out')

variable {r : Resolver} {ms ms' : List Member} {m m' : Member} {out out' : List Resolved}

theorem Replaces.hollowed (h : r.Replaces ms ms' out out') : Resolved.Hollowed out out' := by
  induction h with
  | nil => exact .nil
  | kept _ _ ih => exact List.rel_append (Resolved.Hollowed.refl _) ih
  | renamed _ _ _ ih => exact .cons (.inr ⟨_, rfl⟩) ih

/-- A known field or group unfolds to one member. -/
theorem unfolds_singleton (hk : m.kind ≠ .component) (known : r.Known m)
    (h : r.Unfolds [] [m] out) : ∃ x, out = [x] := by
  cases h with
  | field _ _ h | group _ _ _ h =>
    cases h
    exact ⟨_, rfl⟩
  | component refers => exact absurd refers hk
  | unknown _ unknown => exact absurd known unknown

theorem not_known_of_lookup (hk : m.kind ≠ .component) (none : r.fields.lookup m.name = none) :
    ¬ r.Known m := by
  simp [Known, hk, none]

variable {fields : FieldRegistry} {components : ComponentRegistry}

theorem known_of_unfolds (h : Unfolds ⟨fields, components, true⟩ [] [m] out) :
    Known ⟨fields, components, true⟩ m := by
  cases h with
  | field hk hf => exact known_of_field (by simp [hk]) hf
  | group hk hf => exact known_of_field (by simp [hk]) hf
  | component hk hc => exact known_of_component hk hc
  | unknown strict => exact nomatch strict

/-- Where references have been orphaned, a lenient resolver puts placeholders for what a strict one
found before, and leaves all else. -/
theorem exists_replaces (h : List.Forall₂ (fun m m' => m' = m ∨ m.Orphaned fields m') ms ms')
    (unfolds : Unfolds ⟨fields, components, true⟩ [] ms out) :
    ∃ out', Unfolds ⟨fields, components, false⟩ [] ms' out' ∧
      Replaces ⟨fields, components, true⟩ ms ms' out out' := by
  induction h generalizing out with
  | nil =>
    cases unfolds
    exact ⟨[], .nil, .nil⟩
  | @cons m m' ms ms' hm _ ih =>
    have joined : Unfolds ⟨fields, components, true⟩ [] ([m] ++ ms) out := unfolds
    obtain ⟨part, rest, hpart, hrest, rfl⟩ := unfolds_append_iff.mp joined
    obtain ⟨rest', hrest', replaces⟩ := ih hrest
    rcases hm with rfl | ⟨hk, name, absent, rfl⟩
    · exact ⟨part ++ rest', hpart.leniently.append hrest', .kept hpart replaces⟩
    · have known := known_of_unfolds hpart
      obtain ⟨x, rfl⟩ := unfolds_singleton hk known hpart
      have unknown : ¬ Known ⟨fields, components, false⟩ { m with name } :=
        not_known_of_lookup hk absent
      refine ⟨.unresolved name :: rest', .unknown rfl unknown hrest', .renamed ?_ hpart replaces⟩
      intro same
      rw [show name = m.name from same] at absent
      exact not_known_of_lookup hk absent known

end Resolver

/-- A layout in which placeholders stand for the members that renamed references unfolded to before:
all other tags have kept their positions, and the groups that are left show what they did. -/
structure MessageLayout.HollowedAs (r : Resolver) (ms ms' : List Member)
    (l l' : MessageLayout) : Prop where
  name : l'.name = l.name
  msgType : l'.msgType = l.msgType
  typeId : l'.typeId = l.typeId
  members : r.Replaces ms ms' l.members l'.members
  position : ∀ tag, tag ∉ Resolved.lostTags l.members l'.members →
    l'.position tag = l.position tag
  groups : ∃ left, left.Sublist l.groups ∧ GroupLayout.SameEntries l'.groups left

namespace MessageLayout

variable {m m' : Message} {r : Resolver} {ms ms' : List Member} {bound bound' : Nat}
  {l l' : MessageLayout}

/-- A bound may shrink with the members, but not below a tag that is left. -/
theorem position_hollowed (h : Resolved.Hollowed l.members l'.members)
    (built : (build m l.members bound).outcome = .ok l)
    (built' : (build m' l'.members bound').outcome = .ok l') (le : bound' ≤ bound)
    (wide : bound ≤ bound' ∨ Resolved.maxTag l'.members < bound') {tag : Nat}
    (stays : tag ∉ Resolved.lostTags l.members l'.members) : l'.position tag = l.position tag := by
  rw [position_of_build built, position_of_build built', ← h.firstPlace_eq stays]
  cases hp : TagSequence.firstPlace? l'.members tag with
  | none => simp
  | some p =>
    obtain ⟨x, hx, ht⟩ :=
      TagSequence.firstPlace_isSome_iff.mp (Option.isSome_iff_exists.mpr ⟨p, hp⟩)
    have used := Resolved.tag_le_maxTag hx ht
    have same : tag < bound' ↔ tag < bound := by omega
    simp only [same]

theorem hollowedAs_of_built (h : r.Replaces ms ms' l.members l'.members)
    (name : m'.name = m.name) (msgType : m'.msgType = m.msgType)
    (built : (build m l.members bound).outcome = .ok l)
    (built' : (build m' l'.members bound').outcome = .ok l') (le : bound' ≤ bound)
    (wide : bound ≤ bound' ∨ Resolved.maxTag l'.members < bound') :
    l.HollowedAs r ms ms' l' := by
  obtain ⟨hname, htype, hid, -, -⟩ := build_eq_ok built
  obtain ⟨hname', htype', hid', -, -⟩ := build_eq_ok built'
  have hollowed := h.hollowed
  refine ⟨?_, ?_, ?_, h, fun tag => position_hollowed hollowed built built' le wide, ?_⟩
  · rw [hname', hname, name]
  · rw [htype', htype, msgType]
  · rw [hid', hid, Message.typeId, Message.typeId, msgType]
  · have groups' := build_groups built'
    rw [name] at groups'
    exact GroupLayout.ofMembers_hollowed hollowed (build_groups built) groups' le wide

end MessageLayout

end FixTables
