import FixTables.Proofs.Linking

namespace FixTables

namespace Member

mutual
/-- A member without what its declaration says about presence, nor those inside it. -/
def unflagged : Member → Member
  | ⟨name, kind, _, _, children⟩ => ⟨name, kind, false, false, unflaggedAll children⟩
def unflaggedAll : List Member → List Member
  | [] => []
  | m :: ms => m.unflagged :: unflaggedAll ms
end

theorem unflaggedAll_eq_map (ms : List Member) : unflaggedAll ms = ms.map unflagged := by
  induction ms with
  | nil => rfl
  | cons m ms ih => rw [unflaggedAll, ih, List.map_cons]

@[simp] theorem unflagged_name (m : Member) : m.unflagged.name = m.name := by
  cases m
  rfl

@[simp] theorem unflagged_kind (m : Member) : m.unflagged.kind = m.kind := by
  cases m
  rfl

@[simp] theorem unflagged_children (m : Member) :
    m.unflagged.children = m.children.map unflagged := by
  cases m
  exact unflaggedAll_eq_map _

/-- Members that are the same but for flags refer to the same name in the same way, and hold
members that are the same but for flags. -/
theorem of_unflagged_eq {m m' : Member} (h : m.unflagged = m'.unflagged) :
    m.name = m'.name ∧ m.kind = m'.kind ∧ m.children.map unflagged = m'.children.map unflagged := by
  refine ⟨?_, ?_, ?_⟩
  · simpa using congrArg name h
  · simpa using congrArg kind h
  · simpa using congrArg children h

theorem exists_cons_of_unflagged_eq {m : Member} {ms ms' : List Member}
    (h : (m :: ms).map unflagged = ms'.map unflagged) :
    ∃ m' rest', ms' = m' :: rest' ∧ m.name = m'.name ∧ m.kind = m'.kind ∧
      m.children.map unflagged = m'.children.map unflagged ∧
      ms.map unflagged = rest'.map unflagged := by
  cases ms' with
  | nil => simp at h
  | cons m' rest' =>
    obtain ⟨one, others⟩ := List.cons.inj h
    obtain ⟨name, kind, children⟩ := of_unflagged_eq one
    exact ⟨m', rest', rfl, name, kind, children, others⟩

end Member

namespace Component

def unflagged (c : Component) : Component := ⟨c.name, c.members.map Member.unflagged⟩

theorem of_unflagged_eq {c c' : Component} (h : c.unflagged = c'.unflagged) :
    c.name = c'.name ∧ c.members.map Member.unflagged = c'.members.map Member.unflagged := by
  simpa [unflagged] using h

end Component

namespace Message

/-- All of a message that matters to its tables. -/
def unflagged (m : Message) : Message where
  name := m.name
  msgType := m.msgType
  category := .app
  description := none
  header := m.header.map Member.unflagged
  body := m.body.map Member.unflagged
  trailer := m.trailer.map Member.unflagged

theorem unflagged_members (m : Message) : m.unflagged.members = m.members.map Member.unflagged := by
  simp [unflagged, members]

theorem of_unflagged_eq {m m' : Message} (h : m.unflagged = m'.unflagged) :
    m.name = m'.name ∧ m.msgType = m'.msgType ∧
      m.members.map Member.unflagged = m'.members.map Member.unflagged := by
  have name_eq : m.unflagged.name = m'.unflagged.name := by rw [h]
  have type_eq : m.unflagged.msgType = m'.unflagged.msgType := by rw [h]
  exact ⟨name_eq, type_eq, by simpa [unflagged_members] using congrArg members h⟩

end Message

namespace Resolved

mutual
/-- A resolved member without its flag, nor those of its entries. -/
def unflagged : Resolved → Resolved
  | field tag name _ => field tag name false
  | group countTag name _ members => group countTag name false (unflaggedAll members)
  | unresolved name => unresolved name
def unflaggedAll : List Resolved → List Resolved
  | [] => []
  | m :: ms => m.unflagged :: unflaggedAll ms
end

theorem unflaggedAll_eq_map (ms : List Resolved) : unflaggedAll ms = ms.map unflagged := by
  induction ms with
  | nil => rfl
  | cons m ms ih => rw [unflaggedAll, ih, List.map_cons]

@[simp] theorem unflagged_tag (m : Resolved) : m.unflagged.tag? = m.tag? := by
  cases m <;> rfl

@[simp] theorem unflagged_name (m : Resolved) : m.unflagged.name = m.name := by
  cases m <;> rfl

theorem unflagged_group (countTag : Nat) (name : String) (required : Bool)
    (members : List Resolved) :
    (group countTag name required members).unflagged =
      group countTag name false (members.map unflagged) := by
  rw [unflagged, unflaggedAll_eq_map]

theorem maxTagsFrom_unflagged (max : Nat) (ms : List Resolved) :
    maxTagsFrom max (ms.map unflagged) = maxTagsFrom max ms := by
  induction ms using entry_induction generalizing max with
  | nil => rfl
  | cons m ms inner rest =>
    rw [List.map_cons, maxTagsFrom, maxTagsFrom, rest]
    congr 1
    cases m with
    | field | unresolved => rfl
    | group countTag name required members =>
      rw [unflagged_group, maxTagFrom, maxTagFrom, inner members rfl]

theorem maxTag_congr {ms ms' : List Resolved} (h : ms.map unflagged = ms'.map unflagged) :
    maxTag ms = maxTag ms' := by
  rw [maxTag, maxTag, ← maxTagsFrom_unflagged, h, maxTagsFrom_unflagged]

end Resolved

namespace TagSequence

theorem place_unflagged (owner : String) (f : Filling) (m : Resolved) :
    Filling.place owner f m.unflagged = Filling.place owner f m := by
  simp only [Filling.place, Resolved.unflagged_tag, Resolved.unflagged_name]

/-- A table takes no notice of flags. -/
theorem build_unflagged (ms : List Resolved) (bound : Nat) (owner : String) :
    build (ms.map Resolved.unflagged) bound owner = build ms bound owner := by
  simp only [build, List.length_map, ← List.map_take, List.foldl_map, place_unflagged]

end TagSequence

namespace GroupLayout

theorem delimiter_unflagged (owner name : String) (ms : List Resolved) :
    delimiter owner name (ms.map Resolved.unflagged) = delimiter owner name ms := by
  simp only [delimiter, List.findSome?_map, Function.comp_def, Resolved.unflagged_tag]

/-- Nor do the layouts of groups. -/
theorem ofMembers_unflagged (bound : Nat) (owner : String) (ms : List Resolved) :
    ofMembers bound owner (ms.map Resolved.unflagged) = ofMembers bound owner ms := by
  induction ms using Resolved.entry_induction with
  | nil => rfl
  | cons m ms inner rest =>
    have same : ofMember? bound owner m.unflagged = ofMember? bound owner m := by
      cases m with
      | field | unresolved => rfl
      | group countTag name required members =>
        rw [Resolved.unflagged_group, ofMember?, ofMember?, delimiter_unflagged,
          TagSequence.build_unflagged, inner members rfl]
    rw [List.map_cons, ofMembers, ofMembers, same, rest]

end GroupLayout

namespace MessageLayout

/-- A layout without the list of its members: all that its tables show. -/
def bare (l : MessageLayout) : MessageLayout := { l with members := [] }

/-- Messages that are the same but for flags have layouts that differ in their members alone. -/
theorem build_congr {m m' : Message} {members members' : List Resolved} {bound : Nat}
    {l : MessageLayout} (same : m.unflagged = m'.unflagged)
    (members_same : members.map Resolved.unflagged = members'.map Resolved.unflagged)
    (h : (build m members bound).outcome = .ok l) :
    (build m' members' bound).outcome = .ok { l with members := members' } := by
  obtain ⟨name, msgType, _⟩ := Message.of_unflagged_eq same
  simp only [build, Traced.bind_eq_ok_iff, Traced.pure_outcome] at h ⊢
  obtain ⟨sequence, hs, groups, hg, h⟩ := h
  obtain rfl := Except.ok.inj h
  rw [← TagSequence.build_unflagged, members_same, TagSequence.build_unflagged, name] at hs
  rw [← GroupLayout.ofMembers_unflagged, members_same, GroupLayout.ofMembers_unflagged, name] at hg
  refine ⟨sequence, hs, groups, hg, ?_⟩
  simp only [Message.typeId, name, msgType]

end MessageLayout

end FixTables
