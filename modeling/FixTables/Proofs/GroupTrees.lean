import FixTables.Proofs.SourceTables
import FixTables.Proofs.LargerTables
import FixTables.Proofs.MessageFrames

namespace FixTables

namespace TagSequence

open Resolved (Tagged)

variable {members : List Resolved} {bound : Nat} {owner : String} {s : TagSequence} {tag p : Nat}

/-- Tags below the bound that occur in a list are those that its table records. -/
theorem position_isSome_iff (h : (build members bound owner).outcome = .ok s) :
    (s.position tag).isSome ↔ tag < bound ∧ ∃ m ∈ members, m.tag? = some tag := by
  rw [← mem_recordedTags_iff_position h, mem_recordedTags]

theorem position_eq_none_of_absent (h : (build members bound owner).outcome = .ok s)
    (absent : ∀ m ∈ members, m.tag? ≠ some tag) : s.position tag = none := by
  rw [← Option.not_isSome_iff_eq_none, position_isSome_iff h]
  rintro ⟨_, m, hm, ht⟩
  exact absent m hm ht

/-- Members without tags take up the first places of a list, if it starts with such. -/
theorem firstPlace_of_untagged_before {before after : List Resolved} {m : Resolved}
    (untagged : ∀ x ∈ before, x.tag? = none) (ht : m.tag? = some tag) :
    firstPlace? (before ++ m :: after) tag = some (before.length + 1) := by
  have absent : firstPlace? before tag = none :=
    firstPlace_eq_none_iff.mpr fun x hx => by simp [untagged x hx]
  rw [firstPlace_append_of_none absent]
  simp [firstPlace?, List.findIdx?_cons, ht]
  omega

theorem length_lt_firstPlace {before after : List Resolved}
    (untagged : ∀ x ∈ before, x.tag? = none)
    (h : firstPlace? (before ++ after) tag = some p) : before.length < p := by
  have absent : firstPlace? before tag = none :=
    firstPlace_eq_none_iff.mpr fun x hx => by simp [untagged x hx]
  rw [firstPlace_append_of_none absent] at h
  obtain ⟨q, hq, rfl⟩ := Option.map_eq_some_iff.mp h
  have := (firstPlace_bounds hq).1
  omega

theorem build_eq_error {e : SchemaError} (h : (build members bound owner).outcome = .error e) :
    ∃ reason, e = .invalidMessage owner reason := by
  simp only [build] at h
  split at h
  · simp at h
  · exact ⟨_, (Except.error.inj h).symm⟩

end TagSequence

namespace GroupLayout

/-- The layouts of the groups among members: one for each group in order, and within a group one
for each group among the members of its entry. -/
inductive Mirror (rel : List Resolved → GroupLayout → Prop) :
    List Resolved → List GroupLayout → Prop
  | nil : Mirror rel [] []
  | plain {m : Resolved} {ms : List Resolved} {gs : List GroupLayout} : m.entry? = none →
      Mirror rel ms gs → Mirror rel (m :: ms) gs
  | group {name : String} {countTag : Nat} {required : Bool} {entry ms : List Resolved}
      {g : GroupLayout} {gs : List GroupLayout} : g.name = name → g.countTag = countTag →
      rel entry g → Mirror rel entry g.groups → Mirror rel ms gs →
      Mirror rel (.group countTag name required entry :: ms) (g :: gs)

variable {rel rel' : List Resolved → GroupLayout → Prop} {bound : Nat} {owner name : String}
  {ms entry : List Resolved} {gs : List GroupLayout} {g : GroupLayout}

theorem Mirror.imp (h : Mirror rel ms gs)
    (more : ∀ entry g, Resolved.EntryOf ms entry → rel entry g → rel' entry g) :
    Mirror rel' ms gs := by
  induction h with
  | nil => exact .nil
  | plain plain _ ih =>
    exact .plain plain (ih fun entry g he => more entry g (Resolved.entryOf_cons_iff.mpr (.inr he)))
  | group name tag related _ _ inner rest =>
    refine .group name tag (more _ _ (.here List.mem_cons_self rfl) related) (inner ?_) (rest ?_)
    · exact fun entry g he => more entry g (.inside List.mem_cons_self rfl he)
    · exact fun entry g he => more entry g (Resolved.entryOf_cons_iff.mpr (.inr he))

/-- Exactly the layouts that are built one by one from the entries are built from a list. -/
theorem ofMembers_eq_ok_iff_mirror :
    (ofMembers bound owner ms).outcome = .ok gs ↔
      Mirror (fun entry g => delimiter owner g.name entry = .ok g.delimiterTag ∧
        (TagSequence.build entry bound owner).outcome = .ok g.sequence) ms gs := by
  induction ms using Resolved.entry_induction generalizing gs with
  | nil =>
    rw [ofMembers]
    constructor
    · intro h
      obtain rfl := Except.ok.inj h
      exact .nil
    · intro h
      cases h
      rfl
  | cons m ms inner rest =>
    cases m with
    | field | unresolved =>
      rw [ofMembers, ofMember_eq_none_iff.mpr rfl]
      constructor
      · exact fun h => .plain rfl (rest.mp h)
      · intro h
        cases h with
        | plain _ h => exact rest.mpr h
    | group countTag name required entry =>
      constructor
      · intro h
        obtain ⟨tag, sequence, groups, others, ht, hs, hg, ho, rfl⟩ := ofMembers_cons_of_group h
        exact .group rfl rfl ⟨ht, hs⟩ ((inner entry rfl).mp hg) (rest.mp ho)
      · intro h
        cases h with
        | plain he => simp [Resolved.entry?] at he
        | @group _ _ _ _ _ g _ hname htag built hg ho =>
          obtain ⟨_, _, delimiterTag, sequence, groups⟩ := g
          obtain ⟨rfl, rfl⟩ : _ ∧ _ := ⟨hname, htag⟩
          simp only [ofMembers, ofMember?, Traced.bind_eq_ok_iff, Traced.ofExcept_outcome,
            Traced.pure_outcome]
          exact ⟨_, ⟨_, built.1, _, built.2, _, (inner entry rfl).mpr hg, rfl⟩, _, rest.mpr ho, rfl⟩

/-- What the layout of a group tells of the members of its entry, in a table of a given size. -/
structure LaysOut (bound : Nat) (owner : String) (entry : List Resolved) (g : GroupLayout) :
    Prop where
  sequence : (TagSequence.build entry bound owner).outcome = .ok g.sequence
  delimiter : ∃ before first after, entry = before ++ first :: after ∧
    (∀ m ∈ before, m.tag? = none) ∧ first.tag? = some g.delimiterTag
  delimiter_least : g.delimiterTag < bound → ∃ p, g.sequence.position g.delimiterTag = some p ∧
    ∀ tag q, g.sequence.position tag = some q → p ≤ q
  delimiter_first : g.delimiterTag < bound → (∀ name, .unresolved name ∉ entry) →
    g.sequence.position g.delimiterTag = some 1
  apart : ∀ tag, (∀ m ∈ entry, m.tag? ≠ some tag) → g.sequence.position tag = none

/-- The delimiter is the tag of the first member that has one. -/
theorem delimiter_eq_ok {tag : Nat} (h : delimiter owner name entry = .ok tag) :
    ∃ before first after, entry = before ++ first :: after ∧
      (∀ m ∈ before, m.tag? = none) ∧ first.tag? = some tag := by
  unfold delimiter at h
  split at h
  next found hf =>
    obtain rfl := Except.ok.inj h
    obtain ⟨before, first, after, split, tagged, untagged⟩ := List.findSome?_eq_some_iff.mp hf
    exact ⟨before, first, after, split, untagged, tagged⟩
  next => simp at h

theorem laysOut_of_built (hd : delimiter owner name entry = .ok g.delimiterTag)
    (hs : (TagSequence.build entry bound owner).outcome = .ok g.sequence) :
    LaysOut bound owner entry g := by
  obtain ⟨before, first, after, split, untagged, tagged⟩ := delimiter_eq_ok hd
  have place : TagSequence.firstPlace? entry g.delimiterTag = some (before.length + 1) := by
    rw [split]
    exact TagSequence.firstPlace_of_untagged_before untagged tagged
  have position (below : g.delimiterTag < bound) :
      g.sequence.position g.delimiterTag = some (before.length + 1) := by
    rw [TagSequence.position_build hs, if_pos below, place]
  refine ⟨hs, ⟨before, first, after, split, untagged, tagged⟩,
    fun below => ⟨_, position below, ?_⟩, ?_, fun tag => TagSequence.position_eq_none_of_absent hs⟩
  · intro tag q hq
    rw [TagSequence.position_build hs] at hq
    split at hq
    next =>
      rw [split] at hq
      exact TagSequence.length_lt_firstPlace untagged hq
    next => simp at hq
  · intro below resolved
    have none_before : before = [] := by
      refine List.eq_nil_iff_forall_not_mem.mpr fun m hm => ?_
      -- Of all members only placeholders have no tag.
      have hn := untagged m hm
      cases m with
      | field | group => simp [Resolved.tag?] at hn
      | unresolved name => exact resolved name (by simp [split, hm])
    rw [position below, none_before]
    rfl

theorem delimiter_eq_error {e : SchemaError} (h : delimiter owner name entry = .error e) :
    ∃ reason, e = .invalidMessage owner reason := by
  unfold delimiter at h
  split at h
  · simp at h
  · exact ⟨_, (Except.error.inj h).symm⟩

/-- Whatever goes wrong in groups, at any depth, is reported as a fault of their owner. -/
theorem ofMembers_eq_error {e : SchemaError} (h : (ofMembers bound owner ms).outcome = .error e) :
    ∃ reason, e = .invalidMessage owner reason := by
  induction ms using Resolved.entry_induction with
  | nil =>
    rw [ofMembers] at h
    simp at h
  | cons m ms inner rest =>
    cases m with
    | field | unresolved =>
      rw [ofMembers, ofMember_eq_none_iff.mpr rfl] at h
      exact rest h
    | group countTag name required entry =>
      simp only [ofMembers, ofMember?, Traced.bind_eq_error_iff, Traced.ofExcept_outcome,
        Traced.pure_outcome] at h
      obtain (h | ⟨_, _, h | ⟨_, _, h | ⟨_, _, h⟩⟩⟩) | ⟨_, _, h | ⟨_, _, h⟩⟩ := h
      · exact delimiter_eq_error h
      · exact TagSequence.build_eq_error h
      · exact inner entry rfl h
      · simp at h
      · exact rest h
      · simp at h

end GroupLayout

namespace MessageLayout

open GroupLayout (Mirror LaysOut)

variable {m : Message} {members : List Resolved} {bound : Nat}

theorem build_eq_error {e : SchemaError} (h : (build m members bound).outcome = .error e) :
    ∃ reason, e = .invalidMessage m.name reason := by
  simp only [build, Traced.bind_eq_error_iff, Traced.pure_outcome] at h
  obtain h | ⟨_, _, h | ⟨_, _, h⟩⟩ := h
  · exact TagSequence.build_eq_error h
  · exact GroupLayout.ofMembers_eq_error h
  · simp at h

/-- A message has a layout exactly if its lists of members are not too long and the entries of its
groups have tags, and is at fault otherwise. The layout has the groups of the members, nested as
they are, with tables and delimiters of their own; no table has tags of another list. -/
theorem build_mirrors_groups (m : Message) (members : List Resolved) (bound : Nat) :
    ((∃ l, (build m members bound).outcome = .ok l) ↔ Resolved.Fit members) ∧
    (¬ Resolved.Fit members →
      ∃ reason, (build m members bound).outcome = .error (.invalidMessage m.name reason)) ∧
    ∀ l, (build m members bound).outcome = .ok l →
      (l.name = m.name ∧ l.msgType = m.msgType ∧ l.typeId = m.typeId ∧ l.members = members) ∧
      (TagSequence.build members bound m.name).outcome = .ok l.sequence ∧
      Mirror (LaysOut bound m.name) members l.groups ∧
      ∀ tag, (∀ x ∈ members, x.tag? ≠ some tag) → l.position tag = none := by
  refine ⟨build_succeeds_iff m members bound, fun unfit => ?_, fun l h => ?_⟩
  · cases h : (build m members bound).outcome with
    | ok l => exact absurd ((build_succeeds_iff m members bound).mp ⟨l, h⟩) unfit
    | error e =>
      obtain ⟨reason, rfl⟩ := build_eq_error h
      exact ⟨reason, rfl⟩
  · obtain ⟨name, type, typeId, same, sequence⟩ := build_eq_ok h
    refine ⟨⟨name, type, typeId, same⟩, sequence, ?_, fun tag =>
      TagSequence.position_eq_none_of_absent sequence⟩
    exact (GroupLayout.ofMembers_eq_ok_iff_mirror.mp (build_groups h)).imp fun entry g _ built =>
      GroupLayout.laysOut_of_built built.1 built.2

/-- A group that starts with a placeholder and holds another group; with nothing but the
placeholder in it the message is at fault. -/
theorem build_mirrors_groups_of_sides :
    let cross : Message := ⟨"NewOrderCross", "s", .app, none, [], [], []⟩
    let parties : Resolved := .group 453 "NoPartyIDs" false [.field 448 "PartyID" false]
    let sides : List Resolved :=
      [.group 552 "NoSides" true [.unresolved "Lost", .field 54 "Side" true, parties]]
    let bare : List Resolved := [.group 552 "NoSides" true [.unresolved "Lost"]]
    (Resolved.Fit sides ∧ ∃ l, (build cross sides 500).outcome = .ok l ∧
      Mirror (LaysOut 500 "NewOrderCross") sides l.groups ∧ l.position 453 = none) ∧
    ¬ Resolved.Fit bare ∧
      ∃ reason, (build cross bare 500).outcome = .error (.invalidMessage "NewOrderCross" reason) := by
  intro cross parties sides bare
  have fit : Resolved.Fit sides := by
    refine ⟨by decide, ?_⟩
    simp [sides, parties, Resolved.forall_entryOf_cons_iff, Resolved.entry?,
      Resolved.not_entryOf_nil, Resolved.Tagged, Resolved.tag?, TagSequence.maxMembers]
  have unfit : ¬ Resolved.Fit bare := by
    intro h
    have := (h.entries [.unresolved "Lost"] (.here List.mem_cons_self rfl)).2
    simp [Resolved.Tagged, Resolved.tag?] at this
  obtain ⟨succeeds, -, laid⟩ := build_mirrors_groups cross sides 500
  obtain ⟨-, fails, -⟩ := build_mirrors_groups cross bare 500
  obtain ⟨l, h⟩ := succeeds.mpr fit
  obtain ⟨-, -, mirrored, apart⟩ := laid l h
  exact ⟨⟨fit, l, h, mirrored, apart 453 (by simp [sides, Resolved.tag?])⟩, unfit, fails unfit⟩

end MessageLayout

end FixTables
