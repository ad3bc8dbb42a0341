import FixTables.Proofs.LayoutBuilding
import FixTables.Proofs.Linking

namespace FixTables

namespace Resolved

variable {m : Resolved} {ms entry : List Resolved}

theorem maxTagsFrom_eq_max (max : Nat) (ms : List Resolved) :
    maxTagsFrom max ms = Nat.max max (maxTag ms) := by
  induction ms using entry_induction generalizing max with
  | nil => exact (Nat.max_zero max).symm
  | cons m ms inner rest =>
    have first : maxTagFrom max m = Nat.max max (maxTagFrom 0 m) := by
      cases m with
      | field tag name required => exact congrArg (Nat.max max) (Nat.zero_max tag).symm
      | group countTag name required members =>
        have alone : Nat.max 0 countTag = countTag := Nat.zero_max countTag
        rw [maxTagFrom, maxTagFrom, inner members rfl, inner members rfl, alone]
        exact Nat.max_assoc max countTag (maxTag members)
      | unresolved name => exact (Nat.max_zero max).symm
    rw [maxTag, maxTagsFrom, maxTagsFrom, rest, rest (maxTagFrom 0 m), first]
    exact Nat.max_assoc _ _ _

theorem maxTag_cons (m : Resolved) (ms : List Resolved) :
    maxTag (m :: ms) = Nat.max (maxTagFrom 0 m) (maxTag ms) :=
  maxTagsFrom_eq_max (maxTagFrom 0 m) ms

theorem maxTagFrom_le_maxTag (hm : m ∈ ms) : maxTagFrom 0 m ≤ maxTag ms := by
  induction ms with
  | nil => simp at hm
  | cons first ms ih =>
    rw [maxTag_cons]
    rcases List.mem_cons.mp hm with rfl | hm
    · exact Nat.le_max_left _ _
    · exact (ih hm).trans (Nat.le_max_right _ _)

theorem tag_le_maxTag (hm : m ∈ ms) {tag : Nat} (ht : m.tag? = some tag) : tag ≤ maxTag ms := by
  refine Nat.le_trans ?_ (maxTagFrom_le_maxTag hm)
  cases m with
  | field =>
    obtain rfl := Option.some.inj ht
    exact Nat.le_max_right _ _
  | group countTag name required members =>
    obtain rfl := Option.some.inj ht
    rw [maxTagFrom, maxTagsFrom_eq_max]
    exact (Nat.le_max_right 0 _).trans (Nat.le_max_left _ _)
  | unresolved => simp [tag?] at ht

theorem maxTag_entry_le (hm : m ∈ ms) (he : m.entry? = some entry) : maxTag entry ≤ maxTag ms := by
  refine Nat.le_trans ?_ (maxTagFrom_le_maxTag hm)
  cases m with
  | field | unresolved => simp [Resolved.entry?] at he
  | group countTag name required members =>
    obtain rfl := Option.some.inj he
    rw [maxTagFrom, maxTagsFrom_eq_max]
    exact Nat.le_max_right _ _

theorem maxTagIn_le_iff {lists : List (List Resolved)} {n : Nat} :
    maxTagIn lists ≤ n ↔ ∀ ms ∈ lists, maxTag ms ≤ n := by
  have from_any (start : Nat) :
      lists.foldl (fun max members => Nat.max max (maxTag members)) start ≤ n ↔
        start ≤ n ∧ ∀ ms ∈ lists, maxTag ms ≤ n := by
    induction lists generalizing start with
    | nil => simp
    | cons ms lists ih => rw [List.foldl_cons, ih, List.forall_mem_cons, Nat.max_le, and_assoc]
  rw [maxTagIn, from_any]
  exact and_iff_right (Nat.zero_le n)

end Resolved

namespace TagSequence

variable {s s' : TagSequence}

/-- Tables that give the same positions have the same entries, whatever their sizes. -/
theorem entries_eq_of_position (same : ∀ tag, s.position tag = s'.position tag) :
    s.entries = s'.entries := by
  have distinct (s : TagSequence) : s.entries.Nodup :=
    s.entries_ascending.imp fun h he => by
      rw [he] at h
      exact Nat.lt_irrefl _ h
  have perm : s.entries.Perm s'.entries := by
    apply (List.perm_ext_iff_of_nodup (distinct s) (distinct s')).mpr
    rintro ⟨tag, p⟩
    rw [mem_entries_iff, mem_entries_iff, same]
  refine perm.eq_of_pairwise ?_ s.entries_ascending s'.entries_ascending
  intro a b _ _ hab hba
  exact absurd hab (Nat.lt_asymm hba)

variable {members : List Resolved} {bound bound' : Nat} {owner : String}

/-- A larger table records nothing more if all tags were below the bound before. -/
theorem build_entries_eq (hs : (build members bound owner).outcome = .ok s)
    (hs' : (build members bound' owner).outcome = .ok s') (le : bound ≤ bound')
    (wide : bound' ≤ bound ∨ Resolved.maxTag members < bound) : s.entries = s'.entries := by
  apply entries_eq_of_position
  intro tag
  rw [position_build hs, position_build hs']
  by_cases inside : tag < bound
  · rw [if_pos inside, if_pos (by omega)]
  · rw [if_neg inside]
    split
    next further =>
      have all : Resolved.maxTag members < bound := wide.resolve_left (by omega)
      symm
      by_contra placed
      obtain ⟨p, hp⟩ := Option.ne_none_iff_exists'.mp placed
      obtain ⟨m, hm, ht⟩ := firstPlace_isSome_iff.mp (Option.isSome_iff_exists.mpr ⟨p, hp⟩)
      have := Resolved.tag_le_maxTag hm ht
      omega
    next => rfl

end TagSequence

namespace GroupLayout

/-- The same tree of groups with the same entries in every table. -/
inductive SameEntries : List GroupLayout → List GroupLayout → Prop
  | nil : SameEntries [] []
  | cons {name : String} {countTag delimiterTag : Nat} {sequence sequence' : TagSequence}
      {groups groups' gs gs' : List GroupLayout} :
      sequence.entries = sequence'.entries → SameEntries groups groups' → SameEntries gs gs' →
      SameEntries (⟨name, countTag, delimiterTag, sequence, groups⟩ :: gs)
        (⟨name, countTag, delimiterTag, sequence', groups'⟩ :: gs')

variable {members : List Resolved} {bound bound' : Nat} {owner : String}
  {gs gs' : List GroupLayout}

theorem ofMembers_cons_of_group {countTag : Nat} {name : String} {required : Bool}
    {entry ms : List Resolved}
    (h : (ofMembers bound owner (.group countTag name required entry :: ms)).outcome = .ok gs) :
    ∃ delimiterTag sequence groups rest,
      delimiter owner name entry = .ok delimiterTag ∧
      (TagSequence.build entry bound owner).outcome = .ok sequence ∧
      (ofMembers bound owner entry).outcome = .ok groups ∧
      (ofMembers bound owner ms).outcome = .ok rest ∧
      gs = ⟨name, countTag, delimiterTag, sequence, groups⟩ :: rest := by
  simp only [ofMembers, ofMember?, Traced.bind_eq_ok_iff, Traced.ofExcept_outcome,
    Traced.pure_outcome] at h
  obtain ⟨g, ⟨delimiterTag, hd, sequence, hs, groups, hg, h⟩, rest, hr, h'⟩ := h
  obtain rfl := Except.ok.inj h
  obtain rfl := Except.ok.inj h'
  exact ⟨delimiterTag, sequence, groups, rest, hd, hs, hg, hr, rfl⟩

/-- Layouts of the same groups for two bounds differ in the sizes of tables alone if all tags are
below the smaller bound. -/
theorem ofMembers_sameEntries (hg : (ofMembers bound owner members).outcome = .ok gs)
    (hg' : (ofMembers bound' owner members).outcome = .ok gs') (le : bound ≤ bound')
    (wide : bound' ≤ bound ∨ Resolved.maxTag members < bound) : SameEntries gs gs' := by
  induction members using Resolved.entry_induction generalizing gs gs' with
  | nil =>
    obtain rfl := Except.ok.inj hg
    obtain rfl := Except.ok.inj hg'
    exact .nil
  | cons m ms inner rest =>
    -- Room above all tags is room above those that are left and above those in an entry.
    have later : bound' ≤ bound ∨ Resolved.maxTag ms < bound := by
      refine wide.imp_right fun h => ?_
      rw [Resolved.maxTag_cons] at h
      exact lt_of_le_of_lt (Nat.le_max_right _ _) h
    cases m with
    | field | unresolved => exact rest hg hg' later
    | group countTag name required entry =>
      obtain ⟨tag, sequence, groups, others, ht, hs, hn, ho, rfl⟩ := ofMembers_cons_of_group hg
      obtain ⟨tag', sequence', groups', others', ht', hs', hn', ho', rfl⟩ :=
        ofMembers_cons_of_group hg'
      obtain rfl := Except.ok.inj (ht.symm.trans ht')
      have nested : bound' ≤ bound ∨ Resolved.maxTag entry < bound :=
        wide.imp_right (lt_of_le_of_lt (Resolved.maxTag_entry_le List.mem_cons_self rfl))
      exact .cons (TagSequence.build_entries_eq hs hs' le nested) (inner entry rfl hn hn' nested)
        (rest ho ho' later)

end GroupLayout

namespace MessageLayout

/-- A layout that may have larger tables but shows the same in them. -/
structure KeptAs (l l' : MessageLayout) : Prop where
  name : l'.name = l.name
  msgType : l'.msgType = l.msgType
  typeId : l'.typeId = l.typeId
  members : l'.members = l.members
  entries : l.sequence.entries = l'.sequence.entries
  groups : GroupLayout.SameEntries l.groups l'.groups

theorem build_keptAs {m : Message} {members : List Resolved} {bound bound' : Nat}
    {l l' : MessageLayout} (h : (build m members bound).outcome = .ok l)
    (h' : (build m members bound').outcome = .ok l') (le : bound ≤ bound')
    (wide : bound' ≤ bound ∨ Resolved.maxTag members < bound) : l.KeptAs l' := by
  simp only [build, Traced.bind_eq_ok_iff, Traced.pure_outcome] at h h'
  obtain ⟨sequence, hs, groups, hg, h⟩ := h
  obtain ⟨sequence', hs', groups', hg', h'⟩ := h'
  obtain rfl := Except.ok.inj h
  obtain rfl := Except.ok.inj h'
  exact ⟨rfl, rfl, rfl, rfl, TagSequence.build_entries_eq hs hs' le wide,
    GroupLayout.ofMembers_sameEntries hg hg' le wide⟩

end MessageLayout

end FixTables
