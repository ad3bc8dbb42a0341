import FixTables.Proofs.StrictAndLenient
import FixTables.Proofs.TagPositions

namespace FixTables

namespace Notice

def isOutside : Notice → Bool
  | tagOutsideTable .. => true
  | _ => false

def isRepeat : Notice → Bool
  | tagRepeated .. => true
  | _ => false

/-- The name of the member that a notice says was skipped, and where it stood. -/
def skipped? : Notice → Option (String × String)
  | skippedMember name _ context => some (name, context)
  | _ => none

end Notice

namespace TagSequence

/-- Whether a member has a tag that a table below `bound` has a slot for. -/
def isWithin (bound : Nat) (m : Resolved) : Bool := m.tag?.any (· < bound)

/-- Whether a member has a tag that a table below `bound` has no slot for. -/
def isBeyond (bound : Nat) (m : Resolved) : Bool := m.tag?.any (bound ≤ ·)

section Accounts

variable {xs : List Resolved} {m : Resolved} {bound tag : Nat}

theorem count_within_beyond_untagged (bound : Nat) (xs : List Resolved) :
    xs.countP (isWithin bound) + xs.countP (isBeyond bound) + xs.countP (·.tag?.isNone) =
      xs.length := by
  induction xs with
  | nil => rfl
  | cons m ms ih =>
    have one : (if isWithin bound m then 1 else 0) + (if isBeyond bound m then 1 else 0) +
        (if m.tag?.isNone then 1 else 0) = 1 := by
      cases hm : m.tag? with
      | none => simp [isWithin, isBeyond, hm]
      | some tag => by_cases hb : tag < bound <;> simp [isWithin, isBeyond, hm, hb]
    simp only [List.countP_cons, List.length_cons]
    omega

/-- A table under construction and its notices account for the members that have been placed. -/
structure Filling.Accounts (f : Filling) (bound : Nat) (xs : List Resolved) : Prop
    extends f.Holds bound xs where
  within : f.slots.countP (· != 0) + f.notices.countP Notice.isRepeat = xs.countP (isWithin bound)
  beyond : f.notices.countP Notice.isOutside = xs.countP (isBeyond bound)

theorem Filling.accounts_start (bound : Nat) :
    Filling.Accounts ⟨.replicate bound 0, 1, []⟩ bound [] where
  toHolds := Filling.holds_start bound []
  within := by simp
  beyond := rfl

theorem countP_set_of_empty {slots : Array Nat} {p : Nat} (hb : tag < slots.size)
    (hz : slots[tag] = 0) (hp : p ≠ 0) :
    (slots.set tag p).countP (· != 0) = slots.countP (· != 0) + 1 := by
  simp [Array.countP_set, hz, hp]

theorem Filling.Accounts.place {f : Filling} {owner : String} (h : f.Accounts bound xs) :
    (Filling.place owner f m).Accounts bound (xs ++ [m]) := by
  have holds : (Filling.place owner f m).Holds bound (xs ++ [m]) := h.toHolds.place
  obtain ⟨⟨hsize, hnext, -⟩, hwithin, hbeyond⟩ := h
  suffices counts : _ ∧ _ from ⟨holds, counts.1, counts.2⟩
  obtain ⟨slots, next, notices⟩ := f
  simp only [List.countP_append, List.countP_singleton, ← hwithin, ← hbeyond]
  simp only at hsize hnext
  simp only [Filling.place]
  split
  next hm => simp [isWithin, isBeyond, hm]
  next tag hm =>
    split
    next hb =>
      have within : isWithin bound m = true := by simp [isWithin, hm, ← hsize, hb]
      have beyond : ¬ isBeyond bound m = true := by simp [isBeyond, hm, ← hsize, hb]
      rw [if_pos within, if_neg beyond]
      split
      next hz =>
        rw [countP_set_of_empty hb hz (by omega)]
        exact ⟨Nat.add_right_comm _ _ _, rfl⟩
      next hz =>
        rw [List.countP_cons_of_pos rfl, List.countP_cons_of_neg (by simp [Notice.isOutside])]
        exact ⟨(Nat.add_assoc _ _ _).symm, rfl⟩
    next hb =>
      have within : ¬ isWithin bound m = true := by simp [isWithin, hm, ← hsize, hb]
      have beyond : isBeyond bound m = true := by simpa [isBeyond, hm, ← hsize] using hb
      rw [if_neg within, if_pos beyond, List.countP_cons_of_neg (by simp [Notice.isRepeat]),
        List.countP_cons_of_pos rfl]
      exact ⟨rfl, rfl⟩

theorem Filling.Accounts.foldl {f : Filling} (h : f.Accounts bound xs) (owner : String)
    (ms : List Resolved) : (ms.foldl (Filling.place owner) f).Accounts bound (xs ++ ms) := by
  induction ms generalizing f xs with
  | nil => simpa using h
  | cons m ms ih => simpa using ih h.place

end Accounts

variable {members : List Resolved} {bound : Nat} {owner : String} {s : TagSequence}

theorem length_entries (s : TagSequence) : s.entries.length = s.slots.countP (· != 0) := by
  have slots : s.slots.toList.zipIdx.countP (·.1 != 0) = s.slots.toList.countP (· != 0) := by
    rw [← List.zipIdx_map_fst 0 s.slots.toList, List.countP_map, List.zipIdx_map_fst]
    rfl
  rw [entries, List.length_map, ← List.countP_eq_length_filter, slots, Array.countP_toList]

theorem entries_tags_perm (h : (build members bound owner).outcome = .ok s) :
    (s.entries.map (·.1)).Perm (recordedTags members bound) := by
  have distinct : (s.entries.map (·.1)).Nodup :=
    List.pairwise_map.mpr (s.entries_ascending.imp fun lt => Nat.ne_of_lt lt)
  rw [List.perm_ext_iff_of_nodup distinct recordedTags_nodup]
  intro t
  rw [mem_recordedTags_iff_position h, Option.isSome_iff_exists]
  simp [← mem_entries_iff]

theorem build_accounts (h : (build members bound owner).outcome = .ok s) :
    s.entries.length + (build members bound owner).notices.countP Notice.isRepeat =
        members.countP (isWithin bound) ∧
      (build members bound owner).notices.countP Notice.isOutside =
        members.countP (isBeyond bound) := by
  have hlen := (build_succeeds_iff bound owner).mp ⟨s, h⟩
  have accounts := (Filling.accounts_start bound).foldl owner members
  rw [length_entries]
  unfold build at h ⊢
  simp only [hlen, if_true, List.take_of_length_le hlen] at h ⊢
  obtain rfl := Except.ok.inj h
  simp only [List.countP_reverse]
  exact ⟨accounts.within, accounts.beyond⟩

end TagSequence

namespace Resolver

open Resolved (missing missingIn)

variable {r : Resolver} {context : String} {cap : Option Bool} {path : List String}
  {ms : List Member} {m : Member} {first out : List Resolved}

theorem expand_cons_notices (hf : (r.expandMember context cap path m).outcome = .ok first)
    (ho : (r.expand context cap path ms).outcome = .ok out) :
    (r.expand context cap path (m :: ms)).notices =
      (r.expandMember context cap path m).notices ++ (r.expand context cap path ms).notices := by
  rw [expand, Traced.bind_notices_of_ok _ hf, Traced.bind_notices_of_ok _ ho,
    Traced.pure_notices, List.append_nil]

theorem expandMember_of_group_notices {f : Field} (hk : m.kind = .group)
    (hf : r.fields.lookup m.name = some f)
    (ho : (r.expand context none path m.children).outcome = .ok out) :
    (r.expandMember context cap path m).notices =
      (r.expand context none path m.children).notices := by
  rw [expandMember, hk]
  simp only [hf]
  rw [Traced.bind_notices_of_ok _ ho, Traced.pure_notices, List.append_nil]

theorem unknown_notices (h : (r.unknown context m).outcome = .ok out) :
    (r.unknown context m).notices = [.skippedMember m.name m.kind context] := by
  have lenient := (unknown_eq_ok_iff.mp h).1
  simp only [unknown, lenient, Bool.false_eq_true, if_false]
  rfl

/-- Expansion tells of each member that it leaves a placeholder for, in the order in which the
placeholders are read. -/
theorem expand_tells_missing (h : (r.expand context cap path ms).outcome = .ok out) :
    (r.expand context cap path ms).notices.map Notice.skipped? =
      (missingIn out).map fun name => some (name, context) := by
  induction path, ms using r.components.walk_induction generalizing cap out with
  | nil path =>
    obtain rfl := expand_nil_eq_ok_iff.mp h
    rw [expand]
    rfl
  | cons path m ms nested through rest =>
    obtain ⟨first, others, hf, ho, rfl⟩ := expand_cons_eq_ok_iff.mp h
    rw [expand_cons_notices hf ho, List.map_append, rest ho, Resolved.missingIn_append,
      List.map_append]
    congr 1
    by_cases known : r.Known m
    · cases hk : m.kind with
      | field =>
        obtain ⟨f, hl⟩ := by simpa [Known, hk] using known
        rw [expandMember_of_field hk hl] at hf ⊢
        obtain rfl := Except.ok.inj hf
        rfl
      | group =>
        obtain ⟨f, hl⟩ := by simpa [Known, hk] using known
        obtain ⟨entry, he, rfl⟩ := (expandMember_of_group_eq_ok_iff hk hl).mp hf
        rw [expandMember_of_group_notices hk hl he, nested he]
        simp [missingIn, missing]
      | component =>
        obtain ⟨c, hc⟩ := by simpa [Known, hk] using known
        rw [expandMember_of_component hk hc] at hf ⊢
        split at hf
        next => simp at hf
        next hp =>
          rw [if_neg hp]
          exact through c hc hp hf
    · rw [expandMember_of_not_known known] at hf ⊢
      rw [unknown_notices hf]
      obtain ⟨-, rfl⟩ := unknown_eq_ok_iff.mp hf
      rfl

end Resolver

/-- Each member of a list that a table is built of is entered with the first use of its tag, told of
for a tag beyond the table or used before, or without a tag. Each placeholder that members resolve
to, at any depth, is told of by name in the order of the list. -/
theorem members_accounted_for :
    (∀ (members : List Resolved) (bound : Nat) (owner : String), members.length ≤ 65535 →
      ∃ s, (TagSequence.build members bound owner).outcome = .ok s ∧
        let notices := (TagSequence.build members bound owner).notices
        s.entries.length + notices.countP Notice.isOutside + notices.countP Notice.isRepeat +
            members.countP (·.tag?.isNone) = members.length ∧
          notices.countP Notice.isOutside = members.countP (TagSequence.isBeyond bound) ∧
          (s.entries.map (·.1)).Perm (TagSequence.recordedTags members bound)) ∧
    ∀ (r : Resolver) (ms : List Member) (context : String) (out : List Resolved),
      (r.resolve ms context).outcome = .ok out →
        (r.resolve ms context).notices.countP (·.skipped?.isSome) =
            (Resolved.missingIn out).length ∧
          (r.resolve ms context).notices.map Notice.skipped? =
            (Resolved.missingIn out).map fun name => some (name, context) := by
  constructor
  · intro members bound owner hlen
    obtain ⟨s, h⟩ := (TagSequence.build_succeeds_iff bound owner).mpr hlen
    obtain ⟨within, beyond⟩ := TagSequence.build_accounts h
    have all := TagSequence.count_within_beyond_untagged bound members
    refine ⟨s, h, ?_, beyond, TagSequence.entries_tags_perm h⟩
    omega
  · intro r ms context out h
    have told := Resolver.expand_tells_missing h
    refine ⟨?_, told⟩
    have counted := congrArg (List.countP Option.isSome) told
    rw [List.countP_map, List.countP_map] at counted
    simpa [Function.comp_def, Resolver.resolve] using counted

/-- A tag used twice, one beyond the table used twice and a placeholder; a component with a member
of no registry, in a group and by itself. -/
theorem members_accounted_for_of_looseLegs :
    let members : List Resolved := [.field 8 "BeginString" true, .unresolved "Lost",
      .field 8 "BeginString" false, .field 5000 "Own" false, .field 5000 "Own" false,
      .field 10 "CheckSum" true]
    let notices := (TagSequence.build members 100 "Heartbeat").notices
    let legs : List Member :=
      [.group "NoLegs" true [.component "Leg" true], .component "Leg" true, .component "Other" true]
    let resolver : Resolver := ⟨looseLegs.1, looseLegs.2, false⟩
    let out : List Resolved :=
      [.group 555 "NoLegs" true [.field 55 "Symbol" true, .unresolved "LegRatio"],
        .field 55 "Symbol" true, .unresolved "LegRatio", .unresolved "Other"]
    (members.length ≤ 65535 ∧ ∃ s, (TagSequence.build members 100 "Heartbeat").outcome = .ok s ∧
      s.entries.length + notices.countP Notice.isOutside + notices.countP Notice.isRepeat + 1 = 6 ∧
      notices.countP Notice.isOutside = 2 ∧ (s.entries.map (·.1)).Perm [8, 10]) ∧
    (resolver.resolve legs "message").outcome = .ok out ∧
      (resolver.resolve legs "message").notices.countP (·.skipped?.isSome) = 3 ∧
      (resolver.resolve legs "message").notices.map Notice.skipped? =
        ["LegRatio", "LegRatio", "Other"].map fun name => some (name, "message") := by
  intro members notices legs resolver out
  have hlen : members.length ≤ 65535 := by decide
  have resolved : (resolver.resolve legs "message").outcome = .ok out := by cbv
  exact ⟨⟨hlen, members_accounted_for.1 members 100 "Heartbeat" hlen⟩, resolved,
    members_accounted_for.2 resolver legs "message" out resolved⟩

end FixTables
