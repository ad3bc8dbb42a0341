import FixTables.Proofs.IncrementalPairing
import FixTables.Proofs.TagLookup
import FixTables.Proofs.TextOrder

namespace FixTables

namespace Field

/-- A field is a candidate of a length field if it is no length itself and the bytes of its name
begin the longer name of that field. -/
structure IsCandidateOf (data length : Field) : Prop where
  data_type : data.type ≠ .length
  starts : utf8Bytes data.name <+: utf8Bytes length.name
  longer : data.name ≠ length.name

/-- Two fields are paired if each has the tag of the other as its related one. -/
def PairedWith (f g : Field) : Prop := f.related = g.tag ∧ g.related = f.tag

theorem isCandidateOf_iff {l d : Field} (hl : l.type = .length) :
    d.IsCandidateOf l ↔ l.Counts d := by
  constructor
  · rintro ⟨type, starts, longer⟩
    exact ⟨hl, type, utf8Bytes_prefix_iff.mp starts, longer⟩
  · rintro ⟨-, type, starts, longer⟩
    exact ⟨type, utf8Bytes_prefix_iff.mpr starts, longer⟩

/-- A field that was related to none is related by pairs to whatever they pair its tag with. -/
theorem related_foldl_relatedBy_eq_iff {f : Field} {pairs : List (Nat × Nat)} {tag : Nat}
    (distinct : (FieldRegistry.pairedTags pairs).Nodup) (unrelated : f.related = 0)
    (positive : tag ≠ 0) :
    (pairs.foldl relatedBy f).related = tag ↔ (f.tag, tag) ∈ pairs ∨ (tag, f.tag) ∈ pairs := by
  induction pairs with
  | nil => simp [unrelated, Ne.symm positive]
  | cons pair pairs ih =>
    obtain ⟨first, second⟩ := pair
    simp only [FieldRegistry.pairedTags_cons, List.nodup_cons, List.mem_cons, not_or] at distinct
    obtain ⟨⟨apart, left⟩, right, distinct⟩ := distinct
    -- A field with a tag of this pair is in none of the later ones.
    have later (fresh : f.tag ∉ FieldRegistry.pairedTags pairs) :
        (f.tag, tag) ∉ pairs ∧ (tag, f.tag) ∉ pairs :=
      ⟨fun h => fresh (FieldRegistry.mem_pairedTags.mpr ⟨_, h, .inl rfl⟩),
        fun h => fresh (FieldRegistry.mem_pairedTags.mpr ⟨_, h, .inr rfl⟩)⟩
    rw [List.foldl_cons]
    by_cases hl : f.tag = first
    · subst first
      have kept : pairs.foldl relatedBy { f with related := second } =
          { f with related := second } := foldl_relatedBy_of_not_mem left
      rw [relatedBy_of_left rfl, kept]
      simpa [later left, apart] using eq_comm
    · by_cases hr : f.tag = second
      · subst second
        have kept : pairs.foldl relatedBy { f with related := first } =
            { f with related := first } := foldl_relatedBy_of_not_mem right
        rw [relatedBy_of_right hl rfl, kept]
        simpa [later right, hl] using eq_comm
      · rw [relatedBy_of_apart hl hr, ih distinct]
        simp [hl, hr]

end Field

namespace FieldRegistry

/-- One field was registered before another. -/
def Precedes (r : FieldRegistry) (f g : Field) : Prop := r.fields.idxOf f < r.fields.idxOf g

/-- A field was taken before its turn came to `l`: it is paired with a length field registered
before that one. -/
def TakenBefore (r : FieldRegistry) (pairs : Field → Field → Prop) (l d : Field) : Prop :=
  ∃ k ∈ r.fields, k.type = .length ∧ r.Precedes k l ∧ pairs k d

/-- Pairs of length fields and their data fields are first matches: no field is in two of them, a
length field has the first candidate that is not taken before, and remains without one only if all
its candidates are. -/
structure FirstMatches (r : FieldRegistry) (pairs : Field → Field → Prop) : Prop where
  exclusive : ∀ k ∈ r.fields, k.type = .length → ∀ l ∈ r.fields, l.type = .length →
    ∀ d ∈ r.fields, pairs k d → pairs l d → k = l
  paired : ∀ l ∈ r.fields, l.type = .length → ∀ d ∈ r.fields, pairs l d →
    d.IsCandidateOf l ∧
      ∀ c ∈ r.fields, c.IsCandidateOf l → r.Precedes c d → r.TakenBefore pairs l c
  unpaired : ∀ l ∈ r.fields, l.type = .length → (∀ d ∈ r.fields, ¬ pairs l d) →
    ∀ c ∈ r.fields, c.IsCandidateOf l → r.TakenBefore pairs l c

section Uniqueness

variable {r : FieldRegistry} {pairs pairs' : Field → Field → Prop} {l d : Field}

theorem precedes_or_precedes {f g : Field} (hf : f ∈ r.fields) (ne : f ≠ g) :
    r.Precedes f g ∨ r.Precedes g f :=
  Nat.lt_or_gt_of_ne fun same => ne ((List.idxOf_inj hf).mp same)

theorem FirstMatches.not_takenBefore (h : r.FirstMatches pairs) (hl : l ∈ r.fields)
    (type : l.type = .length) (hd : d ∈ r.fields) (paired : pairs l d) :
    ¬ r.TakenBefore pairs l d := by
  rintro ⟨k, hk, typeK, first, taken⟩
  obtain rfl := h.exclusive k hk typeK l hl type d hd taken paired
  exact Nat.lt_irrefl _ first

/-- A candidate that is not taken before is matched, unless an earlier one is. -/
theorem FirstMatches.exists_not_after (h : r.FirstMatches pairs) (hl : l ∈ r.fields)
    (type : l.type = .length) (hd : d ∈ r.fields) (candidate : d.IsCandidateOf l)
    (free : ¬ r.TakenBefore pairs l d) :
    ∃ c ∈ r.fields, pairs l c ∧ (c = d ∨ r.Precedes c d) := by
  have someone : ∃ c ∈ r.fields, pairs l c := by
    by_contra nobody
    push Not at nobody
    exact free (h.unpaired l hl type nobody d hd candidate)
  obtain ⟨c, hc, paired⟩ := someone
  refine ⟨c, hc, paired, or_iff_not_imp_left.mpr fun ne => ?_⟩
  refine (precedes_or_precedes hc ne).resolve_right fun first => free ?_
  exact (h.paired l hl type c hc paired).2 d hd candidate first

/-- First matches that agree on all length fields before one agree on that one, too. -/
theorem FirstMatches.step (h : r.FirstMatches pairs) (h' : r.FirstMatches pairs')
    (hl : l ∈ r.fields) (type : l.type = .length)
    (before : ∀ d ∈ r.fields, r.TakenBefore pairs l d ↔ r.TakenBefore pairs' l d)
    (hd : d ∈ r.fields) (paired : pairs l d) : pairs' l d := by
  obtain ⟨candidate, earlier⟩ := h.paired l hl type d hd paired
  have free : ¬ r.TakenBefore pairs' l d :=
    mt (before d hd).mpr (h.not_takenBefore hl type hd paired)
  obtain ⟨c, hc, paired', rfl | first⟩ := h'.exists_not_after hl type hd candidate free
  · exact paired'
  · have candidate' := (h'.paired l hl type c hc paired').1
    have taken := (before c hc).mp (earlier c hc candidate' first)
    exact absurd taken (h'.not_takenBefore hl type hc paired')

theorem FirstMatches.unique (h : r.FirstMatches pairs) (h' : r.FirstMatches pairs')
    (hl : l ∈ r.fields) (type : l.type = .length) (hd : d ∈ r.fields) :
    pairs l d ↔ pairs' l d := by
  -- The step asks for agreement on all length fields before `l`, not just on the last of them.
  induction place : r.fields.idxOf l using Nat.strong_induction_on generalizing l d with
  | _ place' ih =>
    have before : ∀ d ∈ r.fields, r.TakenBefore pairs l d ↔ r.TakenBefore pairs' l d := by
      intro d hd
      have agree {k : Field} (hk : k ∈ r.fields) (typeK : k.type = .length)
          (first : r.Precedes k l) : pairs k d ↔ pairs' k d :=
        ih _ (place ▸ first) hk typeK hd rfl
      constructor
      · rintro ⟨k, hk, typeK, first, taken⟩
        exact ⟨k, hk, typeK, first, (agree hk typeK first).mp taken⟩
      · rintro ⟨k, hk, typeK, first, taken⟩
        exact ⟨k, hk, typeK, first, (agree hk typeK first).mpr taken⟩
    exact ⟨h.step h' hl type before hd, h'.step h hl type (fun d hd => (before d hd).symm) hd⟩

end Uniqueness

section Walk

variable {fields ls later : List Field} {taken : List Nat} {l d : Field}

/-- A walk goes on where an earlier part of it has come to. -/
theorem pairUp_append (sub : ls ++ later ⊆ fields) :
    pairUp fields taken (ls ++ later) = pairUp fields taken ls ++
      pairUp fields (pairedTags (pairUp fields taken ls) ++ taken) later := by
  induction ls generalizing taken with
  | nil => rfl
  | cons l ls ih =>
    have sub' : ls ++ later ⊆ fields := (List.cons_subset.mp sub).2
    by_cases settled : l.type = .length → l.tag ∈ taken
    · rw [List.cons_append, pairUp_cons_of_settled settled, pairUp_cons_of_settled settled]
      exact ih sub'
    · obtain ⟨type, ht⟩ := Classical.not_imp.mp settled
      rw [List.cons_append, pairUp_cons_of_length type ht, pairUp_cons_of_length type ht]
      cases firstCandidate fields taken l with
      | none => exact ih sub'
      | some d =>
        dsimp only
        rw [ih sub', List.cons_append]
        congr 2
        apply pairUp_congr _ (List.append_subset.mp sub').2
        intro f _
        simp only [pairedTags_cons, List.mem_append, List.mem_cons]
        tauto

theorem pairUp_split {before after : List Field} (split : fields = before ++ l :: after) :
    pairUp fields [] fields = pairUp fields [] before ++
      pairUp fields (pairedTags (pairUp fields [] before)) (l :: after) := by
  have sub : before ++ l :: after ⊆ fields := split ▸ List.Subset.refl fields
  calc pairUp fields [] fields
    _ = pairUp fields [] (before ++ l :: after) := by rw [← split]
    _ = _ := by rw [pairUp_append sub, List.append_nil]

/-- A walk through all fields pairs a length field with the first candidate that the fields before
it have left. -/
theorem mem_pairUp_iff {before after : List Field} (distinct : (fields.map (·.tag)).Nodup)
    (split : fields = before ++ l :: after) (type : l.type = .length) (hd : d ∈ fields) :
    (l.tag, d.tag) ∈ pairUp fields [] fields ↔
      firstCandidate fields (pairedTags (pairUp fields [] before)) l = some d := by
  have nodup : (before ++ l :: after).Nodup := split ▸ distinct.of_map _
  have hl : l ∈ fields := by simp [split]
  have subBefore : before ⊆ fields := by simp [split]
  have subAfter : after ⊆ fields := by simp [split]
  obtain ⟨-, nodupAfter, apart⟩ := List.nodup_append.mp nodup
  have left : l.tag ∉ pairedTags (pairUp fields [] before) :=
    not_mem_pairedTags_of_passed distinct subBefore hl type fun h => apart l h l (by simp) rfl
  have notBefore : (l.tag, d.tag) ∉ pairUp fields [] before :=
    fun h => left (mem_pairedTags.mpr ⟨_, h, .inl rfl⟩)
  rw [pairUp_split split, List.mem_append, or_iff_right notBefore, pairUp_cons_of_length type left]
  generalize pairedTags (pairUp fields [] before) = taken
  cases chosen : firstCandidate fields taken l with
  | none =>
    have gone : l.tag ∉ pairedTags (pairUp fields taken after) :=
      not_mem_pairedTags_of_passed distinct subAfter hl type (List.nodup_cons.mp nodupAfter).1
    simp only [reduceCtorEq, iff_false]
    exact fun h => gone (mem_pairedTags.mpr ⟨_, h, .inl rfl⟩)
  | some d' =>
    have hd' := (firstCandidate_eq_some chosen).1
    have rest : (l.tag, d.tag) ∉ pairUp fields (l.tag :: d'.tag :: taken) after :=
      fun h => not_mem_taken_of_mem_pairedTags (mem_pairedTags.mpr ⟨_, h, .inl rfl⟩) (by simp)
    simp only [List.mem_cons, rest, or_false, Prod.mk.injEq, true_and, Option.some.injEq]
    constructor
    · exact fun same => (List.inj_on_of_nodup_map distinct hd hd' same).symm
    · rintro rfl
      rfl

end Walk

theorem isCandidate_iff_isCandidateOf {l d : Field} (type : l.type = .length) :
    isCandidate l d = true ↔ d.IsCandidateOf l :=
  (isCandidate_iff type).trans (Field.isCandidateOf_iff type).symm

theorem precedes_iff_mem {r : FieldRegistry} {f g : Field} {before after : List Field}
    (distinct : (r.fields.map (·.tag)).Nodup) (split : r.fields = before ++ g :: after) :
    r.Precedes f g ↔ f ∈ before := by
  have nodup : (before ++ g :: after).Nodup := split ▸ distinct.of_map _
  have fresh : g ∉ before := fun hg => (List.nodup_append.mp nodup).2.2 g hg g (by simp) rfl
  rw [Precedes, split, List.idxOf_append_of_notMem fresh, List.idxOf_cons_self, Nat.add_zero,
    List.idxOf_append]
  split
  next hf => simp [hf, List.idxOf_lt_length_iff]
  next hf => simp [hf]

/-- A registry whose fields are related just by the pairs of one walk through them. -/
structure Matched (r : FieldRegistry) : Prop extends r.Partnered where
  related_iff : ∀ f ∈ r.fields, ∀ tag, tag ≠ 0 →
    (f.related = tag ↔ (f.tag, tag) ∈ pairUp r.fields [] r.fields ∨
      (tag, f.tag) ∈ pairUp r.fields [] r.fields)

theorem Matched.ofSection {n : Node} {r : FieldRegistry} (h : (ofSection n).outcome = .ok r) :
    r.Matched := by
  refine ⟨.ofSection h, ?_⟩
  obtain ⟨fs, read, names, tags, pairing⟩ := ofSection_eq_ok_iff.mp h
  have apart := unrelated_of_read read names tags
  obtain rfl := Except.ok.inj pairing
  have keeps := fun f => Field.foldl_relatedBy_keeps f (FieldRegistry.mk fs).lengthPairs
  rw [foldl_relate_fields, pairUp_map keeps, ← apart.lengthPairs]
  intro g hg tag positive
  obtain ⟨f, hf, rfl⟩ := List.mem_map.mp hg
  rw [(keeps f).1]
  refine Field.related_foldl_relatedBy_eq_iff ?_ (apart.unrelated f hf) positive
  exact pairedTags_pairUp_nodup apart.tags_distinct (List.Subset.refl fs)

section Matching

variable {r : FieldRegistry} {f l d : Field} (h : r.Matched)
include h

/-- The pairs of the walk are the fields that point at each other. -/
theorem Matched.pairedWith_iff (hl : l ∈ r.fields) (type : l.type = .length) (hd : d ∈ r.fields) :
    l.PairedWith d ↔ (l.tag, d.tag) ∈ pairUp r.fields [] r.fields := by
  rw [Field.PairedWith, h.related_iff l hl d.tag (h.tags_ne_zero d hd),
    h.related_iff d hd l.tag (h.tags_ne_zero l hl), or_comm (a := (d.tag, l.tag) ∈ _), and_self]
  refine or_iff_left fun reversed => ?_
  obtain ⟨k, hk, c, hc, tags, counts, -⟩ := pairUp_counts reversed
  obtain rfl := h.eq_of_tag_eq hl hc (Prod.mk.inj tags).2
  exact counts.data_type type

/-- What earlier length fields have taken on the walk is paired with one of them. -/
theorem Matched.takenBefore {before after : List Field} (split : r.fields = before ++ l :: after)
    (hd : d ∈ r.fields) (type : d.type ≠ .length)
    (taken : d.tag ∈ pairedTags (pairUp r.fields [] before)) :
    r.TakenBefore Field.PairedWith l d := by
  have sub : before ⊆ r.fields := by simp [split]
  obtain ⟨pair, made, side⟩ := mem_pairedTags.mp taken
  obtain ⟨k, hk, c, hc, rfl, counts, -⟩ := pairUp_counts made
  have later : (k.tag, c.tag) ∈ pairUp r.fields [] r.fields := by
    rw [pairUp_split split]
    exact List.mem_append_left _ made
  have paired := (h.pairedWith_iff (sub hk) counts.length_type hc).mpr later
  rcases side with same | same
  · obtain rfl := h.eq_of_tag_eq hd (sub hk) same
    exact absurd counts.length_type type
  · obtain rfl := h.eq_of_tag_eq hd hc same
    exact ⟨k, sub hk, counts.length_type, (precedes_iff_mem h.tags_distinct split).mpr hk, paired⟩

theorem Matched.firstMatches : r.FirstMatches Field.PairedWith := by
  refine ⟨?_, ?_, ?_⟩
  · intro k hk _ l hl _ d _ first second
    exact h.eq_of_tag_eq hk hl (first.2.symm.trans second.2)
  · intro l hl type d hd paired
    obtain ⟨before, after, split⟩ := List.append_of_mem hl
    have chosen := (mem_pairUp_iff h.tags_distinct split type hd).mp
      ((h.pairedWith_iff hl type hd).mp paired)
    have candidate := (isCandidate_iff_isCandidateOf type).mp (firstCandidate_eq_some chosen).2.2
    refine ⟨candidate, fun c hc candidate' first => ?_⟩
    obtain ⟨-, passed, rest, splitAt, refused⟩ := List.find?_eq_some_iff_append.mp chosen
    have hp := (precedes_iff_mem h.tags_distinct splitAt).mp first
    have counts := (isCandidate_iff_isCandidateOf type).mpr candidate'
    exact h.takenBefore split hc candidate'.data_type (by simpa [counts] using refused c hp)
  · intro l hl type nobody c hc candidate
    obtain ⟨before, after, split⟩ := List.append_of_mem hl
    have none : firstCandidate r.fields (pairedTags (pairUp r.fields [] before)) l = none := by
      refine Option.eq_none_iff_forall_ne_some.mpr fun d chosen => ?_
      have hd := (firstCandidate_eq_some chosen).1
      exact nobody d hd ((h.pairedWith_iff hl type hd).mpr
        ((mem_pairUp_iff h.tags_distinct split type hd).mpr chosen))
    have counts := (isCandidate_iff_isCandidateOf type).mpr candidate
    have refused := List.find?_eq_none.mp none c hc
    exact h.takenBefore split hc candidate.data_type (by simpa [counts] using refused)

theorem Matched.exists_length (hd : d ∈ r.fields) (type : d.type ≠ .length)
    (related : d.related ≠ 0) :
    ∃ l ∈ r.fields, l.type = .length ∧ d.IsCandidateOf l ∧ l.PairedWith d := by
  obtain ⟨l, hl, there, back, counts⟩ := h.partner d hd related
  replace counts : l.Counts d := counts.resolve_left fun counts => type counts.length_type
  exact ⟨l, hl, counts.length_type, (Field.isCandidateOf_iff counts.length_type).mpr counts, back,
    there.symm⟩

/-- A field other than a length has no partner exactly if fields before it have taken all length
fields that it is a candidate of. -/
theorem Matched.related_eq_zero_iff (hd : d ∈ r.fields) (type : d.type ≠ .length) :
    d.related = 0 ↔ ∀ l ∈ r.fields, l.type = .length → d.IsCandidateOf l →
      ∃ c ∈ r.fields, r.Precedes c d ∧ l.PairedWith c := by
  constructor
  · intro alone l hl typeL candidate
    have free : ¬ r.TakenBefore Field.PairedWith l d := by
      rintro ⟨k, hk, -, -, -, back⟩
      exact h.tags_ne_zero k hk (back.symm.trans alone)
    obtain ⟨c, hc, paired, rfl | first⟩ :=
      h.firstMatches.exists_not_after hl typeL hd candidate free
    · exact absurd (paired.2.symm.trans alone) (h.tags_ne_zero l hl)
    · exact ⟨c, hc, first, paired⟩
  · intro passed
    by_contra related
    obtain ⟨l, hl, typeL, candidate, own⟩ := h.exists_length hd type related
    obtain ⟨c, hc, first, pair⟩ := passed l hl typeL candidate
    obtain rfl := h.eq_of_tag_eq hc hd (pair.1.symm.trans own.1)
    exact Nat.lt_irrefl _ first

end Matching

variable {n : Node} {r : FieldRegistry}

/-- The fields of a section are paired by first matches: the related ones have partners, one of
the two a length, and no other pairs of them are first matches. -/
theorem ofSection_pairs_first_matches (h : (ofSection n).outcome = .ok r) :
    (∀ f ∈ r.fields, f.related ≠ 0 ↔
        ∃ g ∈ r.fields, f.PairedWith g ∧ (f.type = .length ↔ g.type ≠ .length)) ∧
      r.FirstMatches Field.PairedWith ∧
      ∀ pairs, r.FirstMatches pairs →
        ∀ l ∈ r.fields, l.type = .length → ∀ d ∈ r.fields, (pairs l d ↔ l.PairedWith d) := by
  have matched := Matched.ofSection h
  refine ⟨fun f hf => ⟨fun related => ?_, ?_⟩, matched.firstMatches, ?_⟩
  · obtain ⟨g, hg, there, back, counts⟩ := matched.partner f hf related
    refine ⟨g, hg, ⟨there.symm, back⟩, ?_⟩
    rcases counts with counts | counts
    · simp [counts.length_type, counts.data_type]
    · simp [counts.length_type, counts.data_type]
  · rintro ⟨g, hg, ⟨there, -⟩, -⟩ alone
    exact matched.tags_ne_zero g hg (there.symm.trans alone)
  · intro pairs first l hl type d hd
    exact first.unique matched.firstMatches hl type hd

/-- Two length fields have the same two candidates, and a third one comes too late. -/
def rivalLengths : Node :=
  { Node.leaf "fields" with
    children := [fieldNode "351" "EncodedTextLength" "LENGTH", fieldNode "350" "EncodedText" "DATA",
      fieldNode "349" "EncodedTextLen" "LENGTH", fieldNode "352" "Encoded" "STRING",
      fieldNode "353" "EncodedLen" "LENGTH"] }

theorem ofSection_pairs_first_matches_of_rivalLengths :
    ∃ r, (ofSection rivalLengths).outcome = .ok r ∧
      r.fields.map (fun f => (f.tag, f.related)) =
        [(351, 350), (350, 351), (349, 352), (352, 349), (353, 0)] ∧
      r.FirstMatches Field.PairedWith := by
  have read : (ofSection rivalLengths).outcome.map (·.fields.map fun f => (f.tag, f.related)) =
      .ok [(351, 350), (350, 351), (349, 352), (352, 349), (353, 0)] := by
    cbv
  obtain ⟨r, hr, related⟩ := except_map_eq_ok_iff.mp read
  exact ⟨r, hr, related, (ofSection_pairs_first_matches hr).2.1⟩

/-- A group's count is never on the length side of a pair, but may be on the other one: it has no
partner exactly if fields before it have taken all length fields that it is a candidate of. -/
theorem numInGroup_unrelated_iff {f : Field} (h : (ofSection n).outcome = .ok r)
    (hf : f ∈ r.fields) (type : f.type = .numInGroup) :
    (f.related = 0 ↔ ∀ l ∈ r.fields, l.type = .length → f.IsCandidateOf l →
        ∃ c ∈ r.fields, r.Precedes c f ∧ l.PairedWith c) ∧
      (f.related ≠ 0 → ∃ l ∈ r.fields, l.type = .length ∧ f.IsCandidateOf l ∧ l.PairedWith f) := by
  have matched := Matched.ofSection h
  have data : f.type ≠ .length := by simp [type]
  exact ⟨matched.related_eq_zero_iff hf data, matched.exists_length hf data⟩

/-- The length field could count the group's number, but takes the field that comes first. -/
def passedGroup : Node :=
  { Node.leaf "fields" with
    children := [fieldNode "100" "NoteLen" "LENGTH", fieldNode "101" "Note" "DATA",
      fieldNode "102" "No" "NUMINGROUP"] }

theorem numInGroup_unrelated_iff_of_passedGroup :
    ∃ r, (ofSection passedGroup).outcome = .ok r ∧
      ∃ f ∈ r.fields, f.type = .numInGroup ∧ f.related = 0 ∧
        ∀ l ∈ r.fields, l.type = .length → f.IsCandidateOf l →
          ∃ c ∈ r.fields, r.Precedes c f ∧ l.PairedWith c := by
  have read : (ofSection passedGroup).outcome =
      .ok ⟨[{ Field.plain 100 "NoteLen" .length with related := 101 },
        { Field.plain 101 "Note" .data with related := 100 }, .plain 102 "No" .numInGroup]⟩ := by
    cbv
  exact ⟨_, read, .plain 102 "No" .numInGroup, by simp, rfl, rfl,
    (numInGroup_unrelated_iff read (by simp) rfl).1.mp rfl⟩

/-- A length field is named after a group's number. -/
def measuredGroup : Node :=
  { Node.leaf "fields" with
    children := [fieldNode "453" "NoPartyIDs" "NUMINGROUP",
      fieldNode "454" "NoPartyIDsLen" "LENGTH"] }

theorem numInGroup_related_of_measuredGroup :
    ∃ r, (ofSection measuredGroup).outcome = .ok r ∧
      ∃ f ∈ r.fields, f.type = .numInGroup ∧ f.related = 454 := by
  have read : (ofSection measuredGroup).outcome =
      .ok ⟨[{ Field.plain 453 "NoPartyIDs" .numInGroup with related := 454 },
        { Field.plain 454 "NoPartyIDsLen" .length with related := 453 }]⟩ := by
    cbv
  exact ⟨_, read, _, List.mem_cons_self, rfl, rfl⟩

end FieldRegistry

end FixTables
