import FixTables.Proofs.FieldKeys
import FixTables.Proofs.Registration
import Mathlib.Data.List.Find
import Mathlib.Data.List.Nodup
import Mathlib.Data.List.Perm.Basic

namespace FixTables

/-- A length field may count the bytes of a data field whose name starts its own. -/
structure Field.Counts (length data : Field) : Prop where
  length_type : length.type = .length
  data_type : data.type ≠ .length
  starts : data.name.toList <+: length.name.toList
  longer : data.name ≠ length.name

namespace FieldRegistry

/-- The tags on either side of pairs. -/
def pairedTags (pairs : List (Nat × Nat)) : List Nat := pairs.flatMap fun pair => [pair.1, pair.2]

/-- The first field not taken that may be the data field of `l`. -/
def firstCandidate (fields : List Field) (taken : List Nat) (l : Field) : Option Field :=
  fields.find? fun d => !taken.contains d.tag && isCandidate l d

variable {fields ls : List Field} {taken taken' : List Nat} {l d : Field}

theorem isCandidate_iff (hl : l.type = .length) : isCandidate l d = true ↔ l.Counts d := by
  simp only [isCandidate, startsLonger, FieldType.isLength, Bool.and_eq_true, Bool.not_eq_true',
    decide_eq_false_iff_not, List.isPrefixOf_iff_prefix, bne_iff_ne]
  constructor
  · rintro ⟨hd, starts, longer⟩
    exact ⟨hl, hd, starts, longer⟩
  · rintro ⟨-, hd, starts, longer⟩
    exact ⟨hd, starts, longer⟩

theorem not_length_of_isCandidate (h : isCandidate l d = true) : d.type ≠ .length := by
  intro hd
  simp [isCandidate, FieldType.isLength, hd] at h

theorem firstCandidate_eq_some (h : firstCandidate fields taken l = some d) :
    d ∈ fields ∧ d.tag ∉ taken ∧ isCandidate l d = true := by
  have hd := List.find?_some h
  simp only [Bool.and_eq_true, Bool.not_eq_true', List.contains_eq_mem, decide_eq_false_iff_not]
    at hd
  exact ⟨List.mem_of_find?_eq_some h, hd⟩

theorem firstCandidate_append (fields' : List Field) (taken : List Nat) (l : Field) :
    firstCandidate (fields ++ fields') taken l =
      (firstCandidate fields taken l).or (firstCandidate fields' taken l) :=
  List.find?_append

/-- Only what is taken of data fields matters for the choice of one. -/
theorem firstCandidate_congr (l : Field)
    (same : ∀ f ∈ fields, f.type ≠ .length → (f.tag ∈ taken ↔ f.tag ∈ taken')) :
    firstCandidate fields taken l = firstCandidate fields taken' l := by
  apply List.find?_congr
  intro f hf
  cases hc : isCandidate l f with
  | false => simp
  | true => simp [same f hf (not_length_of_isCandidate hc)]

/-- A length field without a candidate has none either when more data fields are taken. -/
theorem firstCandidate_eq_none_of_le
    (more : ∀ f ∈ fields, f.type ≠ .length → f.tag ∈ taken → f.tag ∈ taken')
    (h : firstCandidate fields taken l = none) : firstCandidate fields taken' l = none := by
  apply List.find?_eq_none.mpr
  intro f hf hc
  simp only [Bool.and_eq_true, Bool.not_eq_true', List.contains_eq_mem, decide_eq_false_iff_not]
    at hc
  refine List.find?_eq_none.mp h f hf ?_
  simp only [Bool.and_eq_true, Bool.not_eq_true', List.contains_eq_mem, decide_eq_false_iff_not]
  exact ⟨fun ht => hc.1 (more f hf (not_length_of_isCandidate hc.2) ht), hc.2⟩

theorem pairUp_cons_of_settled (h : l.type = .length → l.tag ∈ taken) :
    pairUp fields taken (l :: ls) = pairUp fields taken ls := by
  rw [pairUp, if_neg]
  simpa [FieldType.isLength] using h

theorem pairUp_cons_of_length (hl : l.type = .length) (ht : l.tag ∉ taken) :
    pairUp fields taken (l :: ls) =
      match firstCandidate fields taken l with
      | some d => (l.tag, d.tag) :: pairUp fields (l.tag :: d.tag :: taken) ls
      | none => pairUp fields taken ls := by
  rw [pairUp, if_pos (by simp [FieldType.isLength, hl, ht])]
  rfl

/-- A step of the walk passes a field by, or pairs it with a data field that it may count. -/
theorem pairUp_step (fields : List Field) (taken : List Nat) (l : Field) (ls : List Field) :
    pairUp fields taken (l :: ls) = pairUp fields taken ls ∨
      ∃ d ∈ fields, l.Counts d ∧ l.tag ∉ taken ∧ d.tag ∉ taken ∧
        pairUp fields taken (l :: ls) =
          (l.tag, d.tag) :: pairUp fields (l.tag :: d.tag :: taken) ls := by
  by_cases settled : l.type = .length → l.tag ∈ taken
  · exact .inl (pairUp_cons_of_settled settled)
  · obtain ⟨hl, ht⟩ := Classical.not_imp.mp settled
    rw [pairUp_cons_of_length hl ht]
    cases hc : firstCandidate fields taken l with
    | none => exact .inl rfl
    | some d =>
      obtain ⟨hd, hdt, candidate⟩ := firstCandidate_eq_some hc
      exact .inr ⟨d, hd, (isCandidate_iff hl).mp candidate, ht, hdt, rfl⟩

/-- Each pair is of a length field and a data field that it may count, neither taken before. -/
theorem pairUp_counts {pair : Nat × Nat} (h : pair ∈ pairUp fields taken ls) :
    ∃ l ∈ ls, ∃ d ∈ fields, pair = (l.tag, d.tag) ∧ l.Counts d ∧ l.tag ∉ taken ∧ d.tag ∉ taken := by
  induction ls generalizing taken with
  | nil => simp [pairUp] at h
  | cons l ls ih =>
    obtain passed | ⟨d, hd, counts, hl, hdt, paired⟩ := pairUp_step fields taken l ls
    · rw [passed] at h
      obtain ⟨l', hl', rest⟩ := ih h
      exact ⟨l', List.mem_cons_of_mem l hl', rest⟩
    · rw [paired] at h
      obtain rfl | h := List.mem_cons.mp h
      · exact ⟨l, by simp, d, hd, rfl, counts, hl, hdt⟩
      · obtain ⟨l', hl', d', hd', rfl, counts', freeL, freeD⟩ := ih h
        exact ⟨l', List.mem_cons_of_mem l hl', d', hd', rfl, counts',
          fun ht => freeL (by simp [ht]), fun ht => freeD (by simp [ht])⟩

theorem pairedTags_cons (pair : Nat × Nat) (pairs : List (Nat × Nat)) :
    pairedTags (pair :: pairs) = pair.1 :: pair.2 :: pairedTags pairs := rfl

theorem mem_pairedTags {pairs : List (Nat × Nat)} {tag : Nat} :
    tag ∈ pairedTags pairs ↔ ∃ pair ∈ pairs, tag = pair.1 ∨ tag = pair.2 := by
  simp [pairedTags]

theorem not_mem_taken_of_mem_pairedTags {tag : Nat}
    (h : tag ∈ pairedTags (pairUp fields taken ls)) : tag ∉ taken := by
  obtain ⟨pair, hp, ht⟩ := mem_pairedTags.mp h
  obtain ⟨l, _, d, _, rfl, _, hl, hd⟩ := pairUp_counts hp
  rcases ht with rfl | rfl
  · exact hl
  · exact hd

/-- No field comes into two pairs, nor twice into one. -/
theorem pairedTags_pairUp_nodup (distinct : (fields.map (·.tag)).Nodup) (sub : ls ⊆ fields) :
    (pairedTags (pairUp fields taken ls)).Nodup := by
  induction ls generalizing taken with
  | nil => simp [pairUp, pairedTags]
  | cons l ls ih =>
    obtain ⟨hl, sub⟩ := List.cons_subset.mp sub
    obtain passed | ⟨d, hd, counts, -, -, paired⟩ := pairUp_step fields taken l ls
    · rw [passed]
      exact ih sub
    · have apart : l.tag ≠ d.tag := by
        intro same
        have hld := List.inj_on_of_nodup_map distinct hl hd same
        exact counts.data_type (hld ▸ counts.length_type)
      -- What the step takes is not taken again later.
      have fresh {tag : Nat} (h : tag ∈ l.tag :: d.tag :: taken) :
          tag ∉ pairedTags (pairUp fields (l.tag :: d.tag :: taken) ls) :=
        fun hm => not_mem_taken_of_mem_pairedTags hm h
      rw [paired, pairedTags_cons]
      refine List.nodup_cons.mpr ⟨?_, List.nodup_cons.mpr ⟨fresh (by simp), ih sub⟩⟩
      rw [List.mem_cons, not_or]
      exact ⟨apart, fresh (by simp)⟩

/-- Of what is taken only the tags of the fields matter. -/
theorem pairUp_congr (same : ∀ f ∈ fields, f.tag ∈ taken ↔ f.tag ∈ taken') (sub : ls ⊆ fields) :
    pairUp fields taken ls = pairUp fields taken' ls := by
  induction ls generalizing taken taken' with
  | nil => rfl
  | cons l ls ih =>
    obtain ⟨hl, sub⟩ := List.cons_subset.mp sub
    by_cases settled : l.type = .length → l.tag ∈ taken
    · rw [pairUp_cons_of_settled settled,
        pairUp_cons_of_settled fun h => (same l hl).mp (settled h)]
      exact ih same sub
    · obtain ⟨type, ht⟩ := Classical.not_imp.mp settled
      rw [pairUp_cons_of_length type ht,
        pairUp_cons_of_length type fun h => ht ((same l hl).mpr h),
        firstCandidate_congr l fun f hf _ => same f hf]
      cases firstCandidate fields taken' l with
      | none => exact ih same sub
      | some d =>
        refine congrArg _ (ih (fun f hf => ?_) sub)
        simp [same f hf]

/-- Pairing looks at nothing of a field but its tag, its name and its type. -/
theorem pairUp_map {g : Field → Field}
    (keeps : ∀ f, (g f).tag = f.tag ∧ (g f).name = f.name ∧ (g f).type = f.type)
    (fields : List Field) (taken : List Nat) (ls : List Field) :
    pairUp (fields.map g) taken (ls.map g) = pairUp fields taken ls := by
  have candidates (taken : List Nat) (l : Field) :
      firstCandidate (fields.map g) taken (g l) = (firstCandidate fields taken l).map g := by
    simp only [firstCandidate, List.find?_map]
    congr 2
    funext f
    simp [isCandidate, keeps]
  induction ls generalizing taken with
  | nil => rfl
  | cons l ls ih =>
    rw [List.map_cons]
    by_cases settled : l.type = .length → l.tag ∈ taken
    · rw [pairUp_cons_of_settled settled, pairUp_cons_of_settled (by simpa [keeps] using settled)]
      exact ih taken
    · obtain ⟨type, ht⟩ := Classical.not_imp.mp settled
      rw [pairUp_cons_of_length type ht,
        pairUp_cons_of_length (by simpa [keeps] using type) (by simpa [keeps] using ht), candidates]
      cases firstCandidate fields taken l with
      | none => exact ih taken
      | some d => simp [keeps, ih]

theorem exists_field_of_mem_pairedTags {tag : Nat} (sub : ls ⊆ fields)
    (h : tag ∈ pairedTags (pairUp fields taken ls)) : ∃ f ∈ fields, f.tag = tag := by
  obtain ⟨pair, hp, ht⟩ := mem_pairedTags.mp h
  obtain ⟨l, hl, d, hd, rfl, _⟩ := pairUp_counts hp
  rcases ht with rfl | rfl
  · exact ⟨l, sub hl, rfl⟩
  · exact ⟨d, hd, rfl⟩

/-- A length field that the walk does not come to gets no partner. -/
theorem not_mem_pairedTags_of_passed (distinct : (fields.map (·.tag)).Nodup) (sub : ls ⊆ fields)
    (hl : l ∈ fields) (type : l.type = .length) (passed : l ∉ ls) :
    l.tag ∉ pairedTags (pairUp fields taken ls) := by
  intro h
  obtain ⟨pair, hp, ht⟩ := mem_pairedTags.mp h
  obtain ⟨l', hl', d, hd, rfl, counts, _⟩ := pairUp_counts hp
  rcases ht with same | same
  · obtain rfl := List.inj_on_of_nodup_map distinct hl (sub hl') same
    exact passed hl'
  · obtain rfl := List.inj_on_of_nodup_map distinct hl hd same
    exact counts.data_type type

/-- Two states of a walk through fields agree on the data fields and on the fields yet to come. -/
structure AgreeAhead (fields ls : List Field) (taken taken' : List Nat) : Prop where
  data : ∀ f ∈ fields, f.type ≠ .length → (f.tag ∈ taken ↔ f.tag ∈ taken')
  ahead : ∀ f ∈ ls, f.tag ∈ taken ↔ f.tag ∈ taken'

theorem AgreeAhead.tail (h : AgreeAhead fields (l :: ls) taken taken') :
    AgreeAhead fields ls taken taken' :=
  ⟨h.data, fun f hf => h.ahead f (List.mem_cons_of_mem l hf)⟩

theorem AgreeAhead.take (h : AgreeAhead fields ls taken taken') (tags : List Nat) :
    AgreeAhead fields ls (tags ++ taken) (tags ++ taken') := by
  constructor
  · intro f hf hd
    simp [h.data f hf hd]
  · intro f hf
    simp [h.ahead f hf]

/-- A pair of a length field that was passed and a data field from elsewhere changes nothing. -/
theorem AgreeAhead.pass (h : AgreeAhead fields ls taken taken')
    (distinct : (fields.map (·.tag)).Nodup) (sub : ls ⊆ fields) (hl : l ∈ fields)
    (type : l.type = .length) (passed : l ∉ ls) {tag : Nat}
    (elsewhere : ∀ f ∈ fields, f.tag ≠ tag) :
    AgreeAhead fields ls (l.tag :: tag :: taken) taken' := by
  have apart {f : Field} (hf : f ∈ fields) (ne : f ≠ l) :
      f.tag ∈ l.tag :: tag :: taken ↔ f.tag ∈ taken := by
    have hne : f.tag ≠ l.tag := fun same => ne (List.inj_on_of_nodup_map distinct hf hl same)
    simp [hne, elsewhere f hf]
  constructor
  · intro f hf hd
    rw [apart hf fun same => hd (same ▸ type)]
    exact h.data f hf hd
  · intro f hf
    rw [apart (sub hf) fun same => passed (same ▸ hf)]
    exact h.ahead f hf

/-- A length field without a candidate among the fields before looks at those later only, and what
the fields before have taken is nothing to it. -/
theorem firstCandidate_later {before later : List Field}
    (disjoint : ∀ f ∈ before, ∀ g ∈ later, f.tag ≠ g.tag) (sub : ls ⊆ before)
    (agree : AgreeAhead before ls taken taken') (hn : firstCandidate before taken' l = none) :
    firstCandidate (before ++ later) (pairedTags (pairUp before taken' ls) ++ taken) l =
      firstCandidate later taken l := by
  have noneBefore :
      firstCandidate before (pairedTags (pairUp before taken' ls) ++ taken) l = none :=
    firstCandidate_eq_none_of_le
      (fun f hf hd hm => List.mem_append_right _ ((agree.data f hf hd).mpr hm)) hn
  rw [firstCandidate_append, noneBefore, Option.none_or]
  apply firstCandidate_congr
  intro f hf _
  rw [List.mem_append, or_iff_right]
  intro hm
  obtain ⟨g, hg, same⟩ := exists_field_of_mem_pairedTags sub hm
  exact disjoint g hg f hf same

/-- Fields paired all at once get the pairs that they get when those before are paired first and
those later join them afterwards. `taken'` is what is taken on the way through those before, by
themselves; `taken` may also hold their length fields that have found a partner among those later,
with that partner. -/
theorem pairUp_append_perm {before later : List Field}
    (distinct : ((before ++ later).map (·.tag)).Nodup) (rest : ls <:+ before)
    (agree : AgreeAhead before ls taken taken') :
    (pairUp (before ++ later) taken (ls ++ later)).Perm
      (pairUp before taken' ls ++
        pairUp (before ++ later) (pairedTags (pairUp before taken' ls) ++ taken) (ls ++ later)) := by
  rw [List.map_append] at distinct
  obtain ⟨distinctBefore, -, apart⟩ := List.nodup_append.mp distinct
  have disjoint : ∀ f ∈ before, ∀ g ∈ later, f.tag ≠ g.tag := fun f hf g hg =>
    apart f.tag (List.mem_map_of_mem hf) g.tag (List.mem_map_of_mem hg)
  induction ls generalizing taken taken' with
  | nil => simp [pairUp, pairedTags]
  | cons l ls ih =>
    have rest' : ls <:+ before := (List.suffix_cons l ls).trans rest
    have all : ls ++ later ⊆ before ++ later := List.append_subset.mpr
      ⟨fun f hf => List.mem_append_left _ (rest'.subset hf), fun f hf => List.mem_append_right _ hf⟩
    have hl : l ∈ before := rest.subset (by simp)
    rw [List.cons_append]
    by_cases settled : l.type = .length → l.tag ∈ taken'
    · have settledAtOnce : l.type = .length → l.tag ∈ taken :=
        fun type => (agree.ahead l (by simp)).mpr (settled type)
      rw [pairUp_cons_of_settled settled, pairUp_cons_of_settled settledAtOnce,
        pairUp_cons_of_settled fun type => List.mem_append_right _ (settledAtOnce type)]
      exact ih rest' agree.tail
    · obtain ⟨type, ht'⟩ := Classical.not_imp.mp settled
      have ht : l.tag ∉ taken := fun ht => ht' ((agree.ahead l (by simp)).mp ht)
      rw [pairUp_cons_of_length type ht, pairUp_cons_of_length type ht', firstCandidate_append,
        firstCandidate_congr l agree.data]
      cases hc : firstCandidate before taken' l with
      | some d =>
        -- `l` takes the same field either way.
        have reorder : ∀ f ∈ before ++ later,
            f.tag ∈ pairedTags (pairUp before (l.tag :: d.tag :: taken') ls) ++
                ([l.tag, d.tag] ++ taken) ↔
              f.tag ∈ pairedTags ((l.tag, d.tag) ::
                pairUp before (l.tag :: d.tag :: taken') ls) ++ taken := by
          intro f _
          simp only [pairedTags_cons, List.mem_append, List.mem_cons, List.not_mem_nil, or_false]
          tauto
        rw [Option.some_or, pairUp_cons_of_settled (by simp [pairedTags_cons]),
          ← pairUp_congr reorder all]
        exact (ih rest' (agree.tail.take [l.tag, d.tag])).cons _
      | none =>
        -- Nobody before is left for `l`, so it waits for those later.
        have passed : l ∉ ls := by
          have := (rest.sublist.map (·.tag)).nodup distinctBefore
          rw [List.map_cons, List.nodup_cons] at this
          exact fun hm => this.1 (List.mem_map_of_mem hm)
        have free : l.tag ∉ pairedTags (pairUp before taken' ls) ++ taken := by
          rw [List.mem_append, not_or]
          exact ⟨not_mem_pairedTags_of_passed distinctBefore rest'.subset hl type passed, ht⟩
        rw [Option.none_or, pairUp_cons_of_length type free,
          firstCandidate_later disjoint rest'.subset agree.tail hc]
        cases hd : firstCandidate later taken l with
        | none => exact ih rest' agree.tail
        | some d =>
          -- The pair is made at once here and comes after all pairs among those before there.
          have hdl := (firstCandidate_eq_some hd).1
          have agree' : AgreeAhead before ls (l.tag :: d.tag :: taken) taken' :=
            agree.tail.pass distinctBefore rest'.subset hl type passed
              fun f hf => disjoint f hf d hdl
          have reorder : ∀ f ∈ before ++ later,
              f.tag ∈ pairedTags (pairUp before taken' ls) ++ (l.tag :: d.tag :: taken) ↔
                f.tag ∈ l.tag :: d.tag :: (pairedTags (pairUp before taken' ls) ++ taken) := by
            intro f _
            simp only [List.mem_append, List.mem_cons]
            tauto
          dsimp only
          rw [← pairUp_congr reorder all]
          exact ((ih rest' agree').cons _).trans List.perm_middle.symm

end FieldRegistry

end FixTables
