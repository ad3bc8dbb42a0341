import FixTables.Proofs.Partners

namespace FixTables

namespace Field

variable {f : Field} {pairs : List (Nat × Nat)}

theorem foldl_relatedBy_eq (f : Field) (pairs : List (Nat × Nat)) :
    pairs.foldl relatedBy f = { f with related := (pairs.foldl relatedBy f).related } := by
  induction pairs generalizing f with
  | nil => rfl
  | cons pair pairs ih => rw [List.foldl_cons, ih, f.relatedBy_eq pair]

theorem foldl_relatedBy_keeps (f : Field) (pairs : List (Nat × Nat)) :
    (pairs.foldl relatedBy f).tag = f.tag ∧ (pairs.foldl relatedBy f).name = f.name ∧
      (pairs.foldl relatedBy f).type = f.type := by
  rw [foldl_relatedBy_eq]
  exact ⟨rfl, rfl, rfl⟩

theorem foldl_relatedBy_of_not_mem (h : f.tag ∉ FieldRegistry.pairedTags pairs) :
    pairs.foldl relatedBy f = f := by
  induction pairs with
  | nil => rfl
  | cons pair pairs ih =>
    rw [FieldRegistry.pairedTags_cons, List.mem_cons, List.mem_cons, not_or, not_or] at h
    rw [List.foldl_cons, relatedBy_of_apart h.1 h.2.1]
    exact ih h.2.2

/-- Pairs relate exactly the fields with one of their tags. -/
theorem related_foldl_relatedBy_iff (positive : 0 ∉ FieldRegistry.pairedTags pairs) :
    (pairs.foldl relatedBy f).related ≠ 0 ↔
      f.related ≠ 0 ∨ f.tag ∈ FieldRegistry.pairedTags pairs := by
  induction pairs generalizing f with
  | nil => simp [FieldRegistry.pairedTags]
  | cons pair pairs ih =>
    rw [FieldRegistry.pairedTags_cons, List.mem_cons, List.mem_cons, not_or, not_or] at positive
    obtain ⟨left, right, positive⟩ := positive
    rw [List.foldl_cons, ih positive, relatedBy_tag, FieldRegistry.pairedTags_cons, List.mem_cons,
      List.mem_cons]
    unfold relatedBy
    split
    next h => simp [h, Ne.symm right]
    next hl =>
      split
      next h => simp [h, Ne.symm left]
      next hr => simp [hl, hr]

/-- Two pairs without a common tag may relate a field in either order. -/
theorem relatedBy_comm {pair other : Nat × Nat}
    (apart : List.Disjoint [pair.1, pair.2] [other.1, other.2]) (f : Field) :
    (f.relatedBy pair).relatedBy other = (f.relatedBy other).relatedBy pair := by
  have stays {one : Nat × Nat} (outside : f.tag ∉ [one.1, one.2]) (g : Field)
      (tag : g.tag = f.tag) : g.relatedBy one = g := by
    rw [← tag, List.mem_pair, not_or] at outside
    exact relatedBy_of_apart outside.1 outside.2
  by_cases h : f.tag ∈ [pair.1, pair.2]
  · rw [stays (apart h) f rfl, stays (apart h) _ (f.relatedBy_tag pair)]
  · rw [stays h f rfl, stays h _ (f.relatedBy_tag other)]

end Field

namespace FieldRegistry

variable {fs before later : List Field} {pairs pairs' : List (Nat × Nat)}

theorem foldl_relate_fields (r : FieldRegistry) (pairs : List (Nat × Nat)) :
    (pairs.foldl relate r).fields = r.fields.map fun f => pairs.foldl Field.relatedBy f := by
  induction pairs generalizing r with
  | nil => simp
  | cons pair pairs ih => simp [ih, relate_fields]

/-- Pairs that share no tag may be related in any order. -/
theorem foldl_relate_perm (h : pairs.Perm pairs') (distinct : (pairedTags pairs).Nodup)
    (r : FieldRegistry) : pairs.foldl relate r = pairs'.foldl relate r := by
  apply h.foldl_eq'
  intro pair hp other ho r
  by_cases same : pair = other
  · rw [same]
  · have symmetric : Std.Symm (Function.onFun List.Disjoint fun pair : Nat × Nat =>
        [pair.1, pair.2]) := ⟨fun _ _ h => List.Disjoint.symm h⟩
    have apart := (List.nodup_flatMap.mp distinct).2.forall hp ho same
    simp only [relate, FieldRegistry.mk.injEq, List.map_map]
    exact List.map_congr_left fun f _ => Field.relatedBy_comm apart f

/-- Fields as they are declared: told apart by their names and by their tags, and not related. -/
structure Unrelated (fs : List Field) : Prop where
  names_distinct : (fs.map (·.name)).Nodup
  tags_distinct : (fs.map (·.tag)).Nodup
  tags_ne_zero : ∀ f ∈ fs, f.tag ≠ 0
  unrelated : ∀ f ∈ fs, f.related = 0

theorem Unrelated.lengthPairs (h : Unrelated fs) :
    (FieldRegistry.mk fs).lengthPairs = pairUp fs [] fs := by
  have none : fs.filter (·.related != 0) = [] := by simpa using h.unrelated
  rw [FieldRegistry.lengthPairs, none]
  rfl

theorem Unrelated.zero_not_mem (h : Unrelated fs) :
    0 ∉ pairedTags (FieldRegistry.mk fs).lengthPairs := by
  intro hz
  obtain ⟨f, hf, tag⟩ := exists_field_of_mem_pairedTags (List.Subset.refl fs) hz
  exact h.tags_ne_zero f hf tag

theorem Unrelated.left (h : Unrelated (before ++ later)) : Unrelated before := by
  obtain ⟨names, tags, positive, unrelated⟩ := h
  rw [List.map_append] at names tags
  exact ⟨(List.nodup_append.mp names).1, (List.nodup_append.mp tags).1,
    fun f hf => positive f (by simp [hf]), fun f hf => unrelated f (by simp [hf])⟩

/-- What is left to pair among declared fields of which some have been paired. -/
theorem Unrelated.lengthPairs_foldl_relate (h : Unrelated fs) (positive : 0 ∉ pairedTags pairs) :
    (pairs.foldl relate ⟨fs⟩).lengthPairs = pairUp fs (pairedTags pairs) fs := by
  rw [FieldRegistry.lengthPairs, foldl_relate_fields,
    pairUp_map (Field.foldl_relatedBy_keeps · pairs)]
  refine pairUp_congr (fun f hf => ?_) (List.Subset.refl fs)
  have settled {g : Field} (hg : g ∈ fs) :
      (pairs.foldl Field.relatedBy g).related ≠ 0 ↔ g.tag ∈ pairedTags pairs := by
    rw [Field.related_foldl_relatedBy_iff positive]
    simp [h.unrelated g hg]
  simp only [List.mem_map, List.mem_filter, bne_iff_ne]
  constructor
  · rintro ⟨_, ⟨⟨g, hg, rfl⟩, related⟩, tag⟩
    rw [(Field.foldl_relatedBy_keeps g pairs).1] at tag
    exact tag ▸ (settled hg).mp related
  · intro ht
    exact ⟨_, ⟨⟨f, hf, rfl⟩, (settled hf).mpr ht⟩, (Field.foldl_relatedBy_keeps f pairs).1⟩

/-- The registry of declared fields that are paired all at once. -/
def paired (fs : List Field) : FieldRegistry := (FieldRegistry.mk fs).lengthPairs.foldl relate ⟨fs⟩

/-- Paired fields, joined by later ones, are all of the fields with the pairs made so far. -/
theorem Unrelated.paired_joined (h : Unrelated (before ++ later)) :
    FieldRegistry.mk ((paired before).fields ++ later) =
      (FieldRegistry.mk before).lengthPairs.foldl relate ⟨before ++ later⟩ := by
  have outside : ∀ f ∈ later, f.tag ∉ pairedTags (FieldRegistry.mk before).lengthPairs := by
    intro f hf ht
    obtain ⟨g, hg, tag⟩ := exists_field_of_mem_pairedTags (List.Subset.refl before) ht
    have distinct := h.tags_distinct
    rw [List.map_append] at distinct
    exact (List.nodup_append.mp distinct).2.2 _ (List.mem_map_of_mem hg) _
      (List.mem_map_of_mem hf) tag
  have kept : later.map (fun f => (FieldRegistry.mk before).lengthPairs.foldl Field.relatedBy f) =
      later := by
    rw [List.map_congr_left fun f hf => Field.foldl_relatedBy_of_not_mem (outside f hf)]
    exact List.map_id' later
  have fields : (paired before).fields ++ later =
      ((FieldRegistry.mk before).lengthPairs.foldl relate ⟨before ++ later⟩).fields := by
    rw [foldl_relate_fields, List.map_append, kept, paired, foldl_relate_fields]
  rw [fields]

/-- Pairing what has joined paired fields comes to the same as pairing all of them at once. -/
theorem Unrelated.paired_append (h : Unrelated (before ++ later)) :
    let joined : FieldRegistry := ⟨(paired before).fields ++ later⟩
    joined.lengthPairs.foldl relate joined = paired (before ++ later) ∧
      (FieldRegistry.mk before).lengthPairs.length + joined.lengthPairs.length =
        (FieldRegistry.mk (before ++ later)).lengthPairs.length := by
  intro joined
  have atOnce : (FieldRegistry.mk (before ++ later)).lengthPairs.Perm
      ((FieldRegistry.mk before).lengthPairs ++ joined.lengthPairs) := by
    rw [show joined = _ from h.paired_joined, h.lengthPairs_foldl_relate h.left.zero_not_mem,
      h.lengthPairs, h.left.lengthPairs]
    have agree : AgreeAhead before before [] [] := ⟨fun _ _ _ => Iff.rfl, fun _ _ => Iff.rfl⟩
    simpa using pairUp_append_perm h.tags_distinct (List.suffix_refl before) agree
  constructor
  · have distinct : (pairedTags (FieldRegistry.mk (before ++ later)).lengthPairs).Nodup :=
      pairedTags_pairUp_nodup h.tags_distinct (List.Subset.refl _)
    rw [paired, foldl_relate_perm atOnce distinct, List.foldl_append, ← h.paired_joined]
  · rw [atOnce.length_eq, List.length_append]

/-- Registers a batch of declarations and pairs whatever can be paired then; gives the number of
the new pairs, too. -/
def addBatch (r : FieldRegistry) (batch : List Node) :
    Traced SchemaError (FieldRegistry × Nat) := do
  let registered ← batch.foldlM registerNode r
  return (← registered.pairLengths, registered.lengthPairs.length)

/-- Adds batches one after another; gives the number of new pairs for each. -/
def addBatches (r : FieldRegistry) :
    List (List Node) → Traced SchemaError (FieldRegistry × List Nat)
  | [] => return (r, [])
  | batch :: batches => do
    let (next, made) ← r.addBatch batch
    let (last, counts) ← next.addBatches batches
    return (last, made :: counts)

theorem Unrelated.registered (h : Unrelated (before ++ later)) {batch : List Node}
    (read : batch.mapM Field.ofNode = .ok later) :
    (batch.foldlM registerNode (paired before)).outcome =
      .ok ⟨(paired before).fields ++ later⟩ := by
  have keys : (paired before).keys = (FieldRegistry.mk before).keys :=
    foldl_relate_keys ⟨before⟩ _
  have names : (paired before).fields.map (·.name) = before.map (·.name) := by
    simpa [FieldRegistry.keys, Function.comp_def] using congrArg (List.map Prod.snd) keys
  have tags : (paired before).fields.map (·.tag) = before.map (·.tag) := by
    simpa [FieldRegistry.keys, Function.comp_def] using congrArg (List.map Prod.fst) keys
  have distinct : ((paired before).fields ++ later).Pairwise
      fun f g => ¬ (f.name = g.name ∨ f.tag = g.tag) := by
    rw [pairwise_not_or_iff, List.map_append, List.map_append, names, tags, ← List.map_append,
      ← List.map_append]
    exact ⟨h.names_distinct, h.tags_distinct⟩
  exact (foldlM_register_eq_ok_iff Field.ofNode register_eq_ok_iff
    (List.pairwise_append.mp distinct).1 batch).mpr ⟨later, read, distinct, rfl⟩

theorem Unrelated.addBatch (h : Unrelated (before ++ later)) {batch : List Node}
    (read : batch.mapM Field.ofNode = .ok later) :
    ∃ made, ((paired before).addBatch batch).outcome = .ok (paired (before ++ later), made) ∧
      (FieldRegistry.mk before).lengthPairs.length + made =
        (FieldRegistry.mk (before ++ later)).lengthPairs.length := by
  obtain ⟨same, count⟩ := h.paired_append
  refine ⟨_, Traced.bind_eq_ok_iff.mpr ⟨_, h.registered read, ?_⟩, count⟩
  rw [← same]
  rfl

theorem Unrelated.addBatches (batches : List (List Node)) (h : Unrelated (before ++ later))
    (read : batches.flatten.mapM Field.ofNode = .ok later) :
    ∃ counts, ((paired before).addBatches batches).outcome =
        .ok (paired (before ++ later), counts) ∧
      (FieldRegistry.mk before).lengthPairs.length + counts.sum =
        (FieldRegistry.mk (before ++ later)).lengthPairs.length := by
  induction batches generalizing before later with
  | nil =>
    obtain rfl := Except.ok.inj read
    exact ⟨[], by simp [FieldRegistry.addBatches], by simp⟩
  | cons batch batches ih =>
    rw [List.flatten_cons, List.mapM_append, except_bind_eq_ok_iff] at read
    obtain ⟨first, readFirst, read⟩ := read
    obtain ⟨others, readOthers, split⟩ := except_bind_eq_ok_iff.mp read
    obtain rfl := Except.ok.inj split
    rw [← List.append_assoc] at h ⊢
    obtain ⟨made, added, count⟩ := h.left.addBatch readFirst
    obtain ⟨counts, run, total⟩ := ih h readOthers
    refine ⟨made :: counts, ?_, ?_⟩
    · exact Traced.bind_eq_ok_iff.mpr ⟨_, added, Traced.bind_eq_ok_iff.mpr ⟨_, run, rfl⟩⟩
    · rw [List.sum_cons, ← total, ← count, Nat.add_assoc]

theorem unrelated_of_read {batch : List Node} (read : batch.mapM Field.ofNode = .ok fs)
    (names : (fs.map (·.name)).Nodup) (tags : (fs.map (·.tag)).Nodup) : Unrelated fs := by
  have each : ∀ f ∈ fs, f.tag ≠ 0 ∧ f.related = 0 := by
    intro f hf
    obtain ⟨n, _, hn⟩ := exists_mem_of_forall₂ (except_mapM_eq_ok_iff.mp read).flip hf
    exact Field.ofNode_eq_ok hn
  exact ⟨names, tags, fun f hf => (each f hf).1, fun f hf => (each f hf).2⟩

/-- Declarations may be cut into batches that are registered and paired one after another: fields
get the partners that they get when all are registered first, and as many pairs are made. Pairing
once more makes none. -/
theorem addBatches_incremental {batches : List (List Node)} {fs : List Field}
    (read : batches.flatten.mapM Field.ofNode = .ok fs) (names : (fs.map (·.name)).Nodup)
    (tags : (fs.map (·.tag)).Nodup) :
    ∃ r counts, (empty.addBatches batches).outcome = .ok (r, counts) ∧
      (empty.addBatch batches.flatten).outcome = .ok (r, counts.sum) ∧
      (∀ sectionNode : Node, sectionNode.childrenNamed "field" = batches.flatten →
        (ofSection sectionNode).outcome = .ok r) ∧
      r.lengthPairs = [] ∧ r.pairLengths = ⟨[], .ok r⟩ := by
  have h : Unrelated ([] ++ fs) := unrelated_of_read read names tags
  obtain ⟨counts, run, total⟩ := h.addBatches batches read
  obtain ⟨made, atOnce, all⟩ := h.addBatch read
  have count : made = counts.sum := by omega
  have nothing : (paired fs).lengthPairs = [] := by
    have joined : Unrelated (fs ++ []) := by simpa using h
    have := joined.paired_append.2
    simpa using this
  refine ⟨paired fs, counts, run, count ▸ atOnce, ?_, nothing, ?_⟩
  · intro sectionNode cut
    exact ofSection_eq_ok_iff.mpr ⟨fs, cut ▸ read, names, tags, rfl⟩
  · simp [FieldRegistry.pairLengths, nothing]

/-- The first length field waits for the second batch, the other one is paired at once. -/
def twoBatches : List (List Node) :=
  [[fieldNode "349" "EncodedTextLen" "LENGTH", fieldNode "95" "RawDataLength" "LENGTH",
      fieldNode "96" "RawData" "DATA"],
    [fieldNode "350" "EncodedText" "DATA", fieldNode "351" "EncodedTextLength" "LENGTH"]]

theorem addBatches_incremental_of_twoBatches :
    ∃ r, (empty.addBatches twoBatches).outcome = .ok (r, [1, 1]) ∧
      (empty.addBatch twoBatches.flatten).outcome = .ok (r, 2) ∧ r.lengthPairs = [] ∧
      r.fields.map (fun f => (f.tag, f.related)) =
        [(349, 350), (95, 96), (96, 95), (350, 349), (351, 0)] := by
  have read : twoBatches.flatten.mapM Field.ofNode =
      .ok [.plain 349 "EncodedTextLen" .length, .plain 95 "RawDataLength" .length,
        .plain 96 "RawData" .data, .plain 350 "EncodedText" .data,
        .plain 351 "EncodedTextLength" .length] := by
    cbv
  have made : (empty.addBatches twoBatches).outcome.map (fun p =>
      (p.1.fields.map fun f => (f.tag, f.related), p.2)) =
        .ok ([(349, 350), (95, 96), (96, 95), (350, 349), (351, 0)], [1, 1]) := by
    cbv
  obtain ⟨r, counts, run, atOnce, -, nothing, -⟩ :=
    addBatches_incremental read (by decide) (by decide)
  rw [run, Except.map, Except.ok.injEq, Prod.mk.injEq] at made
  obtain ⟨related, rfl⟩ := made
  exact ⟨r, run, atOnce, nothing, related⟩

end FieldRegistry

end FixTables
