import Mathlib
import FixTables.Proofs.FieldLocations
import FixTables.Proofs.SourceTables
import FixTables.Proofs.TagTables
import FixTables.Proofs.WrittenAlike

namespace FixTables

namespace FieldRegistry

variable {components : ComponentRegistry} {location : Location} {path : List String}
  {r moved : FieldRegistry} {ms : List Member}

theorem Partnered.ofSection {n : Node} (h : (ofSection n).outcome = .ok r) : r.Partnered := by
  obtain ⟨fs, read, names, tags, paired⟩ := ofSection_eq_ok_iff.mp h
  obtain ⟨-, distinct, positive, unrelated⟩ := unrelated_of_read read names tags
  have single : (FieldRegistry.mk fs).Partnered :=
    ⟨distinct, positive, fun f hf related => absurd (unrelated f hf) related⟩
  exact single.pairLengths paired

/-- Partners stay partners wherever a location spreads to. -/
theorem Partnered.propagate (h : r.Partnered)
    (hp : r.propagate components location path ms = .ok moved) : moved.Partnered := by
  let follows (r r' : FieldRegistry) : Prop := r' = r ∧ r.Partnered
  have move {name : String} {f g f' : FieldRegistry} (hfg : follows f g)
      (hm : f.setLocation name location = some f') :
      ∃ g', g.setLocation name location = some g' ∧ follows f' g' := by
    obtain ⟨rfl, partnered⟩ := hfg
    exact ⟨f', hm, rfl, partnered.setLocation hm⟩
  obtain ⟨_, _, _, partnered⟩ :=
    propagate_follows move (fun hc => ⟨_, hc, rfl⟩) rfl ⟨rfl, h⟩ hp
  exact partnered

theorem Partnered.sortedByTag_ascending (h : r.Partnered) :
    r.sortedByTag.Pairwise fun a b => a.tag < b.tag :=
  pairwise_mergeSort_key_lt (fun _ _ => decide_eq_true_iff) h.tags_distinct

end FieldRegistry

namespace Listing

/-- The lines of a tag table below its head are the rows and the sentinel again. -/
theorem readLines_tagTableLines (c : EmitterConfig) (l : Listing)
    (leads : ∀ r ∈ l.rows, ',' ∉ r.lead.toList) :
    (((l.tagTableLines c).drop 2).take (l.rows.length + 1)).mapM TagRow.readLine =
      some (l.rows ++ [TagRow.sentinel]) := by
  have lines : ((l.tagTableLines c).drop 2).take (l.rows.length + 1) =
      l.rows.map (·.sourceLine) ++ ["    TagSpec::SENTINEL,"] := by
    simp [tagTableLines, List.take_append]
  have rows : (l.rows.map (·.sourceLine)).mapM TagRow.readLine = some (l.rows.map id) :=
    mapM_map_eq_some fun r hr => TagRow.readLine_sourceLine (leads r hr)
  rw [lines, List.mapM_append, rows]
  simp [TagRow.readLine_sentinel]

end Listing

namespace Spec

variable {root : Node} {config : CompilerConfig} {s : Spec}

theorem Stages.partnered (t : Stages root config s) : s.fields.Partnered :=
  ((FieldRegistry.Partnered.ofSection t.fields_declared).propagate t.header_placed).propagate
    t.trailer_placed

theorem tagRows_perm (s : Spec) : s.tagRows.Perm (s.fields.fields.map Field.row) :=
  (List.mergeSort_perm _ _).map Field.row

theorem Stages.tagRows_ascending (t : Stages root config s) :
    s.tagRows.Pairwise fun a b => a.tag < b.tag :=
  List.pairwise_map.mpr t.partnered.sortedByTag_ascending

theorem Stages.tagRows_positive (t : Stages root config s) :
    ∀ r ∈ s.tagRows, r.isSentinel = false := by
  intro r hr
  obtain ⟨f, hf, rfl⟩ := List.mem_map.mp (s.tagRows_perm.mem_iff.mp hr)
  exact decide_eq_false (t.partnered.tags_ne_zero f hf)

/-- A tag leads through the table to the row of the field that the registry has for it. -/
theorem Stages.tag?_eq (t : Stages root config s) (withGroups : Bool) (tag : Nat) :
    (s.listing withGroups).table.tag? tag = (s.fields.lookupTag tag).map Field.row := by
  have sorted : (s.fields.lookupTag tag) = s.fields.sortedByTag.find? (·.tag = tag) :=
    find?_key_eq_of_perm (List.mergeSort_perm _ _).symm t.partnered.tags_distinct tag
  calc (s.listing withGroups).table.tag? tag
    _ = s.tagRows.find? (·.tag = tag) :=
      TagRow.find?_concat_sentinel t.tagRows_ascending t.tagRows_positive tag
    _ = (s.fields.sortedByTag.map Field.row).find? (·.tag = tag) := rfl
    _ = (s.fields.sortedByTag.find? (·.tag = tag)).map Field.row := List.find?_map ..
    _ = (s.fields.lookupTag tag).map Field.row := by rw [sorted]

/-- The written tag table answers as the registry of fields does: it ascends by tag, has one row for
each field, none of them the sentinel, and a look-up of any tag gives the row of the field with that
tag, if there is one. A row's related tag leads to a row that points back. -/
theorem tag_lookups_agree (h : (compile root config).outcome = .ok s) (c : EmitterConfig) :
    let l := s.listing c.emitGroups
    l.table.tags.toList = s.tagRows ++ [TagRow.sentinel] ∧
      (((l.tagTableLines c).drop 2).take (l.rows.length + 1)).mapM TagRow.readLine =
        some l.table.tags.toList ∧
      s.tagRows.Pairwise (fun a b => a.tag < b.tag) ∧
      (∀ r ∈ s.tagRows, r.isSentinel = false) ∧
      s.tagRows.Perm (s.fields.fields.map Field.row) ∧
      (∀ tag, l.table.tag? tag = (s.fields.lookupTag tag).map Field.row) ∧
      ∀ tag r, l.table.tag? tag = some r → r.tag = tag ∧
        (r.related ≠ 0 → ∃ r', l.table.tag? r.related = some r' ∧ r'.related = tag) := by
  obtain ⟨t⟩ := compile_eq_ok_iff.mp h
  intro l
  refine ⟨rfl, l.readLines_tagTableLines c s.tagRows_closed, t.tagRows_ascending,
    t.tagRows_positive, s.tagRows_perm, t.tag?_eq c.emitGroups, fun tag r hr => ?_⟩
  rw [t.tag?_eq] at hr
  obtain ⟨f, hf, rfl⟩ := Option.map_eq_some_iff.mp hr
  have mem : f ∈ s.fields.fields := List.mem_of_find?_eq_some hf
  have own : f.tag = tag := by simpa using List.find?_some hf
  refine ⟨own, fun related => ?_⟩
  obtain ⟨g, hg, there, back, -⟩ := t.partnered.partner f mem related
  refine ⟨g.row, ?_, back.trans own⟩
  rw [t.tag?_eq, show f.row.related = g.tag from there.symm, t.partnered.lookupTag hg]
  rfl

set_option maxRecDepth 2000 in
theorem tag_lookups_agree_of_sealedHops :
    ∃ s, (compile sealedHops .default).outcome = .ok s ∧
      (s.listing true).table.tag? 93 = some ⟨93, .length, .body, 89, 2, "93="⟩ ∧
      (∃ r, (s.listing true).table.tag? 89 = some r ∧ r.related = 93) ∧
      (s.listing true).table.tag? 0 = none := by
  let rowOf (s : Spec) (tag : Nat) := (s.fields.lookupTag tag).map Field.row
  have compiled : (compile sealedHops .default).outcome.map (fun s => (rowOf s 93, rowOf s 0)) =
      .ok (some ⟨93, .length, .body, 89, 2, "93="⟩, none) := by
    cbv
  obtain ⟨s, hs, rows⟩ := except_map_eq_ok_iff.mp compiled
  obtain ⟨paired, missing⟩ := Prod.mk.inj rows
  obtain ⟨-, -, -, -, -, found, back⟩ := tag_lookups_agree hs .default
  have row := (found 93).trans paired
  exact ⟨s, hs, row, (back 93 _ row).2 (by decide), (found 0).trans missing⟩

end Spec

end FixTables
