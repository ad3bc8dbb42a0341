import FixTables.Proofs.FieldLocations
import FixTables.Proofs.MessageFrames

namespace FixTables

namespace Resolved

/-- A field stands among resolved members if its tag and name do, at any depth. -/
inductive Contains (f : Field) : List Resolved → Prop
  | here {ms : List Resolved} {m : Resolved} : m ∈ ms → m.tag? = some f.tag → m.name = f.name →
      Contains f ms
  | inside {ms entry : List Resolved} {m : Resolved} : m ∈ ms → m.entry? = some entry →
      Contains f entry → Contains f ms

variable {f : Field} {m : Resolved} {ms ns : List Resolved}

theorem not_contains_nil : ¬ Contains f [] := by
  intro h
  cases h <;> simp_all

theorem contains_append_iff : Contains f (ms ++ ns) ↔ Contains f ms ∨ Contains f ns := by
  constructor
  · intro h
    cases h with
    | here hm ht hn =>
      exact (List.mem_append.mp hm).imp (fun hm => .here hm ht hn) fun hm => .here hm ht hn
    | inside hm he h =>
      exact (List.mem_append.mp hm).imp (fun hm => .inside hm he h) fun hm => .inside hm he h
  · rintro (h | h)
    · cases h with
      | here hm ht hn => exact .here (List.mem_append_left ns hm) ht hn
      | inside hm he h => exact .inside (List.mem_append_left ns hm) he h
    · cases h with
      | here hm ht hn => exact .here (List.mem_append_right ms hm) ht hn
      | inside hm he h => exact .inside (List.mem_append_right ms hm) he h

theorem contains_cons_iff :
    Contains f (m :: ms) ↔ ((m.tag? = some f.tag ∧ m.name = f.name) ∨
      ∃ entry, m.entry? = some entry ∧ Contains f entry) ∨ Contains f ms := by
  rw [← List.singleton_append, contains_append_iff]
  refine or_congr_left ⟨fun h => ?_, ?_⟩
  · cases h with
    | here hm ht hn =>
      obtain rfl := List.mem_singleton.mp hm
      exact .inl ⟨ht, hn⟩
    | inside hm he h =>
      obtain rfl := List.mem_singleton.mp hm
      exact .inr ⟨_, he, h⟩
  · rintro (⟨ht, hn⟩ | ⟨entry, he, h⟩)
    · exact .here (by simp) ht hn
    · exact .inside (by simp) he h

end Resolved

namespace Resolver

open Resolved (Contains)

variable {r : Resolver} {refs ms : List Member} {out : List Resolved} {f : Field}

/-- What a name is looked up to is a field exactly if the name is that of the field. -/
theorem found_eq_iff {name : String} {g : Field} (hf : r.fields.lookup f.name = some f)
    (hg : r.fields.lookup name = some g) : g.tag = f.tag ∧ g.name = f.name ↔ name = f.name := by
  have named : g.name = name := by simpa using List.find?_some hg
  constructor
  · rintro ⟨-, same⟩
    exact named.symm.trans same
  · rintro rfl
    obtain rfl := Option.some.inj (hf.symm.trans hg)
    exact ⟨rfl, rfl⟩

/-- A field stands in what members unfold to exactly if the walk of resolution names it. -/
theorem Unfolds.contains_iff (h : r.Unfolds refs ms out) (hf : r.fields.lookup f.name = some f) :
    Contains f out ↔ r.components.Names r.Enters ms f.name := by
  induction h with
  | nil => simp [Resolved.not_contains_nil, ComponentRegistry.not_names_nil]
  | field hk hl _ ih =>
    rw [Resolved.contains_cons_iff, ComponentRegistry.names_cons_iff, ← ih,
      ComponentRegistry.names_singleton_iff]
    simp [Resolved.tag?, Resolved.name, Resolved.entry?, hk, Enters, ← found_eq_iff hf hl]
  | group hk hl _ _ inner ih =>
    rw [Resolved.contains_cons_iff, ComponentRegistry.names_cons_iff, ← ih,
      ComponentRegistry.names_singleton_iff]
    simp [Resolved.tag?, Resolved.name, Resolved.entry?, hk, Enters, hl, ← found_eq_iff hf hl,
      inner]
  | component hk hc _ _ inner ih =>
    rw [Resolved.contains_append_iff, ComponentRegistry.names_cons_iff, ← ih, inner,
      ComponentRegistry.names_singleton_iff]
    simp [hk, hc, Enters]
  | @unknown refs ms m out _ hn _ ih =>
    -- Neither the placeholder nor the walk tells of a field where the name is unknown.
    have apart : m.kind ≠ .component → m.name ≠ f.name := by
      intro kind same
      exact hn (known_of_field kind (same ▸ hf))
    have closed : ¬ r.Enters m := by
      rintro ⟨kind, g, hg⟩
      exact hn (known_of_field (by simp [kind]) hg)
    have nowhere : m.kind = .component → r.components.lookup m.name = none := by
      intro kind
      exact Option.eq_none_iff_forall_ne_some.mpr fun c hc => hn (known_of_component kind hc)
    rw [Resolved.contains_cons_iff, ComponentRegistry.names_cons_iff, ← ih,
      ComponentRegistry.names_singleton_iff]
    simp +contextual [Resolved.tag?, Resolved.entry?, apart, closed, nowhere]

end Resolver

namespace ComponentRegistry

/-- A field is named inside a field: by a member declared in one that locations spread to. -/
def NamesInField (r : ComponentRegistry) (ms : List Member) (name : String) : Prop :=
  ∃ outer, r.Meets Member.HoldsOthers ms outer ∧ outer.kind = .field ∧
    r.Names Member.HoldsOthers outer.children name

end ComponentRegistry

namespace Resolver

variable {r : Resolver} {ms : List Member} {m : Member} {name : String}

theorem Enters.holdsOthers (h : r.Enters m) : m.HoldsOthers := by
  simp [Member.HoldsOthers, h.1]

/-- What locations spread to is met by resolution, too, but for what lies inside a field. -/
theorem meets_or_inside_field (known : ∀ x, r.components.Meets Member.HoldsOthers ms x → r.Known x)
    (h : r.components.Meets Member.HoldsOthers ms m) :
    r.components.Meets r.Enters ms m ∨ ∃ outer, r.components.Meets Member.HoldsOthers ms outer ∧
      outer.kind = .field ∧ r.components.Meets Member.HoldsOthers outer.children m := by
  induction h with
  | here hm => exact .inl (.here hm)
  | @nested ms outer m hm holds inner ih =>
    have further {x : Member} (hx : r.components.Meets Member.HoldsOthers outer.children x) :
        r.components.Meets Member.HoldsOthers ms x := .nested hm holds hx
    cases kind : outer.kind with
    | field => exact .inr ⟨outer, .here hm, kind, inner⟩
    | group =>
      obtain ⟨f, hf⟩ : ∃ f, r.fields.lookup outer.name = some f := by
        simpa [Known, kind] using known outer (.here hm)
      rcases ih fun x hx => known x (further hx) with met | ⟨within, hw, field, hx⟩
      · exact .inl (.nested hm ⟨kind, f, hf⟩ met)
      · exact .inr ⟨within, further hw, field, hx⟩
    | component => exact absurd kind holds
  | @through ms ref m c hm hk hc inner ih =>
    have further {x : Member} (hx : r.components.Meets Member.HoldsOthers c.members x) :
        r.components.Meets Member.HoldsOthers ms x := .through hm hk hc hx
    rcases ih fun x hx => known x (further hx) with met | ⟨within, hw, field, hx⟩
    · exact .inl (.through hm hk hc met)
    · exact .inr ⟨within, further hw, field, hx⟩

theorem names_iff (known : ∀ x, r.components.Meets Member.HoldsOthers ms x → r.Known x) :
    r.components.Names Member.HoldsOthers ms name ↔
      r.components.Names r.Enters ms name ∨ r.components.NamesInField ms name := by
  constructor
  · rintro ⟨m, hm, kind, named⟩
    rcases meets_or_inside_field known hm with met | ⟨outer, ho, field, hx⟩
    · exact .inl ⟨m, met, kind, named⟩
    · exact .inr ⟨outer, ho, field, m, hx, kind, named⟩
  · rintro (⟨m, met, kind, named⟩ | ⟨outer, ho, field, m, hx, kind, named⟩)
    · exact ⟨m, met.widen fun _ => Enters.holdsOthers, kind, named⟩
    · exact ⟨m, ho.inside (by simp [Member.HoldsOthers, field]) hx, kind, named⟩

end Resolver

namespace Spec

open Resolved (Contains)

variable {root : Node} {config : CompilerConfig} {s : Spec} {f : Field}

/-- A field has left the body exactly if the header or the trailer leads to it. -/
theorem Locates.moved_iff (h : s.Locates f) :
    f.location = .header ∨ f.location = .trailer ↔
      s.components.Names Member.HoldsOthers s.header.children f.name ∨
        s.components.Names Member.HoldsOthers s.trailer.children f.name := by
  by_cases trailer : s.components.Names Member.HoldsOthers s.trailer.children f.name
  · simp [h.trailer trailer, trailer]
  · by_cases header : s.components.Names Member.HoldsOthers s.header.children f.name
    · simp [h.header trailer header, header]
    · simp [h.body trailer header, trailer, header]

theorem Stages.lookup_field (t : Stages root config s) (hf : f ∈ s.fields.fields) :
    s.fields.lookup f.name = some f := by
  obtain ⟨fs, declared, keys, -⟩ := t.wellDeclared
  have names := FieldRegistry.names_nodup_of_keys keys declared.field_names
  exact (find?_key_eq_some_iff names).mpr ⟨hf, rfl⟩

/-- What the header and the trailer unfold to frames every layout. -/
theorem Stages.exists_frame (t : Stages root config s) :
    ∃ header trailer, t.resolver.Unfolds [] s.header.children header ∧
      t.resolver.Unfolds [] s.trailer.children trailer ∧
      ∀ l ∈ s.layouts, ∃ body, l.members = header ++ body ++ trailer := by
  have consistent := t.consistent
  rw [← t.header_children, ← t.trailer_children] at consistent
  obtain ⟨header, hh⟩ := Resolver.exists_unfolds_of_spread consistent.header_known
    consistent.header_acyclic
  obtain ⟨trailer, ht⟩ := Resolver.exists_unfolds_of_spread consistent.trailer_known
    consistent.trailer_acyclic
  refine ⟨header, trailer, hh, ht, fun l hl => ?_⟩
  obtain ⟨_, _, body, -, split⟩ := exists_mem_of_forall₂ (t.layouts_between hh ht).flip hl
  exact ⟨body, split⟩

/-- The fields outside the body are those in the lists that all layouts begin and end with, and
those that the header or the trailer names inside a field. -/
theorem moved_iff_contains (h : (compile root config).outcome = .ok s) :
    ∃ header trailer,
      (∀ context, (Resolver.resolve ⟨s.fields, s.components, config.strict⟩ s.header.children
        context).outcome = .ok header) ∧
      (∀ context, (Resolver.resolve ⟨s.fields, s.components, config.strict⟩ s.trailer.children
        context).outcome = .ok trailer) ∧
      (∀ l ∈ s.layouts, ∃ body, l.members = header ++ body ++ trailer) ∧
      ∀ f ∈ s.fields.fields, f.location = .header ∨ f.location = .trailer ↔
        (Contains f header ∨ Contains f trailer) ∨
          s.components.NamesInField s.header.children f.name ∨
          s.components.NamesInField s.trailer.children f.name := by
  obtain ⟨t⟩ := compile_eq_ok_iff.mp h
  obtain ⟨header, trailer, hh, ht, frame⟩ := t.exists_frame
  refine ⟨header, trailer, hh.resolve_eq_ok, ht.resolve_eq_ok, frame, fun f hf => ?_⟩
  obtain ⟨_, _, locates, -⟩ := exists_mem_of_forall₂ t.locates.flip hf
  have consistent := t.consistent
  rw [← t.header_children, ← t.trailer_children] at consistent
  have inHeader : s.components.Names Member.HoldsOthers s.header.children f.name ↔ _ :=
    Resolver.names_iff consistent.header_known
  have inTrailer : s.components.Names Member.HoldsOthers s.trailer.children f.name ↔ _ :=
    Resolver.names_iff consistent.trailer_known
  rw [← hh.contains_iff (t.lookup_field hf)] at inHeader
  rw [← ht.contains_iff (t.lookup_field hf)] at inTrailer
  calc f.location = .header ∨ f.location = .trailer
    _ ↔ s.components.Names Member.HoldsOthers s.header.children f.name ∨
          s.components.Names Member.HoldsOthers s.trailer.children f.name := locates.moved_iff
    _ ↔ (Contains f header ∨ s.components.NamesInField s.header.children f.name) ∨
          Contains f trailer ∨ s.components.NamesInField s.trailer.children f.name :=
        or_congr inHeader inTrailer
    _ ↔ _ := or_or_or_comm

set_option maxRecDepth 2000 in
theorem moved_iff_contains_of_sealedHops :
    ∃ s, (compile sealedHops .default).outcome = .ok s ∧
      ∃ header trailer,
        (∀ context, (Resolver.resolve ⟨s.fields, s.components, true⟩ s.header.children
          context).outcome = .ok header) ∧
        (∀ context, (Resolver.resolve ⟨s.fields, s.components, true⟩ s.trailer.children
          context).outcome = .ok trailer) ∧
        (∀ l ∈ s.layouts, ∃ body, l.members = header ++ body ++ trailer) ∧
        ∀ f ∈ s.fields.fields, f.location = .header ∨ f.location = .trailer ↔
          (Contains f header ∨ Contains f trailer) ∨
            s.components.NamesInField s.header.children f.name ∨
            s.components.NamesInField s.trailer.children f.name := by
  have compiled : (compile sealedHops .default).outcome.isOk = true := by cbv
  cases hs : (compile sealedHops .default).outcome with
  | error => simp [hs, Except.isOk, Except.toBool] at compiled
  | ok s => exact ⟨s, rfl, moved_iff_contains hs⟩

set_option maxRecDepth 2000 in
/-- A field that the header names inside a field is put into the header, and stands in none of the
lists that the layouts begin and end with. -/
theorem sealedHops_moves_field_of_no_layout :
    ∃ s header trailer, (compile sealedHops .default).outcome = .ok s ∧
      (Resolver.resolve ⟨s.fields, s.components, true⟩ s.header.children "header").outcome =
        .ok header ∧
      (Resolver.resolve ⟨s.fields, s.components, true⟩ s.trailer.children "trailer").outcome =
        .ok trailer ∧
      ∃ f ∈ s.fields.fields, f.name = "HopSendingTime" ∧ f.location = .header ∧
        ¬ (Contains f header ∨ Contains f trailer) := by
  have compiled : (compile sealedHops .default).outcome.map (fun s =>
      ((s.fields.lookup "HopSendingTime").map fun f => (f.tag, f.location),
        (Resolver.resolve ⟨s.fields, s.components, true⟩ s.header.children "header").outcome,
        (Resolver.resolve ⟨s.fields, s.components, true⟩ s.trailer.children "trailer").outcome)) =
      .ok (some (629, .header),
        .ok [.field 8 "BeginString" false,
          .group 627 "NoHops" false [.field 628 "HopCompID" false], .field 89 "Signature" false],
        .ok [.field 89 "Signature" false, .field 10 "CheckSum" false]) := by
    cbv
  cases hs : (compile sealedHops .default).outcome with
  | error => simp [hs, Except.map] at compiled
  | ok s =>
    simp only [hs, Except.map, Except.ok.injEq, Prod.mk.injEq, Option.map_eq_some_iff] at compiled
    obtain ⟨⟨f, found, tag, location⟩, header, trailer⟩ := compiled
    have name : f.name = "HopSendingTime" := by simpa using List.find?_some found
    refine ⟨s, _, _, rfl, header, trailer, f, List.mem_of_find?_eq_some found, name, location, ?_⟩
    simp [Resolved.contains_cons_iff, Resolved.not_contains_nil, Resolved.tag?, Resolved.entry?,
      tag]

end Spec

end FixTables
