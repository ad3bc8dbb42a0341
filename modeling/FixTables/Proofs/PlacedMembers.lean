import FixTables.Proofs.FieldLocations
import FixTables.Proofs.PlaceholderPositions
import FixTables.Proofs.StrictAndLenient

namespace FixTables

open Resolved (missingIn)

namespace Resolver

/-- What members resolve to, strictly and leniently alike: a list without placeholders. -/
structure Settles (fields : FieldRegistry) (components : ComponentRegistry) (ms : List Member)
    (out : List Resolved) : Prop where
  whole : missingIn out = []
  resolves : ∀ strict context,
    (resolve ⟨fields, components, strict⟩ ms context).outcome = .ok out

variable {fields fields' : FieldRegistry} {components : ComponentRegistry} {location : Location}
  {ms : List Member} {out : List Resolved}

theorem Unfolds.settles (h : Unfolds ⟨fields, components, true⟩ [] ms out) :
    Settles fields components ms out where
  whole :=
    have lenient := h.leniently.resolve_eq_ok ""
    (strictly_eq_ok_iff.mp ((strict_expand_eq lenient).symm.trans (h.resolve_eq_ok ""))).1
  resolves
    | true, context => h.resolve_eq_ok context
    | false, context => h.leniently.resolve_eq_ok context

theorem Settles.unfolds (h : Settles fields components ms out) (strict : Bool) :
    Unfolds ⟨fields, components, strict⟩ [] ms out :=
  unfolds_of_resolve (h.resolves strict "")

/-- Members that a location spreads over settle, in all registries whose fields have the same tags
and names, to one and the same list. -/
theorem exists_settles_of_propagate
    (h : fields.propagate components location [] ms = .ok fields') :
    ∃ out, ∀ registry : FieldRegistry, registry.keys = fields.keys →
      Settles registry components ms out := by
  have clear := FieldRegistry.propagate_clear (r := ⟨fields, components, true⟩) h rfl
  obtain ⟨out, unfolds⟩ := exists_unfolds_of_spread clear.1 clear.2
  exact ⟨out, fun registry same => (unfolds.of_keys same.symm).settles⟩

end Resolver

namespace Spec

open Resolver (Settles)

variable {root : Node} {config : CompilerConfig} {s : Spec}

theorem Stages.exists_settles (t : Stages root config s) :
    ∃ header trailer, Settles s.fields s.components s.header.children header ∧
      Settles s.fields s.components s.trailer.children trailer := by
  obtain ⟨header, hh⟩ := Resolver.exists_settles_of_propagate t.header_placed
  obtain ⟨trailer, ht⟩ := Resolver.exists_settles_of_propagate t.trailer_placed
  rw [t.header_children, t.trailer_children]
  exact ⟨header, trailer, hh _ t.fields_keys, ht _ (t.fields_keys.trans t.placed_keys.symm)⟩

end Spec

/-- Where a location spreads over the members of a tree, they resolve, strictly and leniently to the
same list, and no placeholder is left in it at any depth. So each layout begins and ends with the
lists that the header and the trailer resolve to, and has placeholders between them only. -/
theorem placed_members_settle :
    (∀ (fields fields' : FieldRegistry) (components : ComponentRegistry) (location : Location)
        (tree : Member),
      fields.propagate components location [] tree.children = .ok fields' →
        ∃ out, missingIn out = [] ∧ ∀ strict context,
          (Resolver.resolve ⟨fields, components, strict⟩ tree.children context).outcome = .ok out ∧
          (Resolver.resolve ⟨fields', components, strict⟩ tree.children context).outcome =
            .ok out) ∧
    ∀ (root : Node) (config : CompilerConfig) (s : Spec),
      (Spec.compile root config).outcome = .ok s →
        ∃ header trailer,
          Resolver.Settles s.fields s.components s.header.children header ∧
          Resolver.Settles s.fields s.components s.trailer.children trailer ∧
          List.Forall₂ (fun m l => ∃ body,
            (∀ context, (Resolver.resolve ⟨s.fields, s.components, config.strict⟩ m.body
              context).outcome = .ok body) ∧
            l.members = header ++ body ++ trailer ∧ missingIn l.members = missingIn body)
            s.messages.sortedByType s.layouts := by
  constructor
  · intro fields fields' components location tree h
    obtain ⟨out, settles⟩ := Resolver.exists_settles_of_propagate h
    have before := settles fields rfl
    have after := settles fields' (FieldRegistry.propagate_keys h)
    exact ⟨out, before.whole, fun strict context =>
      ⟨before.resolves strict context, after.resolves strict context⟩⟩
  · intro root config s h
    obtain ⟨t⟩ := Spec.compile_eq_ok_iff.mp h
    obtain ⟨header, trailer, hh, ht⟩ := t.exists_settles
    refine ⟨header, trailer, hh, ht, ?_⟩
    refine (t.layouts_between (hh.unfolds _) (ht.unfolds _)).imp ?_
    rintro m l ⟨body, unfolds, split⟩
    refine ⟨body, unfolds.resolve_eq_ok, split, ?_⟩
    rw [split, Resolved.missingIn_append, Resolved.missingIn_append, hh.whole, ht.whole,
      List.nil_append, List.append_nil]

/-- A header with a field inside a field, a reference and a group. -/
def hopsHeader : Member :=
  .root "header" [{ Member.field "BeginString" true with children := [.field "SendingTime" true] },
    .component "Hops" false]

theorem placed_members_settle_of_hopsHeader :
    let fields : FieldRegistry := ⟨[.plain 8 "BeginString" .string, .plain 628 "HopCompID" .string,
      .plain 52 "SendingTime" .utcTimestamp, .plain 627 "NoHops" .numInGroup]⟩
    let components : ComponentRegistry :=
      ⟨[⟨"Hops", [.group "NoHops" true [.field "HopCompID" true]]⟩]⟩
    (∃ moved, fields.propagate components .header [] hopsHeader.children = .ok moved ∧
      ∃ out, missingIn out = [] ∧ ∀ strict context,
        (Resolver.resolve ⟨fields, components, strict⟩ hopsHeader.children context).outcome =
          .ok out ∧
        (Resolver.resolve ⟨moved, components, strict⟩ hopsHeader.children context).outcome =
          .ok out) ∧
    ∃ s, (Spec.compile (Spec.newsOf "Lost" "Gone") ⟨none, false⟩).outcome = .ok s ∧
      s.layouts.map (fun l => missingIn l.members) = [["Lost", "Gone"]] ∧
      ∃ header trailer,
        Resolver.Settles s.fields s.components s.header.children header ∧
        Resolver.Settles s.fields s.components s.trailer.children trailer ∧
        List.Forall₂ (fun m l => ∃ body,
          (∀ context, (Resolver.resolve ⟨s.fields, s.components, false⟩ m.body
            context).outcome = .ok body) ∧
          l.members = header ++ body ++ trailer ∧ missingIn l.members = missingIn body)
          s.messages.sortedByType s.layouts := by
  intro fields components
  constructor
  · have moved : fields.propagate components .header [] hopsHeader.children =
        .ok ⟨fields.fields.map fun f => { f with location := .header }⟩ := by
      cbv
    exact ⟨_, moved, placed_members_settle.1 fields _ components .header hopsHeader moved⟩
  · have compiled : (Spec.compile (Spec.newsOf "Lost" "Gone") ⟨none, false⟩).outcome.map
        (fun s => s.layouts.map fun l => missingIn l.members) = .ok [["Lost", "Gone"]] := by
      cbv
    obtain ⟨s, hs, missing⟩ := except_map_eq_ok_iff.mp compiled
    exact ⟨s, hs, missing, placed_members_settle.2 _ _ s hs⟩

end FixTables
