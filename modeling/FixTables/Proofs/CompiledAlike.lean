import FixTables.Generate
import FixTables.Proofs.LinkedAlike
import Mathlib.Data.String.Basic

namespace FixTables

namespace Field

/-- A field with a location of its own if it bears the name. -/
def placed (name : String) (location : Location) (f : Field) : Field :=
  if f.name = name then { f with location } else f

/-- A view of fields leaves their tags and names as they are and shows where they are moved. -/
structure IsView (view : Field → Field) : Prop where
  tag : ∀ f, (view f).tag = f.tag
  name : ∀ f, (view f).name = f.name
  moved : ∀ (f : Field) (location : Location), view { f with location } = { view f with location }

theorem IsView.placed {view : Field → Field} (h : IsView view) (name : String)
    (location : Location) (f : Field) :
    view (f.placed name location) = (view f).placed name location := by
  unfold Field.placed
  by_cases named : f.name = name
  · rw [if_pos named, if_pos ((h.name f).trans named)]
    exact h.moved f location
  · rw [if_neg named, if_neg (by rwa [h.name])]

end Field

namespace FieldRegistry

variable {view : Field → Field} {r r' moved : FieldRegistry}

theorem setLocation_eq_some_iff {name : String} {location : Location} :
    r.setLocation name location = some moved ↔
      (∃ f ∈ r.fields, f.name = name) ∧ moved = ⟨r.fields.map (·.placed name location)⟩ := by
  unfold setLocation
  by_cases h : ∃ f ∈ r.fields, f.name = name
  · rw [if_pos (by simpa using h), Option.some.injEq, eq_comm]
    exact (and_iff_right h).symm
  · rw [if_neg (by simpa using h)]
    simp [h]

/-- A view shows the fields of both registries, if in another order. -/
def AlikeBy (view : Field → Field) (r r' : FieldRegistry) : Prop :=
  (r.fields.map view).Perm (r'.fields.map view)

theorem AlikeBy.mem (alike : AlikeBy view r r') {f : Field} (hf : f ∈ r.fields) :
    ∃ f' ∈ r'.fields, view f' = view f :=
  List.mem_map.mp (alike.mem_iff.mp (List.mem_map_of_mem hf))

/-- Registries stay alike when a field is moved in both. -/
theorem AlikeBy.setLocation (isView : Field.IsView view) {name : String} {location : Location}
    (alike : AlikeBy view r r') (h : r.setLocation name location = some moved) :
    ∃ moved', r'.setLocation name location = some moved' ∧ AlikeBy view moved moved' := by
  obtain ⟨⟨f, hf, named⟩, rfl⟩ := setLocation_eq_some_iff.mp h
  obtain ⟨f', hf', same⟩ := alike.mem hf
  have named' : f'.name = name := by rw [← isView.name, same, isView.name, named]
  refine ⟨_, setLocation_eq_some_iff.mpr ⟨⟨f', hf', named'⟩, rfl⟩, ?_⟩
  have seen (fs : List Field) : (fs.map (·.placed name location)).map view =
      (fs.map view).map (·.placed name location) := by
    simp [isView.placed]
  unfold AlikeBy
  rw [seen, seen]
  exact List.Perm.map _ alike

theorem AlikeBy.lookup (isView : Field.IsView view) (alike : AlikeBy view r r')
    (names : (r.fields.map (·.name)).Nodup) (name : String) :
    (r.lookup name).map view = (r'.lookup name).map view := by
  have names' : ((r.fields.map view).map (·.name)).Nodup := by
    simpa [Function.comp_def, isView.name] using names
  have search := find?_view_eq_of_perm alike names' name
  simpa [FieldRegistry.lookup, isView.name] using search

theorem AlikeBy.sortedByTag (isView : Field.IsView view) (alike : AlikeBy view r r')
    (tags : (r.fields.map (·.tag)).Nodup) : r.sortedByTag.map view = r'.sortedByTag.map view := by
  have tags' : ((r.fields.map view).map (·.tag)).Nodup := by
    simpa [Function.comp_def, isView.tag] using tags
  exact map_mergeSort_eq_of_perm (by simp [isView.tag]) alike tags'

theorem names_nodup_of_keys (h : r.keys = r'.keys) (names : (r'.fields.map (·.name)).Nodup) :
    (r.fields.map (·.name)).Nodup := by
  have same : r.fields.map (·.name) = r'.fields.map (·.name) := by
    simpa [keys, Function.comp_def] using congrArg (List.map Prod.snd) h
  rwa [same]

theorem tags_nodup_of_keys (h : r.keys = r'.keys) (tags : (r'.fields.map (·.tag)).Nodup) :
    (r.fields.map (·.tag)).Nodup := by
  have same : r.fields.map (·.tag) = r'.fields.map (·.tag) := by
    simpa [keys, Function.comp_def] using congrArg (List.map Prod.fst) h
  rwa [same]

end FieldRegistry

namespace MessageRegistry

theorem sortedByType_unflagged {r r' : MessageRegistry}
    (alike : (r.messages.map Message.unflagged).Perm (r'.messages.map Message.unflagged))
    (types : (r.messages.map (·.msgType)).Nodup) :
    r.sortedByType.map Message.unflagged = r'.sortedByType.map Message.unflagged := by
  have types' : ((r.messages.map Message.unflagged).map (·.msgType)).Nodup := by
    simpa [Function.comp_def, Message.unflagged] using types
  exact map_mergeSort_eq_of_perm (by simp [Message.unflagged]) alike types'

end MessageRegistry

namespace Resolved

theorem maxTagIn_eq_of_map {lists lists' : List (List Resolved)}
    (h : lists.map maxTag = lists'.map maxTag) : maxTagIn lists = maxTagIn lists' := by
  have by_tags (ls : List (List Resolved)) : maxTagIn ls = (ls.map maxTag).foldl Nat.max 0 := by
    rw [List.foldl_map]
    rfl
  rw [by_tags, by_tags, h]

end Resolved

namespace Declarations

/-- Declarations that are the same but for flags, for the order of their parts, and for what a view
of fields does not show. -/
structure Alike (view : Field → Field) (d d' : Declarations) : Prop where
  version : d.version = d'.version
  header : d.header.map Member.unflagged = d'.header.map Member.unflagged
  trailer : d.trailer.map Member.unflagged = d'.trailer.map Member.unflagged
  fields : d.fields.AlikeBy view d'.fields
  components : (d.components.components.map Component.unflagged).Perm
    (d'.components.components.map Component.unflagged)
  messages : (d.messages.messages.map Message.unflagged).Perm
    (d'.messages.messages.map Message.unflagged)

/-- What is declared is told apart by what it is looked up by. -/
structure Distinct (d : Declarations) : Prop where
  field_names : (d.fields.fields.map (·.name)).Nodup
  field_tags : (d.fields.fields.map (·.tag)).Nodup
  component_names : (d.components.components.map (·.name)).Nodup
  message_types : (d.messages.messages.map (·.msgType)).Nodup

variable {view : Field → Field} {d d' : Declarations} {root : Node} {sections : Spec.Sections}
  {config : CompilerConfig} {s s' : Spec}

theorem ReadFrom.distinct (h : d.ReadFrom root sections) : d.Distinct := by
  obtain ⟨fs, _, names, tags, paired⟩ :=
    FieldRegistry.ofSection_eq_ok_iff.mp h.fields_declared
  have keys := FieldRegistry.pairLengths_keys paired
  obtain ⟨_, distinct, components_eq⟩ := Spec.componentsOf_eq_ok_iff.mp h.components_declared
  obtain ⟨ms, _, types, _, messages_eq⟩ :=
    MessageRegistry.ofSection_eq_ok_iff.mp h.messages_declared
  refine ⟨FieldRegistry.names_nodup_of_keys keys names, FieldRegistry.tags_nodup_of_keys keys tags,
    ?_, ?_⟩
  · rw [components_eq]
    simpa [Spec.declaredComponents, Function.comp_def] using distinct
  · rw [messages_eq]
    exact types

theorem Alike.lookup_component (alike : d.Alike view d') (distinct : d.Distinct) (name : String) :
    (d.components.lookup name).map Component.unflagged =
      (d'.components.lookup name).map Component.unflagged := by
  have names : ((d.components.components.map Component.unflagged).map (·.name)).Nodup := by
    simpa [Function.comp_def, Component.unflagged] using distinct.component_names
  exact find?_view_eq_of_perm alike.components names name

/-- Resolvers look up alike in dictionaries whose declarations are alike, wherever their fields have
been moved. -/
theorem Alike.resolvers (alike : d.Alike view d') (distinct : d.Distinct) (isView : Field.IsView view)
    {fields fields' : FieldRegistry} (same : fields.AlikeBy view fields')
    (keys : fields.keys = d.fields.keys) (strict : Bool) :
    Resolver.Alike ⟨fields, d.components, strict⟩ ⟨fields', d'.components, strict⟩ where
  strict := rfl
  fields := by
    intro name
    have names := FieldRegistry.names_nodup_of_keys keys distinct.field_names
    have seen := same.lookup isView names name
    simpa [Function.comp_def, isView.tag, isView.name] using
      congrArg (Option.map fun f => (f.tag, f.name)) seen
  components := alike.lookup_component distinct

theorem Alike.propagate (alike : d.Alike view d') (distinct : d.Distinct)
    (isView : Field.IsView view) {location : Location} {ms ms' : List Member}
    (same : ms.map Member.unflagged = ms'.map Member.unflagged)
    {fields fields' moved : FieldRegistry} (start : fields.AlikeBy view fields')
    (h : fields.propagate d.components location [] ms = .ok moved) :
    ∃ moved', fields'.propagate d'.components location [] ms' = .ok moved' ∧
      moved.AlikeBy view moved' := by
  refine FieldRegistry.propagate_follows (fun alike h => alike.setLocation isView h) ?_ same start h
  intro name c hc
  obtain ⟨c', hc', seen⟩ := exists_some_of_map_eq (alike.lookup_component distinct name) hc
  exact ⟨c', hc', seen.symm⟩

/-- Layouts of messages and of messages that are the same but for flags, built for the same bound
from what the members of either unfold to. -/
theorem exists_layouts_alike {r r' : Resolver} (alike : r.Alike r') {bound : Nat}
    {ms ms' : List Message} (same : ms.map Message.unflagged = ms'.map Message.unflagged)
    {ls : List MessageLayout}
    (built : List.Forall₂ (fun m l => r.Unfolds [] m.members l.members ∧
      (MessageLayout.build m l.members bound).outcome = .ok l) ms ls) :
    ∃ ls', List.Forall₂ (fun m l => r'.Unfolds [] m.members l.members ∧
        (MessageLayout.build m l.members bound).outcome = .ok l) ms' ls' ∧
      ls.map MessageLayout.bare = ls'.map MessageLayout.bare ∧
      Resolved.maxTagIn (ls.map (·.members)) = Resolved.maxTagIn (ls'.map (·.members)) := by
  have pairs : List.Forall₂ (fun m' m => m.unflagged = m'.unflagged) ms' ms := by
    rw [← List.forall₂_eq_eq_eq, List.forall₂_map_left_iff, List.forall₂_map_right_iff] at same
    exact same.flip
  have each : List.Forall₂ (fun m' l => ∃ l' : MessageLayout,
      (r'.Unfolds [] m'.members l'.members ∧
        (MessageLayout.build m' l'.members bound).outcome = .ok l') ∧
      l.bare = l'.bare ∧ Resolved.maxTag l.members = Resolved.maxTag l'.members) ms' ls := by
    refine (forall₂_comp pairs built).imp ?_
    rintro m' l ⟨m, same, unfolds, builds⟩
    obtain ⟨members', unfolds', seen⟩ := unfolds.alike alike (Message.of_unflagged_eq same).2.2
    exact ⟨{ l with members := members' }, ⟨unfolds', MessageLayout.build_congr same seen builds⟩,
      rfl, Resolved.maxTag_congr seen⟩
  obtain ⟨ls', built', seen⟩ := exists_between_of_forall₂ each
  refine ⟨ls', built', (map_eq_of_forall₂ seen fun _ _ h => h.1.symm).symm, ?_⟩
  apply Resolved.maxTagIn_eq_of_map
  rw [List.map_map, List.map_map]
  exact (map_eq_of_forall₂ seen fun _ _ h => h.2.symm).symm

end Declarations

/-- Dictionaries that are alike in all that is written of them, but for what a view of fields does
not show. -/
structure Spec.Alike (view : Field → Field) (s s' : Spec) : Prop where
  version : s.version = s'.version
  fields : s.fields.AlikeBy view s'.fields
  tags_distinct : (s.fields.fields.map (·.tag)).Nodup
  layouts : s.layouts.map MessageLayout.bare = s'.layouts.map MessageLayout.bare

namespace Declarations

variable {view : Field → Field} {d d' : Declarations} {root root' : Node} {config : CompilerConfig}
  {s : Spec}

/-- What can be linked from declarations can be linked from declarations alike, alike. -/
theorem LinkTo.follow (link : d.LinkTo config s) (alike : d.Alike view d') (distinct : d.Distinct)
    (isView : Field.IsView view) : ∃ s', d'.LinkTo config s' ∧ s.Alike view s' := by
  have keys := link.fields_keys
  obtain ⟨version_eq, components_eq, messages_eq, header_eq, trailer_eq, ⟨placed, hh, ht⟩, unfold,
    layouts, bound⟩ := link
  obtain ⟨placed', hh', next⟩ := alike.propagate distinct isView alike.header alike.fields hh
  obtain ⟨fields', ht', last⟩ := alike.propagate distinct isView alike.trailer next ht
  have resolvers := alike.resolvers distinct isView last keys config.strict
  have sorted := MessageRegistry.sortedByType_unflagged alike.messages distinct.message_types
  -- The old bound is kept to build the new layouts, and only then turns out to be their own.
  obtain ⟨layouts', built, seen, largest⟩ := exists_layouts_alike resolvers sorted layouts
  let s' : Spec := {
    version := d'.version
    fields := fields'
    components := d'.components
    messages := d'.messages
    header := .root "header" d'.header
    trailer := .root "trailer" d'.trailer
    layouts := layouts'
    tagBound := s.tagBound }
  refine ⟨s', ⟨rfl, rfl, rfl, rfl, rfl, ⟨placed', hh', ht'⟩, ?_, built, ?_⟩, ?_⟩
  · intro c' hc'
    obtain ⟨c, hc, seen⟩ := List.mem_map.mp (alike.components.mem_iff.mpr (List.mem_map_of_mem hc'))
    obtain ⟨out, h⟩ := unfold c hc
    obtain ⟨out', h', _⟩ := h.alike resolvers (Component.of_unflagged_eq seen).2
    exact ⟨out', h'⟩
  · rw [bound, largest]
  · exact ⟨version_eq.trans alike.version, last,
      FieldRegistry.tags_nodup_of_keys keys distinct.field_tags, seen⟩

end Declarations

end FixTables
