import FixTables.Proofs.Unfolding

namespace FixTables

namespace FieldRegistry

/-- All that resolution reads of fields: their tags and names. -/
def keys (r : FieldRegistry) : List (Nat × String) := r.fields.map fun f => (f.tag, f.name)

theorem lookup_key (r : FieldRegistry) (name : String) :
    (r.lookup name).map (fun f => (f.tag, f.name)) = r.keys.find? (·.2 = name) := by
  rw [keys, List.find?_map]
  rfl

theorem lookup_of_keys_eq {r r' : FieldRegistry} (h : r.keys = r'.keys) {name : String} {f : Field}
    (hf : r.lookup name = some f) :
    ∃ f', r'.lookup name = some f' ∧ f'.tag = f.tag ∧ f'.name = f.name := by
  have hk := r'.lookup_key name
  rw [← h, ← r.lookup_key, hf] at hk
  obtain ⟨f', hf', same⟩ := Option.map_eq_some_iff.mp hk
  exact ⟨f', hf', congrArg Prod.fst same, congrArg Prod.snd same⟩

theorem exists_lookup_congr {r r' : FieldRegistry} (h : r.keys = r'.keys) (name : String) :
    (∃ f, r.lookup name = some f) ↔ ∃ f, r'.lookup name = some f := by
  constructor
  · rintro ⟨f, hf⟩
    obtain ⟨f', hf', _⟩ := lookup_of_keys_eq h hf
    exact ⟨f', hf'⟩
  · rintro ⟨f, hf⟩
    obtain ⟨f', hf', _⟩ := lookup_of_keys_eq h.symm hf
    exact ⟨f', hf'⟩

theorem keys_map {g : Field → Field} (h : ∀ f, (g f).tag = f.tag ∧ (g f).name = f.name)
    (fs : List Field) : (FieldRegistry.mk (fs.map g)).keys = (FieldRegistry.mk fs).keys := by
  simp [keys, h]

theorem relate_keys (r : FieldRegistry) (pair : Nat × Nat) : (r.relate pair).keys = r.keys := by
  apply keys_map
  intro f
  split
  next => exact ⟨rfl, rfl⟩
  next => split <;> exact ⟨rfl, rfl⟩

theorem foldl_relate_keys (r : FieldRegistry) (pairs : List (Nat × Nat)) :
    (pairs.foldl relate r).keys = r.keys := by
  induction pairs generalizing r with
  | nil => rfl
  | cons pair pairs ih => rw [List.foldl_cons, ih, relate_keys]

theorem pairLengths_keys {r paired : FieldRegistry} (h : r.pairLengths.outcome = .ok paired) :
    paired.keys = r.keys := by
  obtain rfl := Except.ok.inj h
  exact foldl_relate_keys r r.lengthPairs

/-- A field can be moved exactly if it is there, and keeps its tag and name. -/
theorem setLocation_succeeds_iff {r : FieldRegistry} {name : String} (location : Location) :
    (∃ moved, r.setLocation name location = some moved) ↔ ∃ f, r.lookup name = some f := by
  unfold setLocation lookup
  cases h : r.fields.find? (·.name = name) with
  | none =>
    have absent := List.find?_eq_none.mp h
    simpa using absent
  | some f =>
    have hm := List.mem_of_find?_eq_some h
    have hn : f.name = name := by simpa using List.find?_some h
    simpa using ⟨f, hm, hn⟩

theorem setLocation_keys {r moved : FieldRegistry} {name : String} {location : Location}
    (h : r.setLocation name location = some moved) : moved.keys = r.keys := by
  unfold setLocation at h
  split at h
  next =>
    obtain rfl := Option.some.inj h
    apply keys_map
    intro f
    split <;> exact ⟨rfl, rfl⟩
  next => simp at h

end FieldRegistry

namespace Resolver

variable {fields fields' : FieldRegistry} {components : ComponentRegistry} {strict : Bool}

theorem known_congr (h : fields.keys = fields'.keys) (m : Member) :
    Known ⟨fields, components, strict⟩ m ↔ Known ⟨fields', components, strict⟩ m := by
  unfold Known
  split
  next => rfl
  next => exact FieldRegistry.exists_lookup_congr h m.name

theorem enters_congr (h : fields.keys = fields'.keys) :
    Enters ⟨fields, components, strict⟩ = Enters ⟨fields', components, strict⟩ := by
  funext m
  rw [Enters, Enters, FieldRegistry.exists_lookup_congr h m.name]

/-- What one resolver looks up another one does, too; a lenient one looks up no more. -/
structure Within (r r' : Resolver) : Prop where
  strict : r'.strict = r.strict
  field : ∀ {name f}, r.fields.lookup name = some f →
    ∃ f', r'.fields.lookup name = some f' ∧ f'.tag = f.tag ∧ f'.name = f.name
  component : ∀ {name c}, r.components.lookup name = some c → r'.components.lookup name = some c
  unknown : r.strict = false → ∀ m, ¬ r.Known m → ¬ r'.Known m

theorem Unfolds.within {r r' : Resolver} {refs ms : List Member} {out : List Resolved}
    (h : r.Unfolds refs ms out) (within : r.Within r') : r'.Unfolds refs ms out := by
  induction h with
  | nil => exact .nil
  | field kind hf _ ih =>
    obtain ⟨f', hf', tag, name⟩ := within.field hf
    rw [← tag, ← name]
    exact .field kind hf' ih
  | group kind hf _ _ inner ih =>
    obtain ⟨f', hf', tag, name⟩ := within.field hf
    rw [← tag, ← name]
    exact .group kind hf' inner ih
  | component kind hc _ _ inner ih => exact .component kind (within.component hc) inner ih
  | unknown lenient hn _ ih =>
    exact .unknown (within.strict.trans lenient) (within.unknown lenient _ hn) ih

/-- Members unfold alike wherever fields have the same tags and names. -/
theorem Unfolds.of_keys {refs ms : List Member} {out : List Resolved}
    (h : Unfolds ⟨fields, components, strict⟩ refs ms out) (hk : fields.keys = fields'.keys) :
    Unfolds ⟨fields', components, strict⟩ refs ms out :=
  h.within ⟨rfl, FieldRegistry.lookup_of_keys_eq hk, id,
    fun _ m hn known => hn ((known_congr hk m).mpr known)⟩

end Resolver

end FixTables
