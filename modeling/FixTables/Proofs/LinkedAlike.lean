import FixTables.Proofs.FlagErasure
import FixTables.Proofs.OrderedSearch

namespace FixTables

theorem exists_some_of_map_eq {f : α → β} {x y : Option α} (same : x.map f = y.map f) {a : α}
    (hx : x = some a) : ∃ b, y = some b ∧ f b = f a := by
  rw [hx] at same
  exact Option.map_eq_some_iff.mp same.symm

namespace FieldRegistry

variable {components components' : ComponentRegistry} {location : Location} {path : List String}
  {fields fields' moved : FieldRegistry} {ms ms' : List Member}

/-- A location spreads in one registry as it does in another if single moves follow each other and
every component that the one walk comes to is there, but for flags, for the other. -/
theorem propagate_follows {rel : FieldRegistry → FieldRegistry → Prop}
    (move : ∀ {name f g f'}, rel f g → f.setLocation name location = some f' →
      ∃ g', g.setLocation name location = some g' ∧ rel f' g')
    (there : ∀ {name c}, components.lookup name = some c →
      ∃ c', components'.lookup name = some c' ∧ c.unflagged = c'.unflagged)
    (same : ms.map Member.unflagged = ms'.map Member.unflagged) (start : rel fields fields')
    (h : fields.propagate components location path ms = .ok moved) :
    ∃ moved', fields'.propagate components' location path ms' = .ok moved' ∧ rel moved moved' := by
  -- The walk that is known to end is the one to go along; the other takes the same turns.
  induction path, ms using components.walk_induction generalizing fields fields' moved ms' with
  | nil path =>
    obtain rfl : ms' = [] := by simpa using same.symm
    obtain rfl := propagate_nil_eq_ok_iff.mp h
    exact ⟨fields', propagate_nil_eq_ok_iff.mpr rfl, start⟩
  | cons path m ms nested through rest =>
    obtain ⟨m', ms', rfl, name, kind, children, others⟩ := Member.exists_cons_of_unflagged_eq same
    obtain ⟨between, hm, hms⟩ := propagate_cons_eq_ok_iff.mp h
    suffices ∃ between', fields'.propagateMember components' location path m' = .ok between' ∧
        rel between between' by
      obtain ⟨between', hm', next⟩ := this
      obtain ⟨moved', hms', last⟩ := rest others next hms
      exact ⟨moved', propagate_cons_eq_ok_iff.mpr ⟨between', hm', hms'⟩, last⟩
    by_cases holds : m.HoldsOthers
    · have holds' : m'.HoldsOthers := by rwa [Member.HoldsOthers, ← kind]
      obtain ⟨placed, hp, hc⟩ := (propagateMember_of_holdsOthers_eq_ok_iff holds).mp hm
      obtain ⟨placed', hp', next⟩ := move start hp
      obtain ⟨between', hc', last⟩ := nested children next hc
      rw [name] at hp'
      exact ⟨between', (propagateMember_of_holdsOthers_eq_ok_iff holds').mpr ⟨placed', hp', hc'⟩,
        last⟩
    · have refers : m.kind = .component := not_not.mp holds
      have refers' : m'.kind = .component := kind ▸ refers
      obtain ⟨c, hc, fresh, hin⟩ := (propagateMember_of_component_eq_ok_iff refers).mp hm
      obtain ⟨c', hc', alike⟩ := there hc
      obtain ⟨sameName, sameMembers⟩ := Component.of_unflagged_eq alike
      obtain ⟨between', hin', last⟩ := through c hc fresh sameMembers start hin
      rw [name] at hc'
      rw [sameName] at fresh hin'
      exact ⟨between', (propagateMember_of_component_eq_ok_iff refers').mpr
        ⟨c', hc', fresh, hin'⟩, last⟩

end FieldRegistry

namespace Resolver

variable {r r' : Resolver}

/-- Resolvers are alike if they look every name up alike, but for the flags in components. -/
structure Alike (r r' : Resolver) : Prop where
  strict : r.strict = r'.strict
  fields : ∀ name, (r.fields.lookup name).map (fun f => (f.tag, f.name)) =
    (r'.fields.lookup name).map fun f => (f.tag, f.name)
  components : ∀ name, (r.components.lookup name).map Component.unflagged =
    (r'.components.lookup name).map Component.unflagged

theorem Alike.field (h : r.Alike r') {name : String} {f : Field}
    (hf : r.fields.lookup name = some f) :
    ∃ f', r'.fields.lookup name = some f' ∧ f'.tag = f.tag ∧ f'.name = f.name := by
  obtain ⟨f', hf', key⟩ := exists_some_of_map_eq (h.fields name) hf
  exact ⟨f', hf', congrArg Prod.fst key, congrArg Prod.snd key⟩

theorem Alike.component (h : r.Alike r') {name : String} {c : Component}
    (hc : r.components.lookup name = some c) :
    ∃ c', r'.components.lookup name = some c' ∧ c.unflagged = c'.unflagged := by
  obtain ⟨c', hc', view⟩ := exists_some_of_map_eq (h.components name) hc
  exact ⟨c', hc', view.symm⟩

theorem Alike.symm (h : r.Alike r') : r'.Alike r :=
  ⟨h.strict.symm, fun name => (h.fields name).symm, fun name => (h.components name).symm⟩

theorem Alike.known (h : r.Alike r') {m m' : Member} (name : m.name = m'.name)
    (kind : m.kind = m'.kind) (hm : r.Known m) : r'.Known m' := by
  unfold Known at hm ⊢
  rw [name, kind] at hm
  split at hm
  next hk =>
    obtain ⟨c, hc⟩ := hm
    obtain ⟨c', hc', _⟩ := h.component hc
    rw [if_pos hk]
    exact ⟨c', hc'⟩
  next hk =>
    obtain ⟨f, hf⟩ := hm
    obtain ⟨f', hf', _⟩ := h.field hf
    rw [if_neg hk]
    exact ⟨f', hf'⟩

/-- Flags have no part in what members unfold to, but for its own flags. -/
theorem Unfolds.alike {refs refs' ms ms' : List Member} {out : List Resolved}
    (h : r.Unfolds refs ms out) (alike : r.Alike r')
    (same : ms.map Member.unflagged = ms'.map Member.unflagged) :
    ∃ out', r'.Unfolds refs' ms' out' ∧
      out.map Resolved.unflagged = out'.map Resolved.unflagged := by
  induction h generalizing refs' ms' with
  | nil =>
    obtain rfl : ms' = [] := by simpa using same.symm
    exact ⟨[], .nil, rfl⟩
  | field hk hf _ ih =>
    obtain ⟨m', ms', rfl, name, kind, _, others⟩ := Member.exists_cons_of_unflagged_eq same
    obtain ⟨f', hf', tag, fieldName⟩ := alike.field hf
    obtain ⟨out', hu, sees⟩ := @ih refs' _ others
    rw [name] at hf'
    refine ⟨_, .field (kind ▸ hk) hf' hu, ?_⟩
    simp [Resolved.unflagged, tag, fieldName, sees]
  | group hk hf _ _ inner ih =>
    obtain ⟨m', ms', rfl, name, kind, children, others⟩ := Member.exists_cons_of_unflagged_eq same
    obtain ⟨f', hf', tag, fieldName⟩ := alike.field hf
    obtain ⟨entry', he, seesEntry⟩ := @inner [] _ children
    obtain ⟨out', hu, sees⟩ := @ih refs' _ others
    rw [name] at hf'
    refine ⟨_, .group (kind ▸ hk) hf' he hu, ?_⟩
    simp [Resolved.unflagged_group, tag, fieldName, sees, seesEntry]
  | component hk hc _ _ inner ih =>
    obtain ⟨m', ms', rfl, name, kind, _, others⟩ := Member.exists_cons_of_unflagged_eq same
    obtain ⟨c', hc', view⟩ := alike.component hc
    obtain ⟨_, members⟩ := Component.of_unflagged_eq view
    obtain ⟨inner', hi, seesInner⟩ := @inner (m' :: refs') _ members
    obtain ⟨out', hu, sees⟩ := @ih refs' _ others
    rw [name] at hc'
    refine ⟨_, .component (kind ▸ hk) hc' hi hu, ?_⟩
    rw [List.map_append, List.map_append, seesInner, sees]
  | unknown lenient hn _ ih =>
    obtain ⟨m', ms', rfl, name, kind, _, others⟩ := Member.exists_cons_of_unflagged_eq same
    obtain ⟨out', hu, sees⟩ := @ih refs' _ others
    have unknown' : ¬ r'.Known m' := fun known =>
      hn (alike.symm.known name.symm kind.symm known)
    refine ⟨_, .unknown (alike.strict ▸ lenient) unknown' hu, ?_⟩
    simp [Resolved.unflagged, name, sees]

end Resolver

end FixTables
