import FixTables.Proofs.FieldKeys
import FixTables.Propagation

namespace FixTables

/-- Locations also spread to what is declared inside a field, but not inside a reference to a
component. -/
def Member.HoldsOthers (m : Member) : Prop := m.kind ≠ .component

namespace FieldRegistry

variable {components : ComponentRegistry} {location : Location} {path : List String}
  {fields fields' : FieldRegistry} {m : Member} {ms : List Member}

theorem propagate_nil_eq_ok_iff :
    fields.propagate components location path [] = .ok fields' ↔ fields' = fields := by
  rw [propagate]
  simp [eq_comm]

theorem propagate_cons_eq_ok_iff :
    fields.propagate components location path (m :: ms) = .ok fields' ↔
      ∃ moved, fields.propagateMember components location path m = .ok moved ∧
        moved.propagate components location path ms = .ok fields' := by
  rw [propagate]
  exact except_bind_eq_ok_iff

theorem propagateMember_of_holdsOthers_eq_ok_iff (hk : m.HoldsOthers) :
    fields.propagateMember components location path m = .ok fields' ↔
      ∃ moved, fields.setLocation m.name location = some moved ∧
        moved.propagate components location path m.children = .ok fields' := by
  rw [propagateMember]
  unfold Member.HoldsOthers at hk
  cases kind : m.kind with
  | component => exact absurd kind hk
  | field | group => cases fields.setLocation m.name location <;> simp

theorem propagateMember_of_component_eq_ok_iff (hk : m.kind = .component) :
    fields.propagateMember components location path m = .ok fields' ↔
      ∃ c, components.lookup m.name = some c ∧ c.name ∉ path ∧
        fields.propagate components location (path ++ [c.name]) c.members = .ok fields' := by
  rw [propagateMember, hk]
  simp only
  split
  next c hc =>
    split
    next hp => simp [hc, hp]
    next hp => simp [hc, hp]
  next hn => simp [hn]

/-- A spread location leaves all tags and names as they are. -/
theorem propagate_keys (h : fields.propagate components location path ms = .ok fields') :
    fields'.keys = fields.keys := by
  induction path, ms using components.walk_induction generalizing fields fields' with
  | nil path => rw [propagate_nil_eq_ok_iff.mp h]
  | cons path m ms nested through rest =>
    obtain ⟨moved, hm, hms⟩ := propagate_cons_eq_ok_iff.mp h
    rw [rest hms]
    by_cases holds : m.HoldsOthers
    · obtain ⟨placed, hp, hc⟩ := (propagateMember_of_holdsOthers_eq_ok_iff holds).mp hm
      exact (nested hc).trans (setLocation_keys hp)
    · obtain ⟨c, hc, fresh, hin⟩ :=
        (propagateMember_of_component_eq_ok_iff (not_not.mp holds)).mp hm
      exact through c hc fresh hin

theorem propagateMember_keys (h : fields.propagateMember components location path m = .ok fields') :
    fields'.keys = fields.keys := by
  have alone : fields.propagate components location path [m] = .ok fields' :=
    propagate_cons_eq_ok_iff.mpr ⟨fields', h, propagate_nil_eq_ok_iff.mpr rfl⟩
  exact propagate_keys alone

variable {r : Resolver}

theorem propagate_clear (h : fields.propagate r.components location path ms = .ok fields')
    (hk : fields.keys = r.fields.keys) :
    r.components.ClearFrom Member.HoldsOthers r.Known ms := by
  induction path, ms using r.components.walk_induction generalizing fields fields' with
  | nil path => exact ComponentRegistry.clearFrom_nil
  | cons path m ms nested through rest =>
    obtain ⟨moved, hm, hms⟩ := propagate_cons_eq_ok_iff.mp h
    apply ComponentRegistry.clearFrom_cons_iff.mpr
    refine ⟨ComponentRegistry.clearFrom_singleton_iff.mpr ?_,
      rest hms ((propagateMember_keys hm).trans hk)⟩
    by_cases holds : m.HoldsOthers
    · obtain ⟨placed, hp, hc⟩ := (propagateMember_of_holdsOthers_eq_ok_iff holds).mp hm
      obtain ⟨f, hf⟩ := (exists_lookup_congr hk m.name).mp
        ((setLocation_succeeds_iff location).mp ⟨placed, hp⟩)
      exact ⟨Resolver.known_of_field holds hf, fun _ => nested hc ((setLocation_keys hp).trans hk),
        fun _ kind => absurd kind holds⟩
    · have kind : m.kind = .component := not_not.mp holds
      obtain ⟨c, hc, fresh, hin⟩ := (propagateMember_of_component_eq_ok_iff kind).mp hm
      refine ⟨Resolver.known_of_component kind hc, fun he => absurd he holds, ?_⟩
      intro d _ hd
      obtain rfl := Option.some.inj (hc.symm.trans hd)
      exact through c hc fresh hin hk

theorem propagate_eq_ok_of_clear (location : Location) (hk : fields.keys = r.fields.keys)
    (hp : r.components.PathTo Member.HoldsOthers path ms)
    (clear : r.components.ClearFrom Member.HoldsOthers r.Known ms) :
    ∃ fields', fields.propagate r.components location path ms = .ok fields' := by
  induction path, ms using r.components.walk_induction generalizing fields with
  | nil path => exact ⟨fields, propagate_nil_eq_ok_iff.mpr rfl⟩
  | cons path m ms nested through rest =>
    have first := hp.of_meets fun x hx => ComponentRegistry.meets_cons_iff.mpr (.inl hx)
    have later := hp.of_meets fun x hx => ComponentRegistry.meets_cons_iff.mpr (.inr hx)
    obtain ⟨clearFirst, clearLater⟩ := ComponentRegistry.clearFrom_cons_iff.mp clear
    suffices ∃ moved, fields.propagateMember r.components location path m = .ok moved by
      obtain ⟨moved, hm⟩ := this
      obtain ⟨fields', hf⟩ := rest ((propagateMember_keys hm).trans hk) later clearLater
      exact ⟨fields', propagate_cons_eq_ok_iff.mpr ⟨moved, hm, hf⟩⟩
    obtain ⟨known, inside, beyond⟩ := ComponentRegistry.clearFrom_singleton_iff.mp clearFirst
    by_cases holds : m.HoldsOthers
    · have registered : ∃ f, r.fields.lookup m.name = some f := by
        simpa [Resolver.Known, show m.kind ≠ .component from holds] using known
      obtain ⟨placed, hs⟩ := (setLocation_succeeds_iff location).mpr
        ((exists_lookup_congr hk m.name).mpr registered)
      obtain ⟨moved, hm⟩ := nested ((setLocation_keys hs).trans hk)
        (first.of_meets fun x hx => .nested (by simp) holds hx) (inside holds)
      exact ⟨moved, (propagateMember_of_holdsOthers_eq_ok_iff holds).mpr ⟨placed, hs, hm⟩⟩
    · have kind : m.kind = .component := not_not.mp holds
      obtain ⟨c, hc⟩ : ∃ c, r.components.lookup m.name = some c := by
        simpa [Resolver.Known, kind] using known
      have fresh := first.not_mem clearFirst.2 kind hc
      obtain ⟨moved, hm⟩ := through c hc fresh hk (first.into kind hc) (beyond c kind hc)
      exact ⟨moved, (propagateMember_of_component_eq_ok_iff kind).mpr ⟨c, hc, fresh, hm⟩⟩

/-- A location spreads exactly where every name ahead is registered and no cycle lies ahead. -/
theorem propagate_succeeds_iff (location : Location) (hk : fields.keys = r.fields.keys) :
    (∃ fields', fields.propagate r.components location [] ms = .ok fields') ↔
      r.components.ClearFrom Member.HoldsOthers r.Known ms := by
  constructor
  · rintro ⟨fields', h⟩
    exact propagate_clear h hk
  · exact propagate_eq_ok_of_clear location hk ComponentRegistry.pathTo_nil

end FieldRegistry

end FixTables
