import FixTables.Propagation

namespace FixTables

namespace ComponentRegistry

/-- A walk through a list of members meets those in the list, those nested in a member that it
enters, and those of every component that a member on its way refers to. -/
inductive Meets (r : ComponentRegistry) (enters : Member → Prop) : List Member → Member → Prop
  | here {ms : List Member} {m : Member} : m ∈ ms → Meets r enters ms m
  | nested {ms : List Member} {outer m : Member} : outer ∈ ms → enters outer →
      Meets r enters outer.children m → Meets r enters ms m
  | through {ms : List Member} {ref m : Member} {c : Component} : ref ∈ ms →
      ref.kind = .component → r.lookup ref.name = some c →
      Meets r enters c.members m → Meets r enters ms m

/-- A walk through a list of members comes to a component if it meets a reference to it. -/
def ComesTo (r : ComponentRegistry) (enters : Member → Prop) (ms : List Member)
    (c : Component) : Prop :=
  ∃ m, r.Meets enters ms m ∧ m.kind = .component ∧ r.lookup m.name = some c

/-- A component is cyclic if a walk through its own members comes back to it. -/
def Cyclic (r : ComponentRegistry) (enters : Member → Prop) (c : Component) : Prop :=
  r.ComesTo enters c.members c

/-- No walk through the members comes to a cyclic component. -/
def AcyclicFrom (r : ComponentRegistry) (enters : Member → Prop) (ms : List Member) : Prop :=
  ∀ c, r.ComesTo enters ms c → ¬ r.Cyclic enters c

/-- A walk is clear if every member that it meets passes and it comes to no cycle. -/
def ClearFrom (r : ComponentRegistry) (enters passes : Member → Prop) (ms : List Member) : Prop :=
  (∀ m, r.Meets enters ms m → passes m) ∧ r.AcyclicFrom enters ms

variable {r : ComponentRegistry} {enters passes : Member → Prop} {ms ns : List Member}

theorem lookup_name {name : String} {c : Component} (h : r.lookup name = some c) :
    c.name = name := by
  simpa using List.find?_some h

theorem lookup_mem {name : String} {c : Component} (h : r.lookup name = some c) :
    c ∈ r.components :=
  List.mem_of_find?_eq_some h

theorem not_meets_nil (m : Member) : ¬ r.Meets enters [] m := by
  intro h
  cases h <;> simp_all

theorem Meets.mono {m : Member} (h : r.Meets enters ms m) (sub : ms ⊆ ns) :
    r.Meets enters ns m := by
  cases h with
  | here hm => exact .here (sub hm)
  | nested hm he h => exact .nested (sub hm) he h
  | through hm hk hc h => exact .through (sub hm) hk hc h

theorem Meets.inside {outer m : Member} (h : r.Meets enters ms outer) (entered : enters outer)
    (hm : r.Meets enters outer.children m) : r.Meets enters ms m := by
  induction h with
  | here ho => exact .nested ho entered hm
  | nested ho he _ ih => exact .nested ho he (ih entered hm)
  | through ho hk hc _ ih => exact .through ho hk hc (ih entered hm)

/-- What a walk meets from one member on. -/
theorem meets_singleton_iff {m x : Member} :
    r.Meets enters [m] x ↔ x = m ∨ (enters m ∧ r.Meets enters m.children x) ∨
      ∃ c, m.kind = .component ∧ r.lookup m.name = some c ∧ r.Meets enters c.members x := by
  constructor
  · intro h
    cases h with
    | here hm => exact .inl (by simpa using hm)
    | nested hm he h =>
      obtain rfl := List.mem_singleton.mp hm
      exact .inr (.inl ⟨he, h⟩)
    | through hm hk hc h =>
      obtain rfl := List.mem_singleton.mp hm
      exact .inr (.inr ⟨_, hk, hc, h⟩)
  · rintro (rfl | ⟨he, h⟩ | ⟨c, hk, hc, h⟩)
    · exact .here (by simp)
    · exact .nested (by simp) he h
    · exact .through (by simp) hk hc h

theorem meets_cons_iff {m x : Member} :
    r.Meets enters (m :: ms) x ↔ r.Meets enters [m] x ∨ r.Meets enters ms x := by
  constructor
  · intro h
    cases h with
    | here hm => exact (List.mem_cons.mp hm).imp (fun e => .here (by simp [e])) .here
    | nested hm he h =>
      exact (List.mem_cons.mp hm).imp (fun e => .nested (by simp [e]) he h) (.nested · he h)
    | through hm hk hc h =>
      exact (List.mem_cons.mp hm).imp (fun e => .through (by simp [e]) hk hc h)
        (.through · hk hc h)
  · rintro (h | h)
    · exact h.mono (by simp)
    · exact h.mono (by simp)

theorem forall_meets_cons_iff {p : Member → Prop} {m : Member} :
    (∀ x, r.Meets enters (m :: ms) x → p x) ↔
      (∀ x, r.Meets enters [m] x → p x) ∧ ∀ x, r.Meets enters ms x → p x := by
  constructor
  · intro h
    exact ⟨fun x hx => h x (meets_cons_iff.mpr (.inl hx)),
      fun x hx => h x (meets_cons_iff.mpr (.inr hx))⟩
  · rintro ⟨hm, hms⟩ x hx
    exact (meets_cons_iff.mp hx).elim (hm x) (hms x)

theorem forall_meets_singleton_iff {p : Member → Prop} {m : Member} :
    (∀ x, r.Meets enters [m] x → p x) ↔
      p m ∧ (enters m → ∀ x, r.Meets enters m.children x → p x) ∧
        ∀ c, m.kind = .component → r.lookup m.name = some c →
          ∀ x, r.Meets enters c.members x → p x := by
  constructor
  · intro h
    exact ⟨h m (.here (by simp)), fun he x hx => h x (.nested (by simp) he hx),
      fun c hk hc x hx => h x (.through (by simp) hk hc hx)⟩
  · rintro ⟨hm, hn, ht⟩ x hx
    rcases meets_singleton_iff.mp hx with rfl | ⟨he, hx⟩ | ⟨c, hk, hc, hx⟩
    · exact hm
    · exact hn he x hx
    · exact ht c hk hc x hx

theorem comesTo_singleton {m : Member} {c : Component} (hk : m.kind = .component)
    (hc : r.lookup m.name = some c) : r.ComesTo enters [m] c :=
  ⟨m, .here (by simp), hk, hc⟩

theorem ComesTo.of_meets {c : Component} (h : r.ComesTo enters ns c)
    (sub : ∀ x, r.Meets enters ns x → r.Meets enters ms x) : r.ComesTo enters ms c := by
  obtain ⟨m, hm, hk, hc⟩ := h
  exact ⟨m, sub m hm, hk, hc⟩

theorem ComesTo.meets {c : Component} {x : Member} (h : r.ComesTo enters ms c)
    (hx : r.Meets enters c.members x) : r.Meets enters ms x := by
  obtain ⟨m, hm, hk, hc⟩ := h
  induction hm with
  | here hm => exact .through hm hk hc hx
  | nested hm he _ ih => exact .nested hm he (ih hk hc)
  | through hm hk' hc' _ ih => exact .through hm hk' hc' (ih hk hc)

theorem AcyclicFrom.of_meets (h : r.AcyclicFrom enters ms)
    (sub : ∀ x, r.Meets enters ns x → r.Meets enters ms x) : r.AcyclicFrom enters ns :=
  fun c hc => h c (hc.of_meets sub)

theorem acyclicFrom_nil : r.AcyclicFrom enters [] := by
  rintro c ⟨m, hm, _⟩
  exact absurd hm (not_meets_nil m)

theorem acyclicFrom_cons_iff {m : Member} :
    r.AcyclicFrom enters (m :: ms) ↔ r.AcyclicFrom enters [m] ∧ r.AcyclicFrom enters ms := by
  constructor
  · intro h
    exact ⟨h.of_meets fun x hx => meets_cons_iff.mpr (.inl hx),
      h.of_meets fun x hx => meets_cons_iff.mpr (.inr hx)⟩
  · rintro ⟨hm, hms⟩ c ⟨x, hx, hk, hc⟩
    rcases meets_cons_iff.mp hx with hx | hx
    · exact hm c ⟨x, hx, hk, hc⟩
    · exact hms c ⟨x, hx, hk, hc⟩

/-- A reference adds no cycle of its own: a component on a cycle is met from its own members. -/
theorem acyclicFrom_singleton_iff {m : Member} :
    r.AcyclicFrom enters [m] ↔ (enters m → r.AcyclicFrom enters m.children) ∧
      ∀ c, m.kind = .component → r.lookup m.name = some c → r.AcyclicFrom enters c.members := by
  constructor
  · intro h
    exact ⟨fun he => h.of_meets fun x hx => .nested (by simp) he hx,
      fun c hk hc => h.of_meets fun x hx => .through (by simp) hk hc hx⟩
  · rintro ⟨hn, ht⟩ d ⟨x, hx, hxk, hd⟩
    rcases meets_singleton_iff.mp hx with rfl | ⟨he, hx⟩ | ⟨c, hk, hc, hx⟩
    · exact fun cyclic => ht d hxk hd d cyclic cyclic
    · exact hn he d ⟨x, hx, hxk, hd⟩
    · exact ht c hk hc d ⟨x, hx, hxk, hd⟩

theorem ClearFrom.of_meets (h : r.ClearFrom enters passes ms)
    (sub : ∀ x, r.Meets enters ns x → r.Meets enters ms x) : r.ClearFrom enters passes ns :=
  ⟨fun x hx => h.1 x (sub x hx), h.2.of_meets sub⟩

theorem clearFrom_nil : r.ClearFrom enters passes [] :=
  ⟨fun x hx => absurd hx (not_meets_nil x), acyclicFrom_nil⟩

theorem clearFrom_cons_iff {m : Member} :
    r.ClearFrom enters passes (m :: ms) ↔
      r.ClearFrom enters passes [m] ∧ r.ClearFrom enters passes ms := by
  unfold ClearFrom
  rw [forall_meets_cons_iff, acyclicFrom_cons_iff]
  exact and_and_and_comm

theorem clearFrom_singleton_iff {m : Member} :
    r.ClearFrom enters passes [m] ↔ passes m ∧
      (enters m → r.ClearFrom enters passes m.children) ∧
        ∀ c, m.kind = .component → r.lookup m.name = some c →
          r.ClearFrom enters passes c.members := by
  unfold ClearFrom
  rw [forall_meets_singleton_iff, acyclicFrom_singleton_iff]
  constructor
  · rintro ⟨⟨hm, inside, through⟩, acyclicInside, acyclicThrough⟩
    exact ⟨hm, fun he => ⟨inside he, acyclicInside he⟩,
      fun c hk hc => ⟨through c hk hc, acyclicThrough c hk hc⟩⟩
  · rintro ⟨hm, inside, through⟩
    exact ⟨⟨hm, fun he => (inside he).1, fun c hk hc => (through c hk hc).1⟩,
      fun he => (inside he).2, fun c hk hc => (through c hk hc).2⟩

theorem not_cyclic_of_acyclicFrom {c : Component} (h : r.AcyclicFrom enters c.members) :
    ¬ r.Cyclic enters c :=
  fun cyclic => h c cyclic cyclic

theorem acyclicFrom_of_forall_not_cyclic (h : ∀ c ∈ r.components, ¬ r.Cyclic enters c)
    (ms : List Member) : r.AcyclicFrom enters ms := by
  rintro c ⟨m, _, _, hc⟩
  exact h c (lookup_mem hc)

/-- Every component on the path is a registered one, and a walk through it meets all that a walk
through the members does. -/
def PathTo (r : ComponentRegistry) (enters : Member → Prop) (path : List String)
    (ms : List Member) : Prop :=
  ∀ p ∈ path, ∃ c, r.lookup p = some c ∧ ∀ x, r.Meets enters ms x → r.Meets enters c.members x

theorem pathTo_nil : r.PathTo enters [] ms := by
  simp [PathTo]

theorem PathTo.of_meets {path : List String} (h : r.PathTo enters path ms)
    (sub : ∀ x, r.Meets enters ns x → r.Meets enters ms x) : r.PathTo enters path ns := by
  intro p hp
  obtain ⟨c, hc, hm⟩ := h p hp
  exact ⟨c, hc, fun x hx => hm x (sub x hx)⟩

theorem PathTo.into {path : List String} {m : Member} {c : Component}
    (h : r.PathTo enters path [m]) (hk : m.kind = .component) (hc : r.lookup m.name = some c) :
    r.PathTo enters (path ++ [c.name]) c.members := by
  intro p hp
  rcases List.mem_append.mp hp with hp | hp
  · exact h.of_meets (fun x hx => .through (by simp) hk hc hx) p hp
  · obtain rfl := List.mem_singleton.mp hp
    exact ⟨c, by rwa [lookup_name hc], fun x hx => hx⟩

/-- A walk that no cycle lies before never turns back to its own path. -/
theorem PathTo.not_mem {path : List String} {m : Member} {c : Component}
    (h : r.PathTo enters path [m]) (acyclic : r.AcyclicFrom enters [m])
    (hk : m.kind = .component) (hc : r.lookup m.name = some c) : c.name ∉ path := by
  intro hp
  obtain ⟨d, hd, hm⟩ := h c.name hp
  have same : d = c := by
    rw [lookup_name hc, hc] at hd
    exact (Option.some.inj hd).symm
  subst d
  exact acyclic c (comesTo_singleton hk hc) ⟨m, hm m (.here (by simp)), hk, hc⟩

/-- Induction along a walk: into the members nested in one, into a component not yet on the path,
and on to the members after it. -/
theorem walk_induction (r : ComponentRegistry) {motive : List String → List Member → Prop}
    (nil : ∀ path, motive path [])
    (cons : ∀ path m ms, motive path m.children →
      (∀ c, r.lookup m.name = some c → c.name ∉ path → motive (path ++ [c.name]) c.members) →
      motive path ms → motive path (m :: ms))
    (path : List String) (ms : List Member) : motive path ms :=
  match ms with
  | [] => nil path
  | m :: ms => cons path m ms (walk_induction r nil cons path m.children)
      (fun c _ _ => walk_induction r nil cons (path ++ [c.name]) c.members)
      (walk_induction r nil cons path ms)
termination_by ((r.outside path).length, sizeOf ms)
decreasing_by
  · cases m
    apply Prod.Lex.right
    simp only [List.cons.sizeOf_spec, Member.mk.sizeOf_spec]
    omega
  · exact Prod.Lex.left _ _ (outside_append_lt ‹_› ‹_›)
  · apply Prod.Lex.right
    simp only [List.cons.sizeOf_spec]
    omega

end ComponentRegistry

end FixTables
