import FixTables.Proofs.MessageLookup
import FixTables.Proofs.ValidDictionary

namespace FixTables

namespace ComponentRegistry

/-- A list of members holds those in it and those nested in a member that is entered. References
are not followed. -/
inductive Holds (enters : Member → Prop) : List Member → Member → Prop
  | here {ms : List Member} {m : Member} : m ∈ ms → Holds enters ms m
  | nested {ms : List Member} {outer m : Member} : outer ∈ ms → enters outer →
      Holds enters outer.children m → Holds enters ms m

/-- Members refer to a component if they hold a reference to it. -/
def RefersTo (r : ComponentRegistry) (enters : Member → Prop) (ms : List Member)
    (c : Component) : Prop :=
  ∃ m, Holds enters ms m ∧ m.kind = .component ∧ r.lookup m.name = some c

/-- A chain of references: the members refer to the component named first, and each component to
the one named after it. -/
def Chain (r : ComponentRegistry) (enters : Member → Prop) : List Member → List String → Prop
  | _, [] => True
  | ms, name :: names =>
    ∃ c, r.RefersTo enters ms c ∧ c.name = name ∧ r.Chain enters c.members names

/-- The way tells of a cycle: it is a chain of references that comes back, with its last name and
not before, to where it has been. -/
def TellsCycle (r : ComponentRegistry) (enters : Member → Prop) (ms : List Member)
    (way : List String) : Prop :=
  ∃ names last, way = names ++ [last] ∧ r.Chain enters ms way ∧ names.Nodup ∧ last ∈ names

variable {r : ComponentRegistry} {enters : Member → Prop} {ms ns : List Member}

theorem Holds.mono {m : Member} (h : Holds enters ms m) (sub : ms ⊆ ns) : Holds enters ns m := by
  cases h with
  | here hm => exact .here (sub hm)
  | nested hm he h => exact .nested (sub hm) he h

theorem Chain.of_holds {way : List String} (h : r.Chain enters ns way)
    (sub : ∀ x, Holds enters ns x → Holds enters ms x) : r.Chain enters ms way := by
  cases way with
  | nil => trivial
  | cons name names =>
    obtain ⟨c, ⟨m, hm, hk, hc⟩, hn, hnames⟩ := h
    exact ⟨c, ⟨m, sub m hm, hk, hc⟩, hn, hnames⟩

theorem Chain.through {way : List String} {m : Member} {c : Component} (hk : m.kind = .component)
    (hc : r.lookup m.name = some c) (h : r.Chain enters c.members way) :
    r.Chain enters [m] (c.name :: way) :=
  ⟨c, ⟨m, .here (by simp), hk, hc⟩, rfl, h⟩

end ComponentRegistry

namespace Resolver

open ComponentRegistry

/-- Why the expansion of members is refused where a path of components led to them. -/
inductive Refuses (r : Resolver) (context : String) (path : List String) (ms : List Member) :
    SchemaError → Prop
  | unknown {m : Member} : r.strict = true → r.components.Meets r.Enters ms m → ¬ r.Known m →
      Refuses r context path ms (.unresolvedReference m.name context)
  | cyclic {names : List String} {last : String} :
      r.components.Chain r.Enters ms (names ++ [last]) → (path ++ names).Nodup →
      last ∈ path ++ names → Refuses r context path ms (.cyclicReference (path ++ names ++ [last]))

variable {r : Resolver} {context : String} {cap : Option Bool} {path : List String}
  {ms ns : List Member} {m : Member} {e : SchemaError}

theorem Refuses.of_holds (h : r.Refuses context path ns e)
    (meets : ∀ x, r.components.Meets r.Enters ns x → r.components.Meets r.Enters ms x)
    (holds : ∀ x, Holds r.Enters ns x → Holds r.Enters ms x) : r.Refuses context path ms e := by
  cases h with
  | unknown hs hm hn => exact .unknown hs (meets _ hm) hn
  | cyclic chain distinct back => exact .cyclic (chain.of_holds holds) distinct back

theorem Refuses.mono (h : r.Refuses context path ns e) (sub : ns ⊆ ms) :
    r.Refuses context path ms e :=
  h.of_holds (fun _ hx => hx.mono sub) fun _ hx => hx.mono sub

theorem Refuses.nested (he : r.Enters m) (h : r.Refuses context path m.children e) :
    r.Refuses context path [m] e :=
  h.of_holds (fun _ hx => .nested (by simp) he hx) fun _ hx => .nested (by simp) he hx

/-- The component that a path is extended by becomes the first name of the rest of the way. -/
theorem Refuses.through {c : Component} (hk : m.kind = .component)
    (hc : r.components.lookup m.name = some c)
    (h : r.Refuses context (path ++ [c.name]) c.members e) : r.Refuses context path [m] e := by
  cases h with
  | unknown hs hm hn => exact .unknown hs (.through (by simp) hk hc hm) hn
  | @cyclic names last chain distinct back =>
    have regroup : path ++ [c.name] ++ names = path ++ c.name :: names := by simp
    rw [regroup] at distinct back ⊢
    exact .cyclic (Chain.through hk hc chain) distinct back

theorem unknown_eq_error_iff :
    (r.unknown context m).outcome = .error e ↔
      r.strict = true ∧ e = .unresolvedReference m.name context := by
  unfold unknown
  cases hs : r.strict <;> simp [Except.map, eq_comm]

theorem expand_nil_ne_error : (r.expand context cap path []).outcome ≠ .error e := by
  rw [expand]
  simp

theorem expand_cons_eq_error (h : (r.expand context cap path (m :: ms)).outcome = .error e) :
    (r.expandMember context cap path m).outcome = .error e ∨
      (r.expand context cap path ms).outcome = .error e := by
  rw [expand] at h
  simp only [Traced.bind_eq_error_iff, Traced.pure_outcome, reduceCtorEq, and_false, exists_false,
    or_false] at h
  obtain h | ⟨_, _, h⟩ := h
  · exact .inl h
  · exact .inr h

theorem expandMember_of_group_eq_error {f : Field} (hk : m.kind = .group)
    (hf : r.fields.lookup m.name = some f)
    (h : (r.expandMember context cap path m).outcome = .error e) :
    (r.expand context none path m.children).outcome = .error e := by
  rw [expandMember, hk] at h
  simpa only [hf, Traced.bind_eq_error_iff, Traced.pure_outcome, reduceCtorEq, and_false,
    exists_false, or_false] using h

/-- Expansion fails for an unknown name or where the path comes back to itself. -/
theorem refuses_of_expand (h : (r.expand context cap path ms).outcome = .error e)
    (distinct : path.Nodup) : r.Refuses context path ms e := by
  induction path, ms using r.components.walk_induction generalizing cap with
  | nil path => exact absurd h expand_nil_ne_error
  | cons path m ms nested through rest =>
    obtain h | h := expand_cons_eq_error h
    · suffices r.Refuses context path [m] e from this.mono (by simp)
      by_cases known : r.Known m
      · cases hk : m.kind with
        | field =>
          obtain ⟨f, hf⟩ := by simpa [Known, hk] using known
          rw [expandMember_of_field hk hf] at h
          simp at h
        | group =>
          obtain ⟨f, hf⟩ := by simpa [Known, hk] using known
          exact (nested (expandMember_of_group_eq_error hk hf h) distinct).nested ⟨hk, f, hf⟩
        | component =>
          obtain ⟨c, hc⟩ := by simpa [Known, hk] using known
          rw [expandMember_of_component hk hc] at h
          split at h
          next back =>
            obtain rfl := Except.error.inj h
            have chain : r.components.Chain r.Enters [m] ([] ++ [c.name]) :=
              Chain.through hk hc trivial
            simpa using Refuses.cyclic chain (by simpa using distinct) (by simpa using back)
          next fresh =>
            -- A component is only entered off the path, so the longer path is distinct, too.
            have further : (path ++ [c.name]).Nodup :=
              List.nodup_append.mpr ⟨distinct, by simp, by grind⟩
            exact (through c hc fresh h further).through hk hc
      · rw [expandMember_of_not_known known] at h
        obtain ⟨hs, rfl⟩ := unknown_eq_error_iff.mp h
        exact .unknown hs (.here (by simp)) known
    · exact (rest h distinct).mono (by simp)

theorem refuses_of_resolve (h : (r.resolve ms context).outcome = .error e) :
    r.Refuses context [] ms e :=
  refuses_of_expand h List.nodup_nil

theorem exists_error_iff {x : Except ε α} : (∃ e, x = .error e) ↔ ¬ ∃ a, x = .ok a := by
  cases x <;> simp

theorem not_acyclicFrom_iff :
    ¬ r.components.AcyclicFrom r.Enters ms ↔
      ∃ c, r.components.ComesTo r.Enters ms c ∧ r.components.Cyclic r.Enters c := by
  simp [AcyclicFrom]

/-- A lenient resolver fails for cycles only. -/
theorem resolve_fails_iff_of_lenient (hs : r.strict = false) :
    (∃ e, (r.resolve ms context).outcome = .error e) ↔
      ∃ c, r.components.ComesTo r.Enters ms c ∧ r.components.Cyclic r.Enters c := by
  rw [exists_error_iff, resolve_succeeds_iff, ← not_acyclicFrom_iff]
  simp [ClearFrom, Takes, hs]

theorem resolve_succeeds_iff_of_strict (hs : r.strict = true) :
    (∃ out, (r.resolve ms context).outcome = .ok out) ↔
      (¬ ∃ c, r.components.ComesTo r.Enters ms c ∧ r.components.Cyclic r.Enters c) ∧
        ∀ m, r.components.Meets r.Enters ms m → r.Known m := by
  rw [resolve_succeeds_iff, ← not_acyclicFrom_iff, not_not]
  simp [ClearFrom, Takes, hs, and_comm]

mutual
/-- Expansion to a depth, with no regard to why it ends: `none` if it follows more references one
inside the other than that. -/
def expandTo (r : Resolver) (context : String) (depth : Nat) (cap : Option Bool)
    (path : List String) (members : List Member) : Option (Traced SchemaError (List Resolved)) :=
  match members with
  | [] => some (return [])
  | m :: ms => do
    let first ← expandMemberTo r context depth cap path m
    let rest ← expandTo r context depth cap path ms
    some do return (← first) ++ (← rest)
termination_by (depth, sizeOf members)
def expandMemberTo (r : Resolver) (context : String) (depth : Nat) (cap : Option Bool)
    (path : List String) (m : Member) : Option (Traced SchemaError (List Resolved)) :=
  match m.kind with
  | .field =>
    match r.fields.lookup m.name with
    | some f => some (return [.field f.tag f.name (requiredUnder cap m)])
    | none => some (r.unknown context m)
  | .group =>
    match r.fields.lookup m.name with
    | some f => do
      let entry ← expandTo r context depth none path m.children
      some do return [.group f.tag f.name (requiredUnder cap m) (← entry)]
    | none => some (r.unknown context m)
  | .component =>
    match r.components.lookup m.name with
    | some c =>
      if c.name ∈ path then some (.fail (.cyclicReference (path ++ [c.name])))
      else
        match depth with
        | 0 => none
        | depth + 1 => expandTo r context depth (innerCap cap m) (path ++ [c.name]) c.members
    | none => some (r.unknown context m)
termination_by (depth, sizeOf m)
decreasing_by
  · cases m
    simp
    omega
  · exact Prod.Lex.left _ _ (Nat.lt_succ_self _)
end

/-- No more references are followed one inside the other than there are components off the path. -/
theorem expandTo_eq_expand {depth : Nat} (h : (r.components.outside path).length ≤ depth) :
    r.expandTo context depth cap path ms = some (r.expand context cap path ms) := by
  induction path, ms using r.components.walk_induction generalizing depth cap with
  | nil path => rw [expandTo, expand]
  | cons path m ms nested through rest =>
    suffices r.expandMemberTo context depth cap path m =
        some (r.expandMember context cap path m) by
      rw [expandTo, expand, this, rest h]
      rfl
    by_cases known : r.Known m
    · cases hk : m.kind with
      | field =>
        obtain ⟨f, hf⟩ := by simpa [Known, hk] using known
        rw [expandMember_of_field hk hf, expandMemberTo, hk]
        simp [hf]
      | group =>
        obtain ⟨f, hf⟩ := by simpa [Known, hk] using known
        rw [expandMember, expandMemberTo, hk]
        simp [hf, nested h]
      | component =>
        obtain ⟨c, hc⟩ := by simpa [Known, hk] using known
        rw [expandMember_of_component hk hc, expandMemberTo, hk]
        simp only [hc]
        split
        next => rfl
        next fresh =>
          have fewer := outside_append_lt hc fresh
          obtain ⟨below, rfl⟩ : ∃ below, depth = below + 1 := ⟨depth - 1, by omega⟩
          exact through c hc fresh (by omega)
    · rw [expandMember_of_not_known known, expandMemberTo]
      cases hk : m.kind <;> simp only [Known, hk] at known ⊢ <;> split <;> simp_all

theorem expandTo_eq_resolve (r : Resolver) (ms : List Member) (context : String) :
    r.expandTo context r.components.components.length none [] ms = some (r.resolve ms context) :=
  expandTo_eq_expand (List.length_filter_le _ _)

/-- Resolution comes to an end at a depth of references that the number of components bounds. A
lenient resolver fails exactly for a cycle ahead, a strict one succeeds exactly if there is none and
all names ahead are known, and a cycle is reported by a way that tells of it. So no component of a
compiled dictionary leads back to itself. -/
theorem resolve_reports_cycles :
    (∀ (r : Resolver) (ms : List Member) (context : String),
      r.expandTo context r.components.components.length none [] ms =
          some (r.resolve ms context) ∧
        (r.strict = false → ((∃ e, (r.resolve ms context).outcome = .error e) ↔
          ∃ c, r.components.ComesTo r.Enters ms c ∧ r.components.Cyclic r.Enters c)) ∧
        (r.strict = true → ((∃ out, (r.resolve ms context).outcome = .ok out) ↔
          (¬ ∃ c, r.components.ComesTo r.Enters ms c ∧ r.components.Cyclic r.Enters c) ∧
            ∀ m, r.components.Meets r.Enters ms m → r.Known m)) ∧
        ∀ e, (r.resolve ms context).outcome = .error e →
          (∃ way, e = .cyclicReference way ∧ r.components.TellsCycle r.Enters ms way ∧
            e.message = "cyclic component reference: " ++ " -> ".intercalate way) ∨
          ∃ m, r.strict = true ∧ r.components.Meets r.Enters ms m ∧ ¬ r.Known m ∧
            e = .unresolvedReference m.name context) ∧
      ∀ (root : Node) (config : CompilerConfig) (s : Spec),
        (Spec.compile root config).outcome = .ok s → ∀ c ∈ s.components.components,
          ¬ s.components.Cyclic (Enters ⟨s.fields, s.components, config.strict⟩) c := by
  refine ⟨fun r ms context => ⟨expandTo_eq_resolve r ms context, ?_, ?_, ?_⟩, ?_⟩
  · exact resolve_fails_iff_of_lenient
  · exact resolve_succeeds_iff_of_strict
  · intro e h
    cases refuses_of_resolve h with
    | unknown hs hm hn => exact .inr ⟨_, hs, hm, hn, rfl⟩
    | cyclic chain distinct back => exact .inl ⟨_, rfl, ⟨_, _, rfl, chain, distinct, back⟩, rfl⟩
  · intro root config s h c hc
    obtain ⟨t⟩ := Spec.compile_eq_ok_iff.mp h
    exact t.consistent.components_acyclic c hc

/-- Two components that lead back to each other through a group, beside one that is used twice. -/
def twistedLegs (strict : Bool) : Resolver where
  fields := ⟨[.plain 55 "Symbol" .string, .plain 555 "NoLegs" .numInGroup]⟩
  components := ⟨[⟨"Instrument", [.field "Symbol" true]⟩,
    ⟨"Legs", [.component "Instrument" true, .group "NoLegs" true [.component "Leg" true]]⟩,
    ⟨"Leg", [.component "Instrument" true, .component "Legs" false]⟩]⟩
  strict := strict

/-- A dictionary in which a component refers to another. -/
def linkedLists : Node :=
  let refer (element name : String) := (Node.leaf element).withAttribute "name" name
  Spec.twoOrderLists.append { Node.leaf "components" with
    children := [(refer "component" "Outer").append (refer "component" "Inner"),
      (refer "component" "Inner").append (refer "field" "ListID")] }

theorem resolve_reports_cycles_of_twistedLegs :
    (∃ c, (twistedLegs false).components.ComesTo (twistedLegs false).Enters
        [.component "Instrument" true, .component "Leg" true] c ∧
      (twistedLegs false).components.Cyclic (twistedLegs false).Enters c) ∧
    (twistedLegs false).components.TellsCycle (twistedLegs false).Enters
      [.component "Instrument" true, .component "Leg" true] ["Leg", "Legs", "Leg"] ∧
    (∀ m, (twistedLegs true).components.Meets (twistedLegs true).Enters
        [.component "Instrument" true, .component "Instrument" false] m →
      (twistedLegs true).Known m) ∧
    ∃ s, (Spec.compile linkedLists .default).outcome = .ok s ∧
      s.components.components.map (·.name) = ["Outer", "Inner"] ∧
      ∀ c ∈ s.components.components,
        ¬ s.components.Cyclic (Enters ⟨s.fields, s.components, true⟩) c := by
  obtain ⟨resolves, compiles⟩ := resolve_reports_cycles
  obtain ⟨-, lenient, -, reports⟩ := resolves (twistedLegs false)
    [.component "Instrument" true, .component "Leg" true] "message"
  obtain ⟨-, -, strict, -⟩ := resolves (twistedLegs true)
    [.component "Instrument" true, .component "Instrument" false] "message"
  have turns : ((twistedLegs false).resolve
      [.component "Instrument" true, .component "Leg" true] "message").outcome =
        .error (.cyclicReference ["Leg", "Legs", "Leg"]) := by
    cbv
  have unfolds : ((twistedLegs true).resolve
      [.component "Instrument" true, .component "Instrument" false] "message").outcome =
        .ok [.field 55 "Symbol" true, .field 55 "Symbol" false] := by
    cbv
  refine ⟨(lenient rfl).mp ⟨_, turns⟩, ?_, ((strict rfl).mp ⟨_, unfolds⟩).2, ?_⟩
  · obtain ⟨way, same, tells, -⟩ | ⟨m, -, -, -, same⟩ := reports _ turns
    · obtain rfl := SchemaError.cyclicReference.inj same
      exact tells
    · exact absurd same (by simp)
  · have compiled : ((Spec.compile linkedLists .default).outcome.map fun s =>
        s.components.components.map (·.name)) = .ok ["Outer", "Inner"] := by
      cbv
    cases hs : (Spec.compile linkedLists .default).outcome with
    | error e => simp [hs, Except.map] at compiled
    | ok s => exact ⟨s, rfl, by simpa [hs, Except.map] using compiled, compiles _ _ s hs⟩

end Resolver

end FixTables
