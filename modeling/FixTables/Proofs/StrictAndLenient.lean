import FixTables.Proofs.CycleReports
import FixTables.Proofs.Linking
import FixTables.Proofs.MessageFrames

namespace FixTables

namespace Resolved

mutual
/-- The names in a member that were looked up in vain, in the order in which they are read. -/
def missing : Resolved → List String
  | field _ _ _ => []
  | group _ _ _ members => missingIn members
  | unresolved name => [name]
def missingIn : List Resolved → List String
  | [] => []
  | m :: ms => missing m ++ missingIn ms
end

theorem missingIn_append (ms ns : List Resolved) :
    missingIn (ms ++ ns) = missingIn ms ++ missingIn ns := by
  induction ms with
  | nil => rfl
  | cons m ms ih => rw [List.cons_append, missingIn, missingIn, ih, List.append_assoc]

/-- A name is missing where a placeholder stands for it, in the list itself or in an entry of a
group at any depth. -/
theorem mem_missingIn_iff {name : String} {ms : List Resolved} :
    name ∈ missingIn ms ↔
      .unresolved name ∈ ms ∨ ∃ entry, EntryOf ms entry ∧ .unresolved name ∈ entry := by
  induction ms using entry_induction with
  | nil => simp [missingIn, not_entryOf_nil]
  | cons m ms inner rest =>
    have split : (∃ entry, EntryOf (m :: ms) entry ∧ .unresolved name ∈ entry) ↔
        (∃ outer, m.entry? = some outer ∧ name ∈ missingIn outer) ∨
          ∃ entry, EntryOf ms entry ∧ .unresolved name ∈ entry := by
      simp only [entryOf_cons_iff]
      constructor
      · rintro ⟨entry, ⟨outer, ho, rfl | he⟩ | he, hn⟩
        · exact .inl ⟨entry, ho, (inner entry ho).mpr (.inl hn)⟩
        · exact .inl ⟨outer, ho, (inner outer ho).mpr (.inr ⟨entry, he, hn⟩)⟩
        · exact .inr ⟨entry, he, hn⟩
      · rintro (⟨outer, ho, hn⟩ | ⟨entry, he, hn⟩)
        · rcases (inner outer ho).mp hn with hn | ⟨entry, he, hn⟩
          · exact ⟨outer, .inl ⟨outer, ho, .inl rfl⟩, hn⟩
          · exact ⟨entry, .inl ⟨outer, ho, .inr he⟩, hn⟩
        · exact ⟨entry, .inr he, hn⟩
    rw [missingIn, List.mem_append, List.mem_cons, rest, split]
    cases m with
    | field => simp [missing, entry?]
    | group => simp [missing, entry?, or_left_comm]
    | unresolved => simp [missing, entry?, or_assoc]

end Resolved

namespace Resolver

open Resolved (missing missingIn)

/-- What strict resolution makes of a list with placeholders: the first of them is an error. -/
def strictly (context : String) (out : List Resolved) : Except SchemaError (List Resolved) :=
  match missingIn out with
  | [] => .ok out
  | name :: _ => .error (.unresolvedReference name context)

variable {fields : FieldRegistry} {components : ComponentRegistry} {context : String}
  {cap : Option Bool} {path : List String} {refs ms : List Member} {m : Member}
  {out first rest : List Resolved}

theorem strictly_eq_ok_iff {out' : List Resolved} :
    strictly context out = .ok out' ↔ missingIn out = [] ∧ out' = out := by
  unfold strictly
  cases missingIn out <;> simp [eq_comm]

theorem strictly_append :
    strictly context (first ++ rest) =
      (strictly context first).bind fun first => (strictly context rest).map (first ++ ·) := by
  unfold strictly
  rw [Resolved.missingIn_append]
  cases missingIn first with
  | cons => rfl
  | nil => cases missingIn rest <;> rfl

theorem strictly_group {tag : Nat} {name : String} {required : Bool} :
    strictly context [.group tag name required out] =
      (strictly context out).map fun entry => [.group tag name required entry] := by
  have inside : missingIn [.group tag name required out] = missingIn out := by
    simp [missingIn, missing]
  unfold strictly
  rw [inside]
  cases missingIn out <;> rfl

theorem expand_cons_outcome (r : Resolver) :
    (r.expand context cap path (m :: ms)).outcome =
      (r.expandMember context cap path m).outcome.bind fun first =>
        (r.expand context cap path ms).outcome.map (first ++ ·) := by
  rw [expand, Traced.bind_outcome]
  congr 1
  funext first
  rw [Traced.bind_outcome]
  cases (r.expand context cap path ms).outcome <;> rfl

theorem expandMember_of_group_outcome {r : Resolver} {f : Field} (hk : m.kind = .group)
    (hf : r.fields.lookup m.name = some f) :
    (r.expandMember context cap path m).outcome =
      (r.expand context none path m.children).outcome.map fun entry =>
        [.group f.tag f.name (requiredUnder cap m) entry] := by
  rw [expandMember, hk]
  simp only [hf, Traced.bind_outcome]
  cases (r.expand context none path m.children).outcome <;> rfl

/-- Where lenient expansion succeeds, strict expansion goes the same way up to the first
placeholder. -/
theorem strict_expand_eq (h : (expand ⟨fields, components, false⟩ context cap path ms).outcome =
    .ok out) : (expand ⟨fields, components, true⟩ context cap path ms).outcome =
      strictly context out := by
  induction path, ms using components.walk_induction generalizing cap out with
  | nil path =>
    obtain rfl := expand_nil_eq_ok_iff.mp h
    exact expand_nil_eq_ok_iff.mpr rfl
  | cons path m ms nested through later =>
    obtain ⟨first, rest, hf, hr, rfl⟩ := expand_cons_eq_ok_iff.mp h
    -- A placeholder of the first member precedes all others, as its error does.
    suffices (expandMember ⟨fields, components, true⟩ context cap path m).outcome =
        strictly context first by
      rw [expand_cons_outcome, this, later hr, strictly_append]
    by_cases known : Known ⟨fields, components, false⟩ m
    · cases hk : m.kind with
      | field =>
        obtain ⟨f, hl⟩ : ∃ f, fields.lookup m.name = some f := by simpa [Known, hk] using known
        rw [expandMember_of_field hk hl] at hf ⊢
        obtain rfl := Except.ok.inj hf
        rfl
      | group =>
        obtain ⟨f, hl⟩ : ∃ f, fields.lookup m.name = some f := by simpa [Known, hk] using known
        obtain ⟨entry, he, rfl⟩ := (expandMember_of_group_eq_ok_iff hk hl).mp hf
        rw [expandMember_of_group_outcome hk hl, nested he, strictly_group]
      | component =>
        obtain ⟨c, hc⟩ : ∃ c, components.lookup m.name = some c := by
          simpa [Known, hk] using known
        rw [expandMember_of_component hk hc] at hf ⊢
        split at hf
        next => simp at hf
        next fresh =>
          rw [if_neg fresh]
          exact through c hc fresh hf
    · have unknown : ¬ Known ⟨fields, components, true⟩ m := known
      rw [expandMember_of_not_known known, unknown_eq_ok_iff] at hf
      obtain ⟨-, rfl⟩ := hf
      rw [expandMember_of_not_known unknown]
      exact unknown_eq_error_iff.mpr ⟨rfl, rfl⟩

theorem Unfolds.leniently (h : Unfolds ⟨fields, components, true⟩ refs ms out) :
    Unfolds ⟨fields, components, false⟩ refs ms out := by
  induction h with
  | nil => exact .nil
  | field hk hl _ ih => exact .field hk hl ih
  | group hk hl _ _ inner ih => exact .group hk hl inner ih
  | component hk hc _ _ inner ih => exact .component hk hc inner ih
  | unknown strict => exact nomatch strict

theorem lenient_resolve_eq_ok (h : (resolve ⟨fields, components, true⟩ ms context).outcome =
    .ok out) : (resolve ⟨fields, components, false⟩ ms context).outcome = .ok out :=
  (unfolds_of_resolve h).leniently.resolve_eq_ok context

end Resolver

namespace Spec

variable {root : Node} {bound : Option Nat} {s : Spec}

theorem lenient_compile_eq_ok (h : (compile root ⟨bound, true⟩).outcome = .ok s) :
    (compile root ⟨bound, false⟩).outcome = .ok s := by
  obtain ⟨d, sections, read, link⟩ := compile_eq_ok_iff_linkTo.mp h
  refine compile_eq_ok_iff_linkTo.mpr ⟨d, sections, read, ?_⟩
  exact { link with
    components_unfold := fun c hc => (link.components_unfold c hc).imp fun _ h => h.leniently
    layouts_built := link.layouts_built.imp fun _ _ h => ⟨h.1.leniently, h.2⟩ }

end Spec

/-- Strict and lenient resolution agree but for placeholders, the first of which a strict resolver
reports. So what compiles strictly compiles leniently to the same. -/
theorem strict_and_lenient_agree :
    (∀ (fields : FieldRegistry) (components : ComponentRegistry) (ms : List Member)
        (context : String),
      (∀ out, (Resolver.resolve ⟨fields, components, true⟩ ms context).outcome = .ok out →
        (Resolver.resolve ⟨fields, components, false⟩ ms context).outcome = .ok out ∧
          Resolved.missingIn out = []) ∧
      (∀ out, (Resolver.resolve ⟨fields, components, false⟩ ms context).outcome = .ok out →
        (Resolved.missingIn out = [] →
          (Resolver.resolve ⟨fields, components, true⟩ ms context).outcome = .ok out) ∧
        ∀ name names, Resolved.missingIn out = name :: names →
          (Resolver.resolve ⟨fields, components, true⟩ ms context).outcome =
            .error (.unresolvedReference name context)) ∧
      ∀ e, (Resolver.resolve ⟨fields, components, false⟩ ms context).outcome = .error e →
        ∃ e', (Resolver.resolve ⟨fields, components, true⟩ ms context).outcome = .error e') ∧
    ∀ (root : Node) (bound : Option Nat) (s : Spec),
      (Spec.compile root ⟨bound, true⟩).outcome = .ok s →
        (Spec.compile root ⟨bound, false⟩).outcome = .ok s := by
  refine ⟨fun fields components ms context => ⟨fun out h => ?_, fun out h => ?_, fun e h => ?_⟩,
    fun root bound s => Spec.lenient_compile_eq_ok⟩
  · have lenient := Resolver.lenient_resolve_eq_ok h
    refine ⟨lenient, ?_⟩
    have same := Resolver.strict_expand_eq lenient
    exact (Resolver.strictly_eq_ok_iff.mp (same.symm.trans h)).1
  · have strict : (Resolver.resolve ⟨fields, components, true⟩ ms context).outcome = _ :=
      Resolver.strict_expand_eq h
    refine ⟨fun none => ?_, fun name names some => ?_⟩
    · rw [strict, Resolver.strictly, none]
    · rw [strict, Resolver.strictly, some]
  · apply Resolver.exists_error_iff.mpr
    rintro ⟨out, ok⟩
    rw [Resolver.lenient_resolve_eq_ok ok] at h
    simp at h

/-- A group that holds a component with a member of no registry, and a component that refers to
itself. -/
def looseLegs : FieldRegistry × ComponentRegistry :=
  (⟨[.plain 55 "Symbol" .string, .plain 555 "NoLegs" .numInGroup]⟩,
    ⟨[⟨"Leg", [.field "Symbol" true, .field "LegRatio" false]⟩,
      ⟨"Loop", [.field "Symbol" true, .component "Loop" true]⟩]⟩)

theorem strict_and_lenient_agree_of_looseLegs :
    ((Resolver.resolve ⟨looseLegs.1, looseLegs.2, true⟩ [.field "Symbol" true]
        "message").outcome = .ok [.field 55 "Symbol" true] ∧
      (Resolver.resolve ⟨looseLegs.1, looseLegs.2, false⟩ [.field "Symbol" true]
        "message").outcome = .ok [.field 55 "Symbol" true]) ∧
    ((Resolver.resolve ⟨looseLegs.1, looseLegs.2, false⟩
        [.group "NoLegs" true [.component "Leg" true], .component "Other" true]
        "message").outcome =
        .ok [.group 555 "NoLegs" true [.field 55 "Symbol" true, .unresolved "LegRatio"],
          .unresolved "Other"] ∧
      (Resolver.resolve ⟨looseLegs.1, looseLegs.2, true⟩
        [.group "NoLegs" true [.component "Leg" true], .component "Other" true]
        "message").outcome = .error (.unresolvedReference "LegRatio" "message")) ∧
    ((Resolver.resolve ⟨looseLegs.1, looseLegs.2, false⟩ [.field "Leg" true, .component "Loop" true]
        "message").outcome = .error (.cyclicReference ["Loop", "Loop"]) ∧
      ∃ e, (Resolver.resolve ⟨looseLegs.1, looseLegs.2, true⟩
        [.field "Leg" true, .component "Loop" true] "message").outcome = .error e) ∧
    ∃ s, (Spec.compile Spec.echoes ⟨some 100, true⟩).outcome = .ok s ∧
      (Spec.compile Spec.echoes ⟨some 100, false⟩).outcome = .ok s := by
  obtain ⟨resolves, compiles⟩ := strict_and_lenient_agree
  have resolves := resolves looseLegs.1 looseLegs.2
  have strict : (Resolver.resolve ⟨looseLegs.1, looseLegs.2, true⟩ [.field "Symbol" true]
      "message").outcome = .ok [.field 55 "Symbol" true] := by
    cbv
  have lenient : (Resolver.resolve ⟨looseLegs.1, looseLegs.2, false⟩
      [.group "NoLegs" true [.component "Leg" true], .component "Other" true] "message").outcome =
        .ok [.group 555 "NoLegs" true [.field 55 "Symbol" true, .unresolved "LegRatio"],
          .unresolved "Other"] := by
    cbv
  have loops : (Resolver.resolve ⟨looseLegs.1, looseLegs.2, false⟩
      [.field "Leg" true, .component "Loop" true] "message").outcome =
        .error (.cyclicReference ["Loop", "Loop"]) := by
    cbv
  refine ⟨⟨strict, ((resolves _ _).1 _ strict).1⟩, ⟨lenient, ?_⟩, ⟨loops, ?_⟩, ?_⟩
  · exact ((resolves _ _).2.1 _ lenient).2 "LegRatio" ["Other"] rfl
  · exact (resolves _ _).2.2 _ loops
  · have compiled : (Spec.compile Spec.echoes ⟨some 100, true⟩).outcome.isOk = true := by cbv
    cases hs : (Spec.compile Spec.echoes ⟨some 100, true⟩).outcome with
    | error => simp [hs, Except.isOk, Except.toBool] at compiled
    | ok s => exact ⟨s, rfl, compiles _ _ s hs⟩

end FixTables
