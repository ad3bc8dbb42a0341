import FixTables.Proofs.Outcome
import FixTables.Proofs.References

namespace FixTables

/-- Whether a member is required after the references that led to it: it says so itself, and so
does each of the references that says anything. -/
def Member.RequiredThrough (refs : List Member) (m : Member) : Prop :=
  m.required ∧ ∀ ref ∈ refs, ref.requiredDeclared → ref.required

instance (refs : List Member) (m : Member) : Decidable (m.RequiredThrough refs) :=
  inferInstanceAs (Decidable (_ ∧ _))

namespace Resolver

/-- A resolver looks into the members of a group whose own name is known. -/
def Enters (r : Resolver) (m : Member) : Prop :=
  m.kind = .group ∧ ∃ f, r.fields.lookup m.name = some f

/-- A member is known if the registry for its kind has its name. -/
def Known (r : Resolver) (m : Member) : Prop :=
  if m.kind = .component then ∃ c, r.components.lookup m.name = some c
  else ∃ f, r.fields.lookup m.name = some f

/-- A strict resolver takes known members only. -/
def Takes (r : Resolver) (m : Member) : Prop := r.strict = true → r.Known m

/-- The unfolding of members in place. `refs` holds the references to components that led here from
the nearest group or from the top, the innermost first. -/
inductive Unfolds (r : Resolver) : List Member → List Member → List Resolved → Prop
  | nil {refs : List Member} : Unfolds r refs [] []
  | field {refs ms : List Member} {m : Member} {f : Field} {out : List Resolved} :
      m.kind = .field → r.fields.lookup m.name = some f → Unfolds r refs ms out →
      Unfolds r refs (m :: ms) (.field f.tag f.name (decide (m.RequiredThrough refs)) :: out)
  | group {refs ms : List Member} {m : Member} {f : Field} {entry out : List Resolved} :
      m.kind = .group → r.fields.lookup m.name = some f →
      Unfolds r [] m.children entry → Unfolds r refs ms out →
      Unfolds r refs (m :: ms)
        (.group f.tag f.name (decide (m.RequiredThrough refs)) entry :: out)
  | component {refs ms : List Member} {m : Member} {c : Component} {inner out : List Resolved} :
      m.kind = .component → r.components.lookup m.name = some c →
      Unfolds r (m :: refs) c.members inner → Unfolds r refs ms out →
      Unfolds r refs (m :: ms) (inner ++ out)
  | unknown {refs ms : List Member} {m : Member} {out : List Resolved} :
      r.strict = false → ¬ r.Known m → Unfolds r refs ms out →
      Unfolds r refs (m :: ms) (.unresolved m.name :: out)

variable {r : Resolver} {refs ms : List Member} {m : Member}

theorem known_of_field {f : Field} (hk : m.kind ≠ .component)
    (hf : r.fields.lookup m.name = some f) : r.Known m := by
  simp [Known, hk, hf]

theorem known_of_component {c : Component} (hk : m.kind = .component)
    (hc : r.components.lookup m.name = some c) : r.Known m := by
  simp [Known, hk, hc]

/-- The cap that expansion hands down is what the references on the way leave of requiredness. -/
def CapAgrees (cap : Option Bool) (refs : List Member) : Prop :=
  cap.getD true = true ↔ ∀ ref ∈ refs, ref.requiredDeclared → ref.required

theorem capAgrees_none : CapAgrees none [] := by
  simp [CapAgrees]

theorem CapAgrees.requiredUnder {cap : Option Bool} (h : CapAgrees cap refs) (m : Member) :
    requiredUnder cap m = decide (m.RequiredThrough refs) := by
  unfold CapAgrees at h
  rw [Bool.eq_iff_iff, decide_eq_true_iff, Resolver.requiredUnder, Bool.and_eq_true, h]
  rfl

theorem CapAgrees.innerCap {cap : Option Bool} (h : CapAgrees cap refs) (m : Member) :
    CapAgrees (innerCap cap m) (m :: refs) := by
  unfold CapAgrees at h ⊢
  cases hd : m.requiredDeclared <;> simp [Resolver.innerCap, Resolver.requiredUnder, hd, h]

/-- What becomes of an unknown member is its placeholder, and only leniently. -/
theorem unknown_eq_ok_iff {context : String} {out : List Resolved} :
    (r.unknown context m).outcome = .ok out ↔ r.strict = false ∧ out = [.unresolved m.name] := by
  unfold unknown
  cases hs : r.strict with
  | false =>
    simp only [Bool.false_eq_true, if_false, Traced.bind_eq_ok_iff]
    simp [eq_comm]
  | true => simp

section Expansion

variable {context : String} {cap : Option Bool} {path : List String} {out : List Resolved}

theorem expand_nil_eq_ok_iff :
    (r.expand context cap path []).outcome = .ok out ↔ out = [] := by
  rw [expand]
  simp [eq_comm]

theorem expand_cons_eq_ok_iff :
    (r.expand context cap path (m :: ms)).outcome = .ok out ↔
      ∃ first rest, (r.expandMember context cap path m).outcome = .ok first ∧
        (r.expand context cap path ms).outcome = .ok rest ∧ out = first ++ rest := by
  rw [expand]
  simp only [Traced.bind_eq_ok_iff, Traced.pure_outcome, Except.ok.injEq]
  constructor
  · rintro ⟨first, hf, rest, hr, rfl⟩
    exact ⟨first, rest, hf, hr, rfl⟩
  · rintro ⟨first, rest, hf, hr, rfl⟩
    exact ⟨first, hf, rest, hr, rfl⟩

theorem expandMember_of_field {f : Field} (hk : m.kind = .field)
    (hf : r.fields.lookup m.name = some f) :
    r.expandMember context cap path m = pure [.field f.tag f.name (requiredUnder cap m)] := by
  rw [expandMember, hk]
  simp [hf]

theorem expandMember_of_group_eq_ok_iff {f : Field} (hk : m.kind = .group)
    (hf : r.fields.lookup m.name = some f) :
    (r.expandMember context cap path m).outcome = .ok out ↔
      ∃ entry, (r.expand context none path m.children).outcome = .ok entry ∧
        out = [.group f.tag f.name (requiredUnder cap m) entry] := by
  rw [expandMember, hk]
  simp only [hf, Traced.bind_eq_ok_iff, Traced.pure_outcome, Except.ok.injEq,
    eq_comm (b := out)]

theorem expandMember_of_component {c : Component} (hk : m.kind = .component)
    (hc : r.components.lookup m.name = some c) :
    r.expandMember context cap path m =
      if c.name ∈ path then .fail (.cyclicReference (path ++ [c.name]))
      else r.expand context (innerCap cap m) (path ++ [c.name]) c.members := by
  rw [expandMember, hk]
  simp only
  split
  next d hd =>
    obtain rfl := Option.some.inj (hd.symm.trans hc)
    rfl
  next hn => simp [hn] at hc

theorem expandMember_of_not_known (h : ¬ r.Known m) :
    r.expandMember context cap path m = r.unknown context m := by
  rw [expandMember]
  cases hk : m.kind <;> simp only [Known, hk] at h ⊢ <;> split <;> simp_all

/-- Whatever expansion gives is an unfolding. -/
theorem unfolds_of_expand (h : (r.expand context cap path ms).outcome = .ok out)
    (hcap : CapAgrees cap refs) : r.Unfolds refs ms out := by
  induction path, ms using r.components.walk_induction generalizing cap refs out with
  | nil path =>
    obtain rfl := expand_nil_eq_ok_iff.mp h
    exact .nil
  | cons path m ms nested through rest =>
    obtain ⟨first, others, hf, ho, rfl⟩ := expand_cons_eq_ok_iff.mp h
    have hu := rest ho hcap
    by_cases known : r.Known m
    · cases hk : m.kind with
      | field =>
        obtain ⟨f, hl⟩ := by simpa [Known, hk] using known
        rw [expandMember_of_field hk hl] at hf
        obtain rfl := Except.ok.inj hf
        rw [hcap.requiredUnder]
        exact .field hk hl hu
      | group =>
        obtain ⟨f, hl⟩ := by simpa [Known, hk] using known
        obtain ⟨entry, he, rfl⟩ := (expandMember_of_group_eq_ok_iff hk hl).mp hf
        rw [hcap.requiredUnder]
        -- An entry starts afresh, whatever led to its group.
        exact .group hk hl (nested he capAgrees_none) hu
      | component =>
        obtain ⟨c, hc⟩ := by simpa [Known, hk] using known
        rw [expandMember_of_component hk hc] at hf
        split at hf
        next => simp at hf
        next hp => exact .component hk hc (through c hc hp hf (hcap.innerCap m)) hu
    · rw [expandMember_of_not_known known] at hf
      obtain ⟨hs, rfl⟩ := unknown_eq_ok_iff.mp hf
      exact .unknown hs known hu

end Expansion

theorem Unfolds.unique {out out' : List Resolved} (h : r.Unfolds refs ms out)
    (h' : r.Unfolds refs ms out') : out = out' := by
  induction h generalizing out' with
  | nil =>
    cases h'
    rfl
  | field hk hf _ ih =>
    cases h' with
    | field _ hf' hu =>
      obtain rfl := Option.some.inj (hf.symm.trans hf')
      rw [ih hu]
    | group hk' => simp [hk] at hk'
    | component hk' => simp [hk] at hk'
    | unknown _ hn => exact absurd (known_of_field (by simp [hk]) hf) hn
  | group hk hf _ _ ihe ih =>
    cases h' with
    | field hk' => simp [hk] at hk'
    | group _ hf' he hu =>
      obtain rfl := Option.some.inj (hf.symm.trans hf')
      rw [ihe he, ih hu]
    | component hk' => simp [hk] at hk'
    | unknown _ hn => exact absurd (known_of_field (by simp [hk]) hf) hn
  | component hk hc _ _ ihe ih =>
    cases h' with
    | field hk' => simp [hk] at hk'
    | group hk' => simp [hk] at hk'
    | component _ hc' he hu =>
      obtain rfl := Option.some.inj (hc.symm.trans hc')
      rw [ihe he, ih hu]
    | unknown _ hn => exact absurd (known_of_component hk hc) hn
  | unknown _ hn _ ih =>
    cases h' with
    | field hk' hf' => exact absurd (known_of_field (by simp [hk']) hf') hn
    | group hk' hf' => exact absurd (known_of_field (by simp [hk']) hf') hn
    | component hk' hc' => exact absurd (known_of_component hk' hc') hn
    | unknown _ _ hu => rw [ih hu]

/-- What unfolds leads into no cycle of components and, strictly, to known members only. -/
theorem Unfolds.clear {out : List Resolved} (h : r.Unfolds refs ms out) :
    r.components.ClearFrom r.Enters r.Takes ms := by
  induction h with
  | nil => exact ComponentRegistry.clearFrom_nil
  | field hk hf _ ih =>
    refine ComponentRegistry.clearFrom_cons_iff.mpr ⟨?_, ih⟩
    refine ComponentRegistry.clearFrom_singleton_iff.mpr ⟨?_, ?_, ?_⟩
    · exact fun _ => known_of_field (by simp [hk]) hf
    · simp [Enters, hk]
    · simp [hk]
  | group hk hf _ _ inner ih =>
    refine ComponentRegistry.clearFrom_cons_iff.mpr ⟨?_, ih⟩
    refine ComponentRegistry.clearFrom_singleton_iff.mpr ⟨?_, fun _ => inner, ?_⟩
    · exact fun _ => known_of_field (by simp [hk]) hf
    · simp [hk]
  | component hk hc _ _ inner ih =>
    refine ComponentRegistry.clearFrom_cons_iff.mpr ⟨?_, ih⟩
    refine ComponentRegistry.clearFrom_singleton_iff.mpr ⟨?_, ?_, ?_⟩
    · exact fun _ => known_of_component hk hc
    · simp [Enters, hk]
    · intro d _ hd
      obtain rfl := Option.some.inj (hc.symm.trans hd)
      exact inner
  | unknown lenient hn _ ih =>
    refine ComponentRegistry.clearFrom_cons_iff.mpr ⟨?_, ih⟩
    refine ComponentRegistry.clearFrom_singleton_iff.mpr ⟨?_, ?_, ?_⟩
    · intro hs
      simp [hs] at lenient
    · rintro ⟨hk, f, hf⟩
      exact absurd (known_of_field (by simp [hk]) hf) hn
    · intro c hk hc
      exact absurd (known_of_component hk hc) hn

/-- Expansion goes through where no cycle lies ahead and, if it is strict, all names are known. -/
theorem expand_eq_ok_of_clear {context : String} {cap : Option Bool} {path : List String}
    (hp : r.components.PathTo r.Enters path ms) (clear : r.components.ClearFrom r.Enters r.Takes ms) :
    ∃ out, (r.expand context cap path ms).outcome = .ok out := by
  induction path, ms using r.components.walk_induction generalizing cap with
  | nil path => exact ⟨[], expand_nil_eq_ok_iff.mpr rfl⟩
  | cons path m ms nested through rest =>
    have first := hp.of_meets fun x hx => ComponentRegistry.meets_cons_iff.mpr (.inl hx)
    have later := hp.of_meets fun x hx => ComponentRegistry.meets_cons_iff.mpr (.inr hx)
    obtain ⟨clearFirst, clearLater⟩ := ComponentRegistry.clearFrom_cons_iff.mp clear
    obtain ⟨others, ho⟩ : ∃ out, (r.expand context cap path ms).outcome = .ok out :=
      rest later clearLater
    suffices ∃ first, (r.expandMember context cap path m).outcome = .ok first by
      obtain ⟨first, hf⟩ := this
      exact ⟨first ++ others, expand_cons_eq_ok_iff.mpr ⟨first, others, hf, ho, rfl⟩⟩
    obtain ⟨takes, inside, beyond⟩ := ComponentRegistry.clearFrom_singleton_iff.mp clearFirst
    by_cases hkn : r.Known m
    · cases hk : m.kind with
      | field =>
        obtain ⟨f, hl⟩ := by simpa [Known, hk] using hkn
        rw [expandMember_of_field hk hl]
        exact ⟨_, rfl⟩
      | group =>
        obtain ⟨f, hl⟩ := by simpa [Known, hk] using hkn
        have enters : r.Enters m := ⟨hk, f, hl⟩
        obtain ⟨entry, he⟩ : ∃ out, (r.expand context none path m.children).outcome = .ok out :=
          nested (first.of_meets fun x hx => .nested (by simp) enters hx) (inside enters)
        exact ⟨_, (expandMember_of_group_eq_ok_iff hk hl).mpr ⟨entry, he, rfl⟩⟩
      | component =>
        obtain ⟨c, hc⟩ := by simpa [Known, hk] using hkn
        -- A component already on the path would come back to itself.
        have fresh := first.not_mem clearFirst.2 hk hc
        rw [expandMember_of_component hk hc, if_neg fresh]
        exact through c hc fresh (first.into hk hc) (beyond c hk hc)
    · rw [expandMember_of_not_known hkn]
      have lenient : r.strict = false := by
        rw [← Bool.not_eq_true]
        exact fun hs => hkn (takes hs)
      exact ⟨_, unknown_eq_ok_iff.mpr ⟨lenient, rfl⟩⟩

theorem unfolds_of_resolve {context : String} {out : List Resolved}
    (h : (r.resolve ms context).outcome = .ok out) : r.Unfolds [] ms out :=
  unfolds_of_expand h capAgrees_none

/-- Members resolve exactly if no cycle lies ahead of them and, strictly, all names are known. -/
theorem resolve_succeeds_iff (context : String) :
    (∃ out, (r.resolve ms context).outcome = .ok out) ↔
      r.components.ClearFrom r.Enters r.Takes ms := by
  constructor
  · rintro ⟨out, h⟩
    exact (unfolds_of_resolve h).clear
  · exact expand_eq_ok_of_clear ComponentRegistry.pathTo_nil

theorem Unfolds.resolve_eq_ok {out : List Resolved} (h : r.Unfolds [] ms out) (context : String) :
    (r.resolve ms context).outcome = .ok out := by
  obtain ⟨out', ho⟩ := (resolve_succeeds_iff context).mpr h.clear
  rwa [h.unique (unfolds_of_resolve ho)]

/-- Resolution is unfolding in place: it gives the one list that the members unfold to. -/
theorem resolve_eq_ok_iff_unfolds (r : Resolver) (members : List Member) (context : String)
    (out : List Resolved) :
    (r.resolve members context).outcome = .ok out ↔ r.Unfolds [] members out :=
  ⟨unfolds_of_resolve, fun h => h.resolve_eq_ok context⟩

/-- The optional reference caps what the silent one inside it brings, but not the group's entries. -/
example :
    let symbol := Member.field "Symbol" true
    let silent := { Member.component "Inner" false with requiredDeclared := false }
    let fields : List Field := [.plain 55 "Symbol" .string, .plain 453 "NoParties" .numInGroup]
    let components : List Component :=
      [⟨"Outer", [silent]⟩, ⟨"Inner", [symbol, .group "NoParties" true [symbol]]⟩]
    (Resolver.resolve ⟨⟨fields⟩, ⟨components⟩, true⟩ [.component "Outer" false] "message").outcome =
      .ok [.field 55 "Symbol" false, .group 453 "NoParties" false [.field 55 "Symbol" true]] := by
  cbv

end Resolver

end FixTables
