import Mathlib
import FixTables.Proofs.IncrementalPairing
import FixTables.Proofs.MessageLookup

namespace FixTables

/-- A look-up leads from each key to the one listed element that has it, and nowhere from others. -/
structure Indexes {κ α : Type} (lookup : κ → Option α) (key : α → κ) (listing : List α) : Prop where
  distinct : (listing.map key).Nodup
  found_iff : ∀ k a, lookup k = some a ↔ a ∈ listing ∧ key a = k

theorem Indexes.lookup_key {κ α : Type} {lookup : κ → Option α} {key : α → κ} {listing : List α}
    (h : Indexes lookup key listing) {a : α} (ha : a ∈ listing) : lookup (key a) = some a :=
  (h.found_iff (key a) a).mpr ⟨ha, rfl⟩

theorem indexes_find? {κ α : Type} [DecidableEq κ] {key : α → κ} {listing : List α}
    (distinct : (listing.map key).Nodup) :
    Indexes (fun k => listing.find? fun a => decide (key a = k)) key listing :=
  ⟨distinct, fun _ _ => find?_key_eq_some_iff distinct⟩

theorem nodup_map_concat {κ α : Type} {key : α → κ} {listing : List α} {a : α}
    (distinct : (listing.map key).Nodup) (fresh : ∀ b ∈ listing, key b ≠ key a) :
    ((listing ++ [a]).map key).Nodup := by
  rw [List.map_append, List.map_singleton, List.nodup_append]
  exact ⟨distinct, by simp, by simpa using fresh⟩

section Runs

variable {σ κ α ε : Type} (act : σ → κ → Except ε σ) (offers : κ → Option α)

/-- A state after a call; one that fails changes nothing. -/
def attempt (s : σ) (call : κ) : σ := (act s call).toOption.getD s

/-- The elements that calls register one after another; `offers` tells which element a call
registers if it succeeds. -/
def accepted : σ → List κ → List α
  | _, [] => []
  | s, call :: calls =>
    match act s call with
    | .ok next => (offers call).toList ++ accepted next calls
    | .error _ => accepted s calls

variable {act offers}

theorem attempt_of_error {s : σ} {call : κ} {e : ε} (h : act s call = .error e) :
    attempt act s call = s := by
  simp [attempt, h, Except.toOption]

theorem attempt_of_ok {s next : σ} {call : κ} (h : act s call = .ok next) :
    attempt act s call = next := by
  simp [attempt, h, Except.toOption]

variable (act offers) in
/-- What each successful call keeps of a state and the elements registered up to it holds after
every run. -/
theorem holds_after {Inv : List α → σ → Prop} {s : σ} (start : Inv [] s)
    (step : ∀ {before s call next}, Inv before s → act s call = .ok next →
      Inv (before ++ (offers call).toList) next) (calls : List κ) :
    Inv (accepted act offers s calls) (calls.foldl (attempt act) s) := by
  have run {before : List α} (h : Inv before s) :
      Inv (before ++ accepted act offers s calls) (calls.foldl (attempt act) s) := by
    clear start
    induction calls generalizing before s with
    | nil => simpa [accepted] using h
    | cons call calls ih =>
      rw [List.foldl_cons, accepted]
      cases hc : act s call with
      | error e =>
        rw [attempt_of_error hc]
        exact ih h
      | ok next =>
        rw [attempt_of_ok hc, ← List.append_assoc]
        exact ih (step h hc)
  exact run start

end Runs

/-- A field as another one, but for where it was moved and what it was paired with. -/
def Field.Revises (f g : Field) : Prop := f = { g with location := f.location, related := f.related }

namespace Field.Revises

variable {f g k : Field}

theorem refl (f : Field) : f.Revises f := rfl

theorem name_eq (h : f.Revises g) : f.name = g.name := by
  rw [h]

theorem tag_eq (h : f.Revises g) : f.tag = g.tag := by
  rw [h]

theorem trans (h : f.Revises g) (h' : g.Revises k) : f.Revises k := by
  unfold Field.Revises at h' ⊢
  rw [h, h']

end Field.Revises

namespace FieldRegistry

/-- What can be asked of a registry of fields. -/
inductive Call
  | register (f : Field)
  | registerNode (n : Node)
  | pairLengths
  | setLocation (name : String) (location : Location)

/-- The field that a call registers if it succeeds. -/
def Call.field? : Call → Option Field
  | register f => some f
  | registerNode n => (Field.ofNode n).toOption
  | pairLengths | setLocation .. => none

/-- Carries out a call; one to move a field that is not there does nothing. -/
def perform (r : FieldRegistry) : Call → Except SchemaError FieldRegistry
  | .register f => (r.register f).outcome
  | .registerNode n => (r.registerNode n).outcome
  | .pairLengths => r.pairLengths.outcome
  | .setLocation name location => .ok ((r.setLocation name location).getD r)

/-- A registry that holds the registered fields, told apart by their names and by their tags. -/
structure Lists (registered : List Field) (r : FieldRegistry) : Prop where
  revised : List.Forall₂ Field.Revises r.fields registered
  names_distinct : (r.fields.map (·.name)).Nodup
  tags_distinct : (r.fields.map (·.tag)).Nodup

variable {r next : FieldRegistry} {registered : List Field} {call : Call}

theorem lists_empty : empty.Lists [] :=
  ⟨.nil, .nil, .nil⟩

theorem Lists.revise {change : Field → Field} (h : r.Lists registered)
    (fields : next.fields = r.fields.map change) (revises : ∀ f, (change f).Revises f) :
    next.Lists registered where
  revised := by
    rw [fields, List.forall₂_map_left_iff]
    exact h.revised.imp fun f _ hf => (revises f).trans hf
  names_distinct := by
    simpa [fields, Function.comp_def, (revises _).name_eq] using h.names_distinct
  tags_distinct := by
    simpa [fields, Function.comp_def, (revises _).tag_eq] using h.tags_distinct

theorem Lists.register {f : Field} (h : r.Lists registered)
    (hr : (r.register f).outcome = .ok next) : next.Lists (registered ++ [f]) := by
  obtain ⟨fresh, rfl⟩ := (register_eq_ok_iff r.fields f next).mp hr
  simp only [not_or, forall_and] at fresh
  obtain ⟨names, tags⟩ := fresh
  exact ⟨List.rel_append h.revised (.cons (.refl f) .nil), nodup_map_concat h.names_distinct names,
    nodup_map_concat h.tags_distinct tags⟩

theorem registerNode_eq_ok_iff {n : Node} :
    (r.registerNode n).outcome = .ok next ↔
      ∃ f, Field.ofNode n = .ok f ∧ (r.register f).outcome = .ok next := by
  rw [registerNode, Traced.bind_eq_ok_iff]
  rfl

theorem pairLengths_fields (r : FieldRegistry) : (attempt perform r .pairLengths).fields =
    r.fields.map fun f => r.lengthPairs.foldl Field.relatedBy f :=
  foldl_relate_fields r r.lengthPairs

/-- Every field with the name is moved, and where there is none nothing is. -/
theorem setLocation_fields (r : FieldRegistry) (name : String) (location : Location) :
    (attempt perform r (.setLocation name location)).fields =
      r.fields.map fun f => if f.name = name then { f with location } else f := by
  show ((r.setLocation name location).getD r).fields = _
  unfold setLocation
  split
  next => rfl
  next absent =>
    have other : ∀ f ∈ r.fields, f.name ≠ name := by simpa using absent
    rw [List.map_congr_left fun f hf => if_neg (other f hf)]
    exact (List.map_id' r.fields).symm

theorem Lists.perform (h : r.Lists registered) (hp : r.perform call = .ok next) :
    next.Lists (registered ++ call.field?.toList) := by
  cases call with
  | register f => exact h.register hp
  | registerNode n =>
    obtain ⟨f, hf, hr⟩ := registerNode_eq_ok_iff.mp hp
    simpa [Call.field?, hf, Except.toOption] using h.register hr
  | pairLengths =>
    have fields := r.pairLengths_fields
    rw [attempt_of_ok hp] at fields
    rw [Call.field?, Option.toList_none, List.append_nil]
    refine h.revise fields fun f => ?_
    rw [Field.foldl_relatedBy_eq]
    rfl
  | setLocation name location =>
    have fields := r.setLocation_fields name location
    rw [attempt_of_ok hp] at fields
    rw [Call.field?, Option.toList_none, List.append_nil]
    refine h.revise fields fun f => ?_
    split <;> rfl

theorem lists_after (calls : List Call) :
    Lists (accepted perform Call.field? empty calls) (calls.foldl (attempt perform) empty) :=
  holds_after perform Call.field? lists_empty Lists.perform calls

/-- A registry whose look-ups, listing and sorted listing are of the same fields, each found by
its name and by its tag. -/
structure Sound (r : FieldRegistry) : Prop where
  by_name : Indexes r.lookup (·.name) r.fields
  by_tag : Indexes r.lookupTag (·.tag) r.fields
  both_keys : ∀ f ∈ r.fields, r.lookup f.name = some f ∧ r.lookupTag f.tag = some f
  ascending : r.sortedByTag.Pairwise fun f g => f.tag < g.tag
  sorted : r.sortedByTag.Perm r.fields

theorem Lists.sound (h : r.Lists registered) : r.Sound := by
  have by_name : Indexes r.lookup (·.name) r.fields := indexes_find? h.names_distinct
  have by_tag : Indexes r.lookupTag (·.tag) r.fields := indexes_find? h.tags_distinct
  exact ⟨by_name, by_tag, fun f hf => ⟨by_name.lookup_key hf, by_tag.lookup_key hf⟩,
    pairwise_mergeSort_key_lt (fun _ _ => decide_eq_true_iff) h.tags_distinct,
    List.mergeSort_perm _ _⟩

/-- What each call does to a registry: only a registration that finds both keys free adds a field,
and otherwise changes nothing. -/
structure Responds (r : FieldRegistry) : Prop where
  refused : ∀ call e, r.perform call = .error e → attempt perform r call = r
  register_iff : ∀ f next, (r.register f).outcome = .ok next ↔
    r.lookup f.name = none ∧ r.lookupTag f.tag = none ∧ next.fields = r.fields ++ [f]
  registerNode_iff : ∀ n next, (r.registerNode n).outcome = .ok next ↔
    ∃ f, Field.ofNode n = .ok f ∧ (r.register f).outcome = .ok next
  paired : List.Forall₂ (fun f f' => f' = { f with related := f'.related }) r.fields
    (attempt perform r .pairLengths).fields
  moved : ∀ name location, (attempt perform r (.setLocation name location)).fields =
    r.fields.map fun f => if f.name = name then { f with location } else f

theorem responds (r : FieldRegistry) : r.Responds where
  refused _ _ := attempt_of_error
  register_iff f next := by
    have same (fields : List Field) : next = ⟨fields⟩ ↔ next.fields = fields := by
      cases next
      simp
    rw [register_eq_ok_iff r.fields f next, same]
    simp [lookup, lookupTag, forall_and, and_assoc]
  registerNode_iff _ _ := registerNode_eq_ok_iff
  paired := by
    rw [pairLengths_fields, List.forall₂_map_right_iff, List.forall₂_same]
    exact fun f _ => f.foldl_relatedBy_eq r.lengthPairs
  moved := r.setLocation_fields

end FieldRegistry

namespace ComponentRegistry

/-- What can be asked of a registry of components. -/
inductive Call
  | register (c : Component)
  | registerNode (n : Node)

/-- The component that a call registers if it succeeds. -/
def Call.component? : Call → Option Component
  | register c => some c
  | registerNode n => (Component.ofNode n).toOption

def perform (r : ComponentRegistry) : Call → Except SchemaError ComponentRegistry
  | .register c => (r.register c).outcome
  | .registerNode n => (r.registerNode n).outcome

variable {r next : ComponentRegistry} {registered : List Component} {call : Call}

theorem perform_eq_ok_iff : r.perform call = .ok next ↔
    ∃ c, call.component? = some c ∧ r.lookup c.name = none ∧
      next.components = r.components ++ [c] := by
  have register_iff (c : Component) : (r.register c).outcome = .ok next ↔
      r.lookup c.name = none ∧ next.components = r.components ++ [c] := by
    have same (components : List Component) :
        next = ⟨components⟩ ↔ next.components = components := by
      cases next
      simp
    rw [register_eq_ok_iff r.components c next, same]
    simp [lookup]
  cases call with
  | register c => simp [perform, Call.component?, register_iff]
  | registerNode n =>
    rw [perform, registerNode, Traced.bind_eq_ok_iff, Call.component?, Traced.ofExcept_outcome]
    cases Component.ofNode n <;> simp [Except.toOption, register_iff]

/-- A registry that holds the registered components, told apart by their names. -/
structure Lists (registered : List Component) (r : ComponentRegistry) : Prop where
  listed : r.components = registered
  names_distinct : (registered.map (·.name)).Nodup

theorem Lists.perform (h : r.Lists registered) (hp : r.perform call = .ok next) :
    next.Lists (registered ++ call.component?.toList) := by
  obtain ⟨c, hc, fresh, listed⟩ := perform_eq_ok_iff.mp hp
  obtain ⟨rfl, distinct⟩ := h
  rw [hc, Option.toList_some]
  exact ⟨listed, nodup_map_concat distinct (by simpa [lookup] using fresh)⟩

theorem lists_after (calls : List Call) :
    Lists (accepted perform Call.component? empty calls) (calls.foldl (attempt perform) empty) :=
  holds_after perform Call.component? (s := empty) ⟨rfl, .nil⟩ Lists.perform calls

end ComponentRegistry

namespace MessageRegistry

/-- What can be asked of a registry of messages. -/
inductive Call
  | register (m : Message)
  | registerNode (header trailer : List Member) (n : Node)

/-- The message that a call registers if it succeeds. -/
def Call.message? : Call → Option Message
  | register m => some m
  | registerNode header trailer n => (Message.ofNode header trailer n).toOption

def perform (r : MessageRegistry) : Call → Except SchemaError MessageRegistry
  | .register m => (r.register m).outcome
  | .registerNode header trailer n => (r.registerNode header trailer n).outcome

variable {r next : MessageRegistry} {registered : List Message} {call : Call}

theorem perform_eq_ok_iff : r.perform call = .ok next ↔
    ∃ m, call.message? = some m ∧ r.lookup m.msgType = none ∧ r.lookupName m.name = none ∧
      next.messages = r.messages ++ [m] := by
  have register_iff (m : Message) : (r.register m).outcome = .ok next ↔
      r.lookup m.msgType = none ∧ r.lookupName m.name = none ∧
        next.messages = r.messages ++ [m] := by
    have same (messages : List Message) : next = ⟨messages⟩ ↔ next.messages = messages := by
      cases next
      simp
    rw [register_eq_ok_iff r.messages m next, same]
    simp [lookup, lookupName, forall_and, and_assoc]
  cases call with
  | register m => simp [perform, Call.message?, register_iff]
  | registerNode header trailer n =>
    rw [perform, registerNode, Traced.bind_eq_ok_iff, Call.message?, Traced.ofExcept_outcome]
    cases Message.ofNode header trailer n <;> simp [Except.toOption, register_iff]

/-- A registry that holds the registered messages, told apart by their types and by their names. -/
structure Lists (registered : List Message) (r : MessageRegistry) : Prop where
  listed : r.messages = registered
  types_distinct : (registered.map (·.msgType)).Nodup
  names_distinct : (registered.map (·.name)).Nodup

theorem Lists.perform (h : r.Lists registered) (hp : r.perform call = .ok next) :
    next.Lists (registered ++ call.message?.toList) := by
  obtain ⟨m, hm, freshType, freshName, listed⟩ := perform_eq_ok_iff.mp hp
  obtain ⟨rfl, types, names⟩ := h
  rw [hm, Option.toList_some]
  exact ⟨listed, nodup_map_concat types (by simpa [lookup] using freshType),
    nodup_map_concat names (by simpa [lookupName] using freshName)⟩

theorem lists_after (calls : List Call) :
    Lists (accepted perform Call.message? empty calls) (calls.foldl (attempt perform) empty) :=
  holds_after perform Call.message? (s := empty) ⟨rfl, .nil, .nil⟩ Lists.perform calls

end MessageRegistry

end FixTables
