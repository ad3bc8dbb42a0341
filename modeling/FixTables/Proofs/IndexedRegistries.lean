import Mathlib
import FixTables.Proofs.RegistryRuns

namespace FixTables

section Places

variable {κ α : Type} [DecidableEq κ] [Hashable κ] {key : α → κ} {listing listing' : List α}
  {places : Std.HashMap κ Nat} {k : κ} {i : Nat} {a : α}

/-- A table that tells of each key at which place of a listing it stands, and of no other key. -/
def InStep (key : α → κ) (listing : List α) (places : Std.HashMap κ Nat) : Prop :=
  ∀ (k : κ) (i : Nat), places[k]? = some i ↔ (listing.map key)[i]? = some k

theorem inStep_empty (key : α → κ) : InStep key [] ∅ := by
  intro k i
  simp

theorem InStep.of_keys (h : InStep key listing places)
    (same : listing'.map key = listing.map key) : InStep key listing' places := by
  intro k i
  rw [same]
  exact h k i

/-- A new element at the end stands at the place that the length of the listing tells. -/
theorem InStep.concat (h : InStep key listing places) (fresh : places[key a]? = none) :
    InStep key (listing ++ [a]) (places.insert (key a) listing.length) := by
  have absent (i : Nat) : (listing.map key)[i]? ≠ some (key a) := by
    intro hi
    simpa [fresh] using (h (key a) i).mpr hi
  intro k i
  rw [Std.HashMap.getElem?_insert, List.map_append, List.map_singleton, List.getElem?_append]
  by_cases hk : key a = k
  · subst hk
    simp only [beq_self_eq_true, ite_true, Option.some.injEq, List.length_map]
    split
    next inside => exact iff_of_false inside.ne' (absent i)
    next outside =>
      rw [List.getElem?_singleton]
      simp
      omega
  · simp only [beq_false_of_ne hk, Bool.false_eq_true, ite_false, h k i, List.length_map]
    split
    next => rfl
    next outside =>
      rw [List.getElem?_eq_none (by simpa using outside), List.getElem?_singleton]
      simp [hk]

theorem InStep.place_eq (h : InStep key listing places) (k : κ) :
    places[k]? = listing.findIdx? fun a => decide (key a = k) := by
  cases hf : listing.findIdx? fun a => decide (key a = k) with
  | some i =>
    obtain ⟨hi, found, -⟩ := List.findIdx?_eq_some_iff_getElem.mp hf
    exact (h k i).mpr (by simpa [hi] using found)
  | none =>
    rw [List.findIdx?_eq_none_iff] at hf
    refine Option.eq_none_iff_forall_ne_some.mpr fun i hi => ?_
    obtain ⟨a, ha, hk⟩ := List.mem_map.mp (List.mem_of_getElem? ((h k i).mp hi))
    simpa [hk] using hf a ha

/-- Where a table tells the place of a key, the element found there is the one with the key. -/
theorem InStep.find?_eq (h : InStep key listing places) (k : κ) :
    places[k]?.bind (listing[·]?) = listing.find? fun a => decide (key a = k) := by
  rw [h.place_eq, List.find?_eq_bind_findIdx?_getElem?]

theorem InStep.place_eq_none_iff (h : InStep key listing places) (k : κ) :
    places[k]? = none ↔ (listing.find? fun a => decide (key a = k)) = none := by
  rw [h.place_eq, List.findIdx?_eq_none_iff, List.find?_eq_none]
  simp

theorem InStep.contains_eq (h : InStep key listing places) (k : κ) :
    places.contains k = (listing.find? fun a => decide (key a = k)).isSome := by
  rw [Std.HashMap.contains_eq_isSome_getElem?, Bool.eq_iff_iff, ← not_iff_not]
  simpa using h.place_eq_none_iff k

/-- Changing the element at the place of a key changes the elements that have the key. -/
theorem InStep.modify_eq_map (h : InStep key listing places) (hk : places[k]? = some i)
    (change : α → α) :
    listing.modify i change = listing.map fun a => if key a = k then change a else a := by
  refine List.ext_getElem? fun j => ?_
  rw [List.getElem?_modify, List.getElem?_map]
  cases hj : listing[j]? with
  | none => rfl
  | some a =>
    have place : key a = k ↔ i = j := by
      constructor
      · rintro rfl
        have there : places[key a]? = some j := (h _ j).mpr (by simp [hj])
        simpa [hk] using there
      · rintro rfl
        simpa [hj] using (h k i).mp hk
    simp [place]

end Places

section Reading

variable {ι ε α : Type} {register : ι → α → Except ε Unit × ι} {x : ι} {e : ε}

/-- Registers what is read, if it can be read. -/
def registerRead (register : ι → α → Except ε Unit × ι) (x : ι) :
    Except ε α → Except ε Unit × ι
  | .error e => (.error e, x)
  | .ok a => register x a

theorem registerRead_refused
    (refused : ∀ {a}, (register x a).1 = .error e → (register x a).2 = x) {read : Except ε α}
    (h : (registerRead register x read).1 = .error e) : (registerRead register x read).2 = x := by
  cases read with
  | error e => rfl
  | ok a => exact refused h

end Reading

/-- A registry of fields with a table for each key of theirs. -/
structure IndexedFields where
  fields : List Field
  byName : Std.HashMap String Nat
  byTag : Std.HashMap Nat Nat

namespace IndexedFields

def empty : IndexedFields := ⟨[], ∅, ∅⟩

def lookup (x : IndexedFields) (name : String) : Option Field :=
  x.byName[name]?.bind (x.fields[·]?)

def lookupTag (x : IndexedFields) (tag : Nat) : Option Field := x.byTag[tag]?.bind (x.fields[·]?)

/-- Adds a field whose keys no table has; it is entered in both tables and listed then. -/
def register (x : IndexedFields) (f : Field) : Except SchemaError Unit × IndexedFields :=
  if x.byName.contains f.name then (.error (.duplicateName "field" f.name), x)
  else
    match x.lookupTag f.tag with
    | some existing => (.error (.duplicateTag f.tag f.name existing.name), x)
    | none =>
      (.ok (), ⟨x.fields ++ [f], x.byName.insert f.name x.fields.length,
        x.byTag.insert f.tag x.fields.length⟩)

/-- Carries out a call. Fields are paired in the listing and moved at the place of their name. -/
def perform (x : IndexedFields) : FieldRegistry.Call → Except SchemaError Unit × IndexedFields
  | .register f => x.register f
  | .registerNode n => registerRead register x (Field.ofNode n)
  | .pairLengths =>
    let r : FieldRegistry := ⟨x.fields⟩
    (.ok (), { x with fields := (r.lengthPairs.foldl FieldRegistry.relate r).fields })
  | .setLocation name location =>
    match x.byName[name]? with
    | some i => (.ok (), { x with fields := x.fields.modify i ({ · with location }) })
    | none => (.ok (), x)

/-- A registry with tables that lists what another one without them lists. -/
structure Follows (x : IndexedFields) (r : FieldRegistry) : Prop where
  listing : x.fields = r.fields
  by_name : InStep (·.name) r.fields x.byName
  by_tag : InStep (·.tag) r.fields x.byTag

variable {x : IndexedFields} {r : FieldRegistry}

theorem Follows.lookup_eq (h : x.Follows r) (name : String) : x.lookup name = r.lookup name := by
  rw [lookup, h.listing]
  exact h.by_name.find?_eq name

theorem Follows.lookupTag_eq (h : x.Follows r) (tag : Nat) :
    x.lookupTag tag = r.lookupTag tag := by
  rw [lookupTag, h.listing]
  exact h.by_tag.find?_eq tag

theorem Follows.register (h : x.Follows r) (f : Field) :
    (x.register f).1 = (r.register f).outcome.map (fun _ => ()) ∧
      (x.register f).2.Follows ((r.register f).outcome.toOption.getD r) := by
  have named : x.byName.contains f.name = (r.lookup f.name).isSome := h.by_name.contains_eq f.name
  have tagged := h.lookupTag_eq f.tag
  unfold IndexedFields.register FieldRegistry.register
  rw [named, tagged]
  cases hn : r.lookup f.name with
  | some _ => exact ⟨rfl, h⟩
  | none =>
    cases ht : r.lookupTag f.tag with
    | some _ => exact ⟨rfl, h⟩
    | none =>
      have places := congrArg List.length h.listing
      refine ⟨rfl, congrArg (· ++ [f]) h.listing, ?_, ?_⟩
      · exact places ▸ h.by_name.concat ((h.by_name.place_eq_none_iff _).mpr hn)
      · exact places ▸ h.by_tag.concat ((h.by_tag.place_eq_none_iff _).mpr ht)

/-- The tables need no change where fields keep their keys. -/
theorem Follows.revise {r' : FieldRegistry} {change : Field → Field} {fields : List Field}
    (h : x.Follows r) (listing : fields = r'.fields) (changed : r'.fields = r.fields.map change)
    (revises : ∀ f, (change f).Revises f) :
    ({ x with fields } : IndexedFields).Follows r' where
  listing := listing
  by_name := h.by_name.of_keys (by simp [changed, (revises _).name_eq])
  by_tag := h.by_tag.of_keys (by simp [changed, (revises _).tag_eq])

theorem Follows.perform (h : x.Follows r) (call : FieldRegistry.Call) :
    (x.perform call).1 = (r.perform call).map (fun _ => ()) ∧
      (x.perform call).2.Follows (attempt FieldRegistry.perform r call) := by
  cases call with
  | register f => exact h.register f
  | registerNode n =>
    unfold attempt
    rw [FieldRegistry.perform, FieldRegistry.registerNode, IndexedFields.perform]
    cases Field.ofNode n with
    | error e => exact ⟨rfl, h⟩
    | ok f => exact h.register f
  | pairLengths =>
    have same : (⟨x.fields⟩ : FieldRegistry) = r := congrArg FieldRegistry.mk h.listing
    refine ⟨rfl, h.revise ?_ r.pairLengths_fields fun f => ?_⟩
    · rw [same]
      rfl
    · rw [Field.foldl_relatedBy_eq]
      rfl
  | setLocation name location =>
    have changed := r.setLocation_fields name location
    have revises (f : Field) : (if f.name = name then { f with location } else f).Revises f := by
      split <;> rfl
    rw [IndexedFields.perform]
    cases hi : x.byName[name]? with
    | some i =>
      refine ⟨rfl, h.revise ?_ changed revises⟩
      rw [changed, h.listing]
      exact h.by_name.modify_eq_map hi _
    | none =>
      refine ⟨rfl, h.revise ?_ changed revises⟩
      have absent := List.find?_eq_none.mp ((h.by_name.place_eq_none_iff name).mp hi)
      rw [changed, h.listing, List.map_congr_left fun f hf => if_neg (by simpa using absent f hf)]
      exact (List.map_id' r.fields).symm

theorem register_refused {f : Field} {e : SchemaError} (h : (x.register f).1 = .error e) :
    (x.register f).2 = x := by
  revert h
  unfold IndexedFields.register
  split
  next => simp
  next => split <;> simp

theorem perform_refused {call : FieldRegistry.Call} {e : SchemaError}
    (h : (x.perform call).1 = .error e) : (x.perform call).2 = x := by
  cases call with
  | register f => exact register_refused h
  | registerNode n => exact registerRead_refused register_refused h
  | pairLengths => cases h
  | setLocation name location =>
    rw [perform] at h
    split at h <;> cases h

/-- A registry with tables that answers as one without them. -/
structure AnswersAs (x : IndexedFields) (r : FieldRegistry) : Prop where
  listing : x.fields = r.fields
  lookup_eq : ∀ name, x.lookup name = r.lookup name
  lookupTag_eq : ∀ tag, x.lookupTag tag = r.lookupTag tag
  outcome_eq : ∀ call, (x.perform call).1 = (r.perform call).map fun _ => ()
  refused : ∀ call e, (x.perform call).1 = .error e → (x.perform call).2 = x

theorem answers_after (calls : List FieldRegistry.Call) :
    (calls.foldl (fun x call => (x.perform call).2) empty).AnswersAs
      (calls.foldl (attempt FieldRegistry.perform) .empty) := by
  have start : Follows empty .empty := ⟨rfl, inStep_empty _, inStep_empty _⟩
  have h := List.foldl_rel start fun call (_ : call ∈ calls) x r (h : Follows x r) =>
    (h.perform call).2
  exact ⟨h.listing, h.lookup_eq, h.lookupTag_eq, fun call => (h.perform call).1,
    fun _ _ => perform_refused⟩

end IndexedFields

/-- A registry of components with a table for their names. -/
structure IndexedComponents where
  components : List Component
  byName : Std.HashMap String Nat

namespace IndexedComponents

def empty : IndexedComponents := ⟨[], ∅⟩

def lookup (x : IndexedComponents) (name : String) : Option Component :=
  x.byName[name]?.bind (x.components[·]?)

def register (x : IndexedComponents) (c : Component) :
    Except SchemaError Unit × IndexedComponents :=
  if x.byName.contains c.name then (.error (.duplicateName "component" c.name), x)
  else (.ok (), ⟨x.components ++ [c], x.byName.insert c.name x.components.length⟩)

def perform (x : IndexedComponents) :
    ComponentRegistry.Call → Except SchemaError Unit × IndexedComponents
  | .register c => x.register c
  | .registerNode n => registerRead register x (Component.ofNode n)

structure Follows (x : IndexedComponents) (r : ComponentRegistry) : Prop where
  listing : x.components = r.components
  by_name : InStep (·.name) r.components x.byName

variable {x : IndexedComponents} {r : ComponentRegistry}

theorem Follows.register (h : x.Follows r) (c : Component) :
    (x.register c).1 = (r.register c).outcome.map (fun _ => ()) ∧
      (x.register c).2.Follows ((r.register c).outcome.toOption.getD r) := by
  have named : x.byName.contains c.name = (r.lookup c.name).isSome := h.by_name.contains_eq c.name
  unfold IndexedComponents.register ComponentRegistry.register
  rw [named]
  cases hn : r.lookup c.name with
  | some _ => exact ⟨rfl, h⟩
  | none =>
    have place := congrArg List.length h.listing
    refine ⟨rfl, congrArg (· ++ [c]) h.listing, ?_⟩
    exact place ▸ h.by_name.concat ((h.by_name.place_eq_none_iff _).mpr hn)

theorem Follows.perform (h : x.Follows r) (call : ComponentRegistry.Call) :
    (x.perform call).1 = (r.perform call).map (fun _ => ()) ∧
      (x.perform call).2.Follows (attempt ComponentRegistry.perform r call) := by
  cases call with
  | register c => exact h.register c
  | registerNode n =>
    unfold attempt
    rw [ComponentRegistry.perform, ComponentRegistry.registerNode, IndexedComponents.perform]
    cases Component.ofNode n with
    | error e => exact ⟨rfl, h⟩
    | ok c => exact h.register c

theorem register_refused {c : Component} {e : SchemaError} (h : (x.register c).1 = .error e) :
    (x.register c).2 = x := by
  revert h
  unfold IndexedComponents.register
  split <;> simp

theorem perform_refused {call : ComponentRegistry.Call} {e : SchemaError}
    (h : (x.perform call).1 = .error e) : (x.perform call).2 = x := by
  cases call with
  | register c => exact register_refused h
  | registerNode n => exact registerRead_refused register_refused h

/-- A registry with a table that answers as one without it. -/
structure AnswersAs (x : IndexedComponents) (r : ComponentRegistry) : Prop where
  listing : x.components = r.components
  lookup_eq : ∀ name, x.lookup name = r.lookup name
  outcome_eq : ∀ call, (x.perform call).1 = (r.perform call).map fun _ => ()
  refused : ∀ call e, (x.perform call).1 = .error e → (x.perform call).2 = x

theorem answers_after (calls : List ComponentRegistry.Call) :
    (calls.foldl (fun x call => (x.perform call).2) empty).AnswersAs
      (calls.foldl (attempt ComponentRegistry.perform) .empty) := by
  have start : Follows empty .empty := ⟨rfl, inStep_empty _⟩
  have h := List.foldl_rel start fun call (_ : call ∈ calls) x r (h : Follows x r) =>
    (h.perform call).2
  refine ⟨h.listing, fun name => ?_, fun call => (h.perform call).1, fun _ _ => perform_refused⟩
  rw [lookup, h.listing]
  exact h.by_name.find?_eq name

end IndexedComponents

/-- A registry of messages with a table for each key of theirs. -/
structure IndexedMessages where
  messages : List Message
  byType : Std.HashMap String Nat
  byName : Std.HashMap String Nat

namespace IndexedMessages

def empty : IndexedMessages := ⟨[], ∅, ∅⟩

def lookup (x : IndexedMessages) (msgType : String) : Option Message :=
  x.byType[msgType]?.bind (x.messages[·]?)

def lookupName (x : IndexedMessages) (name : String) : Option Message :=
  x.byName[name]?.bind (x.messages[·]?)

def register (x : IndexedMessages) (m : Message) : Except SchemaError Unit × IndexedMessages :=
  if x.byType.contains m.msgType then (.error (.duplicateName "msgtype" m.msgType), x)
  else if x.byName.contains m.name then (.error (.duplicateName "message" m.name), x)
  else
    (.ok (), ⟨x.messages ++ [m], x.byType.insert m.msgType x.messages.length,
      x.byName.insert m.name x.messages.length⟩)

def perform (x : IndexedMessages) :
    MessageRegistry.Call → Except SchemaError Unit × IndexedMessages
  | .register m => x.register m
  | .registerNode header trailer n => registerRead register x (Message.ofNode header trailer n)

structure Follows (x : IndexedMessages) (r : MessageRegistry) : Prop where
  listing : x.messages = r.messages
  by_type : InStep (·.msgType) r.messages x.byType
  by_name : InStep (·.name) r.messages x.byName

variable {x : IndexedMessages} {r : MessageRegistry}

theorem Follows.register (h : x.Follows r) (m : Message) :
    (x.register m).1 = (r.register m).outcome.map (fun _ => ()) ∧
      (x.register m).2.Follows ((r.register m).outcome.toOption.getD r) := by
  have typed : x.byType.contains m.msgType = (r.lookup m.msgType).isSome :=
    h.by_type.contains_eq m.msgType
  have named : x.byName.contains m.name = (r.lookupName m.name).isSome :=
    h.by_name.contains_eq m.name
  unfold IndexedMessages.register MessageRegistry.register
  rw [typed, named]
  cases ht : r.lookup m.msgType with
  | some _ => exact ⟨rfl, h⟩
  | none =>
    cases hn : r.lookupName m.name with
    | some _ => exact ⟨rfl, h⟩
    | none =>
      have place := congrArg List.length h.listing
      refine ⟨rfl, congrArg (· ++ [m]) h.listing, ?_, ?_⟩
      · exact place ▸ h.by_type.concat ((h.by_type.place_eq_none_iff _).mpr ht)
      · exact place ▸ h.by_name.concat ((h.by_name.place_eq_none_iff _).mpr hn)

theorem Follows.perform (h : x.Follows r) (call : MessageRegistry.Call) :
    (x.perform call).1 = (r.perform call).map (fun _ => ()) ∧
      (x.perform call).2.Follows (attempt MessageRegistry.perform r call) := by
  cases call with
  | register m => exact h.register m
  | registerNode header trailer n =>
    unfold attempt
    rw [MessageRegistry.perform, MessageRegistry.registerNode, IndexedMessages.perform]
    cases Message.ofNode header trailer n with
    | error e => exact ⟨rfl, h⟩
    | ok m => exact h.register m

theorem register_refused {m : Message} {e : SchemaError} (h : (x.register m).1 = .error e) :
    (x.register m).2 = x := by
  revert h
  unfold IndexedMessages.register
  split
  next => simp
  next => split <;> simp

theorem perform_refused {call : MessageRegistry.Call} {e : SchemaError}
    (h : (x.perform call).1 = .error e) : (x.perform call).2 = x := by
  cases call with
  | register m => exact register_refused h
  | registerNode header trailer n => exact registerRead_refused register_refused h

/-- A registry with tables that answers as one without them. -/
structure AnswersAs (x : IndexedMessages) (r : MessageRegistry) : Prop where
  listing : x.messages = r.messages
  lookup_eq : ∀ msgType, x.lookup msgType = r.lookup msgType
  lookupName_eq : ∀ name, x.lookupName name = r.lookupName name
  outcome_eq : ∀ call, (x.perform call).1 = (r.perform call).map fun _ => ()
  refused : ∀ call e, (x.perform call).1 = .error e → (x.perform call).2 = x

theorem answers_after (calls : List MessageRegistry.Call) :
    (calls.foldl (fun x call => (x.perform call).2) empty).AnswersAs
      (calls.foldl (attempt MessageRegistry.perform) .empty) := by
  have start : Follows empty .empty := ⟨rfl, inStep_empty _, inStep_empty _⟩
  have h := List.foldl_rel start fun call (_ : call ∈ calls) x r (h : Follows x r) =>
    (h.perform call).2
  refine ⟨h.listing, fun msgType => ?_, fun name => ?_, fun call => (h.perform call).1,
    fun _ _ => perform_refused⟩
  · rw [lookup, h.listing]
    exact h.by_type.find?_eq msgType
  · rw [lookupName, h.listing]
    exact h.by_name.find?_eq name

end IndexedMessages

/-- Whatever registries are asked for, and whatever of it fails, they list what was registered in
the order of its registration, with every key in it once; a look-up finds the one element that has
the key. Registering adds an element whose keys are new to the end and fails else, which leaves the
registry as it was; moving a field changes its location alone, and pairing what fields are related
to. Sorted by tag or by type the listing ascends strictly. A registry that keeps a table of places
for each key stays in step with its listing: it answers every call and every look-up alike. -/
theorem registries_keep_in_step :
    (∀ calls : List FieldRegistry.Call,
      let r := calls.foldl (attempt FieldRegistry.perform) .empty
      List.Forall₂ Field.Revises r.fields
          (accepted FieldRegistry.perform FieldRegistry.Call.field? .empty calls) ∧
        r.Sound ∧ r.Responds ∧
        (calls.foldl (fun x call => (x.perform call).2) IndexedFields.empty).AnswersAs r) ∧
    (∀ calls : List ComponentRegistry.Call,
      let r := calls.foldl (attempt ComponentRegistry.perform) .empty
      r.components =
          accepted ComponentRegistry.perform ComponentRegistry.Call.component? .empty calls ∧
        Indexes r.lookup (·.name) r.components ∧
        (∀ call next, r.perform call = .ok next ↔
          ∃ c, call.component? = some c ∧ r.lookup c.name = none ∧
            next.components = r.components ++ [c]) ∧
        (∀ call e, r.perform call = .error e → attempt ComponentRegistry.perform r call = r) ∧
        (calls.foldl (fun x call => (x.perform call).2) IndexedComponents.empty).AnswersAs r) ∧
    (∀ calls : List MessageRegistry.Call,
      let r := calls.foldl (attempt MessageRegistry.perform) .empty
      r.messages = accepted MessageRegistry.perform MessageRegistry.Call.message? .empty calls ∧
        Indexes r.lookup (·.msgType) r.messages ∧ Indexes r.lookupName (·.name) r.messages ∧
        (∀ m ∈ r.messages, r.lookup m.msgType = some m ∧ r.lookupName m.name = some m) ∧
        (r.sortedByType.Pairwise fun a b => utf8Bytes a.msgType < utf8Bytes b.msgType) ∧
        r.sortedByType.Perm r.messages ∧
        (∀ call next, r.perform call = .ok next ↔
          ∃ m, call.message? = some m ∧ r.lookup m.msgType = none ∧ r.lookupName m.name = none ∧
            next.messages = r.messages ++ [m]) ∧
        (∀ call e, r.perform call = .error e → attempt MessageRegistry.perform r call = r) ∧
        (calls.foldl (fun x call => (x.perform call).2) IndexedMessages.empty).AnswersAs r) := by
  refine ⟨fun calls => ?_, fun calls => ?_, fun calls => ?_⟩
  · have lists := FieldRegistry.lists_after calls
    exact ⟨lists.revised, lists.sound, FieldRegistry.responds _,
      IndexedFields.answers_after calls⟩
  · obtain ⟨listed, names⟩ := ComponentRegistry.lists_after calls
    rw [← listed] at names
    exact ⟨listed, indexes_find? names, fun _ _ => ComponentRegistry.perform_eq_ok_iff,
      fun _ _ => attempt_of_error, IndexedComponents.answers_after calls⟩
  · obtain ⟨listed, types, names⟩ := MessageRegistry.lists_after calls
    rw [← listed] at types names
    have by_type := indexes_find? types
    have by_name := indexes_find? names
    exact ⟨listed, by_type, by_name, fun m hm => ⟨by_type.lookup_key hm, by_name.lookup_key hm⟩,
      (MessageRegistry.sortedByType_ascending types).imp utf8Bytes_lt_iff.mpr,
      MessageRegistry.sortedByType_perm _, fun _ _ => MessageRegistry.perform_eq_ok_iff,
      fun _ _ => attempt_of_error, IndexedMessages.answers_after calls⟩

end FixTables
