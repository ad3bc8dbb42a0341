import FixTables.ComponentRegistry
import FixTables.FieldRegistry
import FixTables.MessageRegistry
import FixTables.Proofs.Outcome
import Mathlib.Data.List.Nodup

namespace FixTables

/-- Registering what declarations hold succeeds exactly if each can be read and no two of them, or
of those there before, clash; nothing is lost or moved. -/
theorem foldlM_register_eq_ok_iff {ρ α : Type} (read : Node → Except SchemaError α)
    {mk : List α → ρ} {clash : α → α → Prop} {register : ρ → α → Traced SchemaError ρ}
    (hreg : ∀ xs a r, (register (mk xs) a).outcome = .ok r ↔
      (∀ b ∈ xs, ¬ clash b a) ∧ r = mk (xs ++ [a]))
    {xs : List α} (start : xs.Pairwise fun a b => ¬ clash a b) (nodes : List Node) {r : ρ} :
    (nodes.foldlM (fun r n => do register r (← Traced.ofExcept (read n))) (mk xs)).outcome = .ok r ↔
      ∃ as, nodes.mapM read = .ok as ∧ (xs ++ as).Pairwise (fun a b => ¬ clash a b) ∧
        r = mk (xs ++ as) := by
  induction nodes generalizing xs with
  | nil =>
    simp only [List.foldlM_nil, Traced.pure_outcome, List.mapM_nil]
    simp [start, pure, Except.pure, eq_comm]
  | cons n ns ih =>
    simp only [List.foldlM_cons, List.mapM_cons, Traced.bind_eq_ok_iff, except_bind_eq_ok_iff,
      Traced.ofExcept_outcome, hreg]
    constructor
    · rintro ⟨_, ⟨a, ha, new, rfl⟩, h⟩
      have start' : (xs ++ [a]).Pairwise fun a b => ¬ clash a b :=
        List.pairwise_append.mpr ⟨start, by simp, by simpa using new⟩
      obtain ⟨as, has, hp, rfl⟩ := (ih start').mp h
      exact ⟨a :: as, ⟨a, ha, as, has, rfl⟩, by simpa using hp, by simp⟩
    · rintro ⟨_, ⟨a, ha, as, has, hcons⟩, hp, rfl⟩
      obtain rfl := Except.ok.inj hcons
      have hp' : ((xs ++ [a]) ++ as).Pairwise fun a b => ¬ clash a b := by simpa using hp
      have new := (List.pairwise_append.mp hp).2.2
      exact ⟨_, ⟨a, ha, fun b hb => new b hb a (by simp), rfl⟩,
        (ih (List.pairwise_append.mp hp').1).mpr ⟨as, has, hp', by simp⟩⟩

theorem pairwise_not_or_iff {κ μ : Type} {f : α → κ} {g : α → μ} {xs : List α} :
    xs.Pairwise (fun a b => ¬ (f a = f b ∨ g a = g b)) ↔ (xs.map f).Nodup ∧ (xs.map g).Nodup := by
  simp only [List.Nodup, List.pairwise_map, ← List.pairwise_and_iff, not_or]

theorem FieldRegistry.register_eq_ok_iff (xs : List Field) (f : Field) (r : FieldRegistry) :
    ((FieldRegistry.mk xs).register f).outcome = .ok r ↔
      (∀ g ∈ xs, ¬ (g.name = f.name ∨ g.tag = f.tag)) ∧ r = ⟨xs ++ [f]⟩ := by
  have names : (FieldRegistry.mk xs).lookup f.name = none ↔ ∀ g ∈ xs, g.name ≠ f.name := by
    simp [lookup]
  have tags : (FieldRegistry.mk xs).lookupTag f.tag = none ↔ ∀ g ∈ xs, g.tag ≠ f.tag := by
    simp [lookupTag]
  simp only [not_or, forall_and, ← ne_eq, ← names, ← tags, register]
  cases (FieldRegistry.mk xs).lookup f.name <;> cases (FieldRegistry.mk xs).lookupTag f.tag <;>
    simp [Except.map, eq_comm (b := r)]

theorem ComponentRegistry.register_eq_ok_iff (xs : List Component) (c : Component)
    (r : ComponentRegistry) :
    ((ComponentRegistry.mk xs).register c).outcome = .ok r ↔
      (∀ d ∈ xs, ¬ d.name = c.name) ∧ r = ⟨xs ++ [c]⟩ := by
  have names : (ComponentRegistry.mk xs).lookup c.name = none ↔ ∀ d ∈ xs, ¬ d.name = c.name := by
    simp [lookup]
  simp only [← names, register]
  cases (ComponentRegistry.mk xs).lookup c.name <;> simp [Except.map, eq_comm (b := r)]

theorem MessageRegistry.register_eq_ok_iff (xs : List Message) (m : Message)
    (r : MessageRegistry) :
    ((MessageRegistry.mk xs).register m).outcome = .ok r ↔
      (∀ n ∈ xs, ¬ (n.msgType = m.msgType ∨ n.name = m.name)) ∧ r = ⟨xs ++ [m]⟩ := by
  have types : (MessageRegistry.mk xs).lookup m.msgType = none ↔
      ∀ n ∈ xs, n.msgType ≠ m.msgType := by
    simp [lookup]
  have names : (MessageRegistry.mk xs).lookupName m.name = none ↔ ∀ n ∈ xs, n.name ≠ m.name := by
    simp [lookupName]
  simp only [not_or, forall_and, ← ne_eq, ← types, ← names, register]
  cases (MessageRegistry.mk xs).lookup m.msgType <;>
    cases (MessageRegistry.mk xs).lookupName m.name <;> simp [Except.map, eq_comm (b := r)]

/-- A section gives a registry of its fields, paired, if each is valid and no two share a name or
a tag. -/
theorem FieldRegistry.ofSection_eq_ok_iff {n : Node} {r : FieldRegistry} :
    (FieldRegistry.ofSection n).outcome = .ok r ↔
      ∃ fs, (n.childrenNamed "field").mapM Field.ofNode = .ok fs ∧ (fs.map (·.name)).Nodup ∧
        (fs.map (·.tag)).Nodup ∧ (FieldRegistry.mk fs).pairLengths.outcome = .ok r := by
  have fold := @foldlM_register_eq_ok_iff _ _ Field.ofNode _ _ _ FieldRegistry.register_eq_ok_iff
    [] .nil (n.childrenNamed "field")
  unfold ofSection
  rw [Traced.bind_eq_ok_iff]
  constructor
  · rintro ⟨_, h, hp⟩
    obtain ⟨fs, hfs, distinct, rfl⟩ := fold.mp h
    obtain ⟨names, tags⟩ := pairwise_not_or_iff.mp distinct
    exact ⟨fs, hfs, names, tags, hp⟩
  · rintro ⟨fs, hfs, names, tags, hp⟩
    exact ⟨⟨fs⟩, fold.mpr ⟨fs, hfs, pairwise_not_or_iff.mpr ⟨names, tags⟩, rfl⟩, hp⟩

theorem ComponentRegistry.ofSection_eq_ok_iff {n : Node} {r : ComponentRegistry} :
    (ComponentRegistry.ofSection n).outcome = .ok r ↔
      ∃ cs, (n.childrenNamed "component").mapM Component.ofNode = .ok cs ∧
        (cs.map (·.name)).Nodup ∧ r = ⟨cs⟩ := by
  have fold := @foldlM_register_eq_ok_iff _ _ Component.ofNode _ _ _
    ComponentRegistry.register_eq_ok_iff [] .nil (n.childrenNamed "component") r
  rw [List.Nodup, ← exists_congr fun cs => by rw [List.pairwise_map]]
  exact fold

theorem MessageRegistry.ofSection_eq_ok_iff {header trailer : List Member} {n : Node}
    {r : MessageRegistry} :
    (MessageRegistry.ofSection header trailer n).outcome = .ok r ↔
      ∃ ms, (n.childrenNamed "message").mapM (Message.ofNode header trailer) = .ok ms ∧
        (ms.map (·.msgType)).Nodup ∧ (ms.map (·.name)).Nodup ∧ r = ⟨ms⟩ := by
  have fold := @foldlM_register_eq_ok_iff _ _ (Message.ofNode header trailer) _ _ _
    MessageRegistry.register_eq_ok_iff [] .nil (n.childrenNamed "message") r
  simp only [pairwise_not_or_iff, and_assoc] at fold
  exact fold

theorem MessageRegistry.sortedByType_perm (r : MessageRegistry) :
    r.sortedByType.Perm r.messages :=
  List.mergeSort_perm _ _

end FixTables
