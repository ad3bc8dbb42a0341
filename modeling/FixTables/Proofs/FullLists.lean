import FixTables.Proofs.MessageFrames
import FixTables.Proofs.Misnaming
import FixTables.Proofs.ValidDictionary

namespace FixTables

namespace Resolver

theorem Unfolds.replicate {r : Resolver} {refs : List Member} {m : Member} {out : List Resolved}
    (h : r.Unfolds refs [m] out) (k : Nat) :
    r.Unfolds refs (List.replicate k m) (List.replicate k out).flatten := by
  induction k with
  | zero => exact .nil
  | succ k ih =>
    rw [List.replicate_succ, List.replicate_succ, List.flatten_cons, ← List.singleton_append]
    exact unfolds_append_iff.mpr ⟨out, _, h, ih, rfl⟩

/-- References to a component of fields unfold to so many rows of fields. -/
theorem exists_unfolds_rows {r : Resolver} (text row : Member) {f : Field} {c : Component}
    {width : Nat} (field : text.kind = .field) (hf : r.fields.lookup text.name = some f)
    (component : row.kind = .component) (hc : r.components.lookup row.name = some c)
    (members : c.members = List.replicate width text) (rows : Nat) :
    ∃ out, r.Unfolds [] (List.replicate rows row) out ∧ out.length = rows * width ∧
      ∀ m ∈ out, m.entry? = none := by
  have inside : r.Unfolds [row] c.members _ :=
    members ▸ Unfolds.replicate (.field field hf .nil) width
  refine ⟨_, Unfolds.replicate (.component component hc inside .nil) rows, ?_, ?_⟩
  · simp
  · simp only [List.append_nil, List.mem_flatten, List.mem_replicate]
    rintro m ⟨_, ⟨-, rfl⟩, hm⟩
    simp only [List.mem_flatten, List.mem_replicate] at hm
    obtain ⟨_, ⟨-, rfl⟩, hm⟩ := hm
    obtain rfl := List.mem_singleton.mp hm
    rfl

end Resolver

namespace Spec

/-- The sections of `rowed`. -/
def rowedSections (rows : Nat) (last : String) : Sections where
  fields := (Node.leaf "fields").append (FieldRegistry.fieldNode "58" "Text" "STRING")
  header := Node.leaf "header"
  trailer := Node.leaf "trailer"
  messages := (Node.leaf "messages").append <| (Node.named "message" "News"
    (List.replicate rows (.named "component" "Row" []) ++
      [.named "component" last []])).withAttribute "msgtype" "B"

/-- A dictionary with a message of some rows, each of some fields, and of one more component. -/
def rowed (rows width : Nat) (last : String) : Node :=
  let sections := rowedSections rows last
  { ((Node.leaf "fix").withAttribute "major" "4").withAttribute "minor" "4" with
    children := [sections.fields, sections.header, sections.trailer, sections.messages,
      { Node.leaf "components" with
        children := [.named "component" "Row" (List.replicate width (.named "field" "Text" [])),
          .named "component" "Blank" []] }] }

variable {rows width : Nat} {last : String}

theorem componentNodes_rowed :
    componentNodes (rowed rows width last) =
      [.named "component" "Row" (List.replicate width (.named "field" "Text" [])),
        .named "component" "Blank" []] := by
  have references : Node.findIn? "components" (List.replicate rows (.named "component" "Row" []) ++
      [.named "component" last []]) = none := by
    refine Node.findIn?_eq_none_iff.mpr fun n hn => ?_
    obtain ⟨name, rfl⟩ : ∃ name, n = .named "component" name [] := by
      rcases List.mem_append.mp hn with hn | hn
      · exact ⟨_, List.eq_of_mem_replicate hn⟩
      · exact ⟨_, List.mem_singleton.mp hn⟩
    exact ⟨show "component" ≠ "components" by decide, rfl⟩
  have earlier : Node.findIn? "components" [(rowedSections rows last).fields,
      (rowedSections rows last).header, (rowedSections rows last).trailer,
      (rowedSections rows last).messages] = none := by
    refine Node.findIn?_eq_none_iff.mpr ?_
    simp only [List.forall_mem_cons, List.not_mem_nil, false_imp_iff, implies_true, and_true]
    refine ⟨⟨?_, rfl⟩, ⟨?_, rfl⟩, ⟨?_, rfl⟩, ?_, Option.or_eq_none_iff.mpr ⟨references, rfl⟩⟩
    · exact show "fields" ≠ "components" by decide
    · exact show "header" ≠ "components" by decide
    · exact show "trailer" ≠ "components" by decide
    · exact show "messages" ≠ "components" by decide
  have found : (rowed rows width last).find? "components" = some _ :=
    (Node.findIn?_append).trans (congrArg (Option.or · _) earlier)
  rw [componentNodes, found]
  rfl

/-- What resolves the references of `rowed`. -/
def rowedResolver (width : Nat) (strict : Bool) : Resolver where
  fields := ⟨[.plain 58 "Text" .string]⟩
  components := ⟨[⟨"Row", List.replicate width ⟨"Text", .field, false, false, []⟩⟩, ⟨"Blank", []⟩]⟩
  strict := strict

theorem lookup_text_rowed (strict : Bool) : (rowedResolver width strict).fields.lookup "Text" =
    some (.plain 58 "Text" .string) := rfl

theorem declaredComponents_rowed (strict : Bool) :
    declaredComponents (rowed rows width last) = (rowedResolver width strict).components := by
  have row : Member.childrenOf (.named "component" "Row"
      (List.replicate width (.named "field" "Text" []))) = _ :=
    Member.ofNodes_replicate (Member.ofNode?_named rfl) width
  rw [declaredComponents, componentNodes_rowed, List.map_cons, row]
  rfl

theorem messageMembers_rowed :
    (rowedSections rows last).messageMembers =
      [List.replicate rows ⟨"Row", .component, false, false, []⟩ ++
        [⟨last, .component, false, false, []⟩]] := by
  calc (rowedSections rows last).messageMembers
    _ = [[] ++ Member.ofNodes (List.replicate rows (.named "component" "Row" []) ++
          [.named "component" last []]) ++ []] := rfl
    _ = _ := by
      rw [List.nil_append, List.append_nil, Member.ofNodes_append,
        Member.ofNodes_replicate (Member.ofNode?_named rfl)]
      rfl

theorem rowed_wellDeclared (rows width : Nat) (last : String) :
    WellDeclared (rowed rows width last) (rowedSections rows last) [.plain 58 "Text" .string] where
  root_name := rfl
  major := ⟨"4", 4, rfl, by cbv⟩
  minor := ⟨"4", 4, rfl, by cbv⟩
  servicePack := .inl rfl
  found := ⟨rfl, rfl, rfl, rfl⟩
  fields_read := .cons (by cbv) .nil
  field_names := List.nodup_singleton _
  field_tags := List.nodup_singleton _
  components_named := by
    rw [componentNodes_rowed]
    simp only [List.forall_mem_cons, List.not_mem_nil, false_imp_iff, implies_true, and_true]
    exact ⟨show "Row" ≠ "" by decide, show "Blank" ≠ "" by decide⟩
  component_names := by
    rw [componentNodes_rowed]
    exact show ["Row", "Blank"].Nodup by decide
  messages_declared := by
    intro n hn
    obtain rfl := List.mem_singleton.mp hn
    refine ⟨show "News" ≠ "" by decide, show "B" ≠ "" by decide,
      show "B".utf8ByteSize ≤ 8 by decide, ?_⟩
    exact fun raw uncategorized => absurd (show none = some raw from uncategorized) (by simp)
  message_types := List.nodup_singleton _
  message_names := List.nodup_singleton _

/-- The rows of the message unfold to its fields, behind which the last member has its place. -/
theorem exists_unfolds_rowed {strict : Bool} {tail : List Resolved} (rows : Nat)
    (h : (rowedResolver width strict).Unfolds [] [⟨last, .component, false, false, []⟩] tail) :
    ∃ out, (rowedResolver width strict).Unfolds []
        (List.replicate rows ⟨"Row", .component, false, false, []⟩ ++
          [⟨last, .component, false, false, []⟩]) (out ++ tail) ∧
      out.length = rows * width ∧ ∀ m ∈ out, m.entry? = none := by
  have row : (rowedResolver width strict).components.lookup "Row" =
      some ⟨"Row", List.replicate width ⟨"Text", .field, false, false, []⟩⟩ := rfl
  obtain ⟨out, unfolds, length, flat⟩ := Resolver.exists_unfolds_rows
    ⟨"Text", .field, false, false, []⟩ ⟨"Row", .component, false, false, []⟩ rfl
    (lookup_text_rowed strict) rfl row rfl rows
  exact ⟨out, Resolver.unfolds_append_iff.mpr ⟨out, tail, unfolds, h, rfl⟩, length, flat⟩

/-- A dictionary of rows compiles exactly if there is a position for each field of a row and for
what its last member unfolds to. -/
theorem compile_rowed_iff {strict : Bool} {tail : List Resolved}
    (h : (rowedResolver width strict).Unfolds [] [⟨last, .component, false, false, []⟩] tail)
    (flat : ∀ m ∈ tail, m.entry? = none) :
    (∃ s, (compile (rowed rows width last) ⟨none, strict⟩).outcome = .ok s) ↔
      rows * width + tail.length ≤ TagSequence.maxMembers := by
  have declares := rowed_wellDeclared rows width last
  obtain ⟨out, unfolds, length, plain⟩ := exists_unfolds_rowed rows h
  have total : (out ++ tail).length = rows * width + tail.length := by
    rw [List.length_append, length]
  constructor
  · rintro ⟨s, compiles⟩
    obtain ⟨t⟩ := compile_eq_ok_iff.mp compiles
    obtain ⟨sections, fs, declares', consistent⟩ := t.valid
    obtain rfl := declares'.found.unique declares.found
    obtain rfl : fs = _ := by
      have read := except_mapM_eq_ok_iff.mpr declares'.fields_read
      exact Except.ok.inj (read.symm.trans (except_mapM_eq_ok_iff.mpr declares.fields_read))
    rw [declaredComponents_rowed strict, messageMembers_rowed] at consistent
    rw [← total]
    exact (consistent.messages_fit _ (List.mem_singleton_self _) _ unfolds).length_le
  · intro fits
    have components_clear : ∀ c ∈ (rowedResolver width strict).components.components,
        (rowedResolver width strict).components.ClearFrom (rowedResolver width strict).Enters
          (rowedResolver width strict).Takes c.members := by
      have row : (rowedResolver width strict).Unfolds []
          (List.replicate width ⟨"Text", .field, false, false, []⟩) _ :=
        .replicate (.field rfl (lookup_text_rowed strict) .nil) width
      exact List.forall_mem_cons.mpr ⟨row.clear,
        List.forall_mem_singleton.mpr ComponentRegistry.clearFrom_nil⟩
    -- With neither header nor trailer, only the components and the one message have a say.
    apply Valid.compile_eq_ok
    refine ⟨_, _, declares, ?_⟩
    rw [declaredComponents_rowed strict, messageMembers_rowed]
    exact {
      header_known := fun x hx => absurd hx (ComponentRegistry.not_meets_nil x)
      header_acyclic := ComponentRegistry.acyclicFrom_nil
      trailer_known := fun x hx => absurd hx (ComponentRegistry.not_meets_nil x)
      trailer_acyclic := ComponentRegistry.acyclicFrom_nil
      components_acyclic := fun c hc =>
        ComponentRegistry.not_cyclic_of_acyclicFrom (components_clear c hc).2
      components_known := fun hs c hc x hx => (components_clear c hc).1 x hx hs
      messages_known := fun hs => List.forall_mem_singleton.mpr fun x hx => unfolds.clear.1 x hx hs
      messages_fit := by
        refine List.forall_mem_singleton.mpr fun out' unfolds' => ?_
        obtain rfl := unfolds'.unique unfolds
        refine ⟨total.trans_le fits, fun entry he => ?_⟩
        have allFlat := List.forall_mem_append.mpr ⟨plain, flat⟩
        exact absurd he (Resolved.not_entryOf_of_flat allFlat entry) }

end Spec

end FixTables
