import FixTables.Proofs.OrderedSearch
import FixTables.Proofs.SectionSearch
import FixTables.Proofs.Unfolding

namespace FixTables

/-- Members that differ at most in their names, where a new one is the name of nothing. -/
inductive Member.Misnamed (r : Resolver) : List Member → List Member → Prop
  | nil : Misnamed r [] []
  | cons {m m' : Member} {ms ms' : List Member} : m'.kind = m.kind →
      (m'.name = m.name ∨ ¬ r.Known m') → Misnamed r m.children m'.children →
      Misnamed r ms ms' → Misnamed r (m :: ms) (m' :: ms')

/-- Where elements stand: in the section of messages or of components, in the body of a message or
a component, or elsewhere. -/
inductive Region
  | elsewhere
  | messages
  | components
  | body

/-- Where the elements inside an element stand. The bodies of the components in `kept` do not
count. -/
def Region.inside (kept : List String) (p : Region) (n : Node) : Region :=
  if n.name = "messages" then .messages
  else if n.name = "components" then .components
  else
    match p with
    | .elsewhere => .elsewhere
    | .messages => if n.name = "message" then .body else .elsewhere
    | .components =>
      if n.name = "component" ∧ n.attributeD "name" ∉ kept then .body else .elsewhere
    | .body => if (MemberKind.ofElement? n.name).isSome then .body else .elsewhere

/-- Forests of elements, in a region, that differ at most in the names of references in bodies,
where a new one is the name of nothing. -/
inductive Node.Misnamed (r : Resolver) (kept : List String) : Region → List Node → List Node → Prop
  | nil {p : Region} : Misnamed r kept p [] []
  | same {p : Region} {name : String} {attributes : Attributes} {cs cs' ns ns' : List Node} :
      Misnamed r kept (p.inside kept ⟨name, attributes, cs⟩) cs cs' → Misnamed r kept p ns ns' →
      Misnamed r kept p (⟨name, attributes, cs⟩ :: ns) (⟨name, attributes, cs'⟩ :: ns')
  | renamed {name : String} {as as' : Attributes} {cs cs' ns ns' : List Node} {m' : Member} :
      Member.ofNode? ⟨name, as', cs'⟩ = some m' → ¬ r.Known m' →
      (∀ key, key ≠ "name" → as'.get? key = as.get? key) → Misnamed r kept .body cs cs' →
      Misnamed r kept .body ns ns' →
      Misnamed r kept .body (⟨name, as, cs⟩ :: ns) (⟨name, as', cs'⟩ :: ns')

/-- An element with a name, and with elements in it. -/
def Node.named (element name : String) (children : List Node) : Node :=
  { (Node.leaf element).withAttribute "name" name with children }

theorem Member.ofNode?_named {element name : String} {kind : MemberKind} {cs : List Node}
    (hk : MemberKind.ofElement? element = some kind) :
    Member.ofNode? (.named element name cs) =
      some ⟨name, kind, false, false, Member.ofNodes cs⟩ :=
  Member.ofNode?_eq_some_iff.mpr ⟨kind, hk, rfl⟩

namespace Region

variable {kept : List String} {p : Region} {n : Node}

theorem inside_messages (h : n.name = "messages") : p.inside kept n = .messages := by
  simp [inside, h]

theorem inside_components (h : n.name = "components") : p.inside kept n = .components := by
  simp [inside, h]

/-- The other sections have no bodies, wherever they stand. -/
theorem inside_section (h : n.name ∈ ["fields", "header", "trailer"]) :
    p.inside kept n = .elsewhere := by
  simp only [List.mem_cons, List.not_mem_nil, or_false] at h
  rcases h with h | h | h <;> cases p <;>
    simp [inside, h, MemberKind.ofElement?, MemberKind.element]

theorem inside_message (h : n.name = "message") : Region.messages.inside kept n = .body := by
  simp [inside, h]

theorem inside_component (h : n.name = "component") :
    Region.components.inside kept n =
      if n.attributeD "name" ∈ kept then .elsewhere else .body := by
  simp [inside, h]

/-- Changes reach the members inside a member exactly if they reach the member. -/
theorem inside_member {kind : MemberKind} (hk : MemberKind.ofElement? n.name = some kind)
    (hp : p = .elsewhere ∨ p = .body) : p.inside kept n = p := by
  have element := MemberKind.element_of_ofElement hk
  have plain : n.name ≠ "messages" ∧ n.name ≠ "components" := by
    rw [← element]
    cases kind <;> simp [MemberKind.element]
  rcases hp with rfl | rfl <;> simp [inside, plain, hk]

theorem inside_root (h : n.name = "fix") : p.inside kept n = .elsewhere := by
  cases p <;> simp [inside, h, MemberKind.ofElement?, MemberKind.element]

end Region

namespace Member.Misnamed

variable {r : Resolver} {ms ms' : List Member}

theorem refl (ms : List Member) : Member.Misnamed r ms ms := by
  match ms with
  | [] => exact .nil
  | ⟨name, kind, required, requiredDeclared, children⟩ :: ms =>
    exact .cons rfl (.inl rfl) (refl children) (refl ms)

theorem exists_of_mem {m' : Member} (h : Member.Misnamed r ms ms') (hm : m' ∈ ms') :
    ∃ m ∈ ms, m'.kind = m.kind ∧ (m'.name = m.name ∨ ¬ r.Known m') ∧
      Member.Misnamed r m.children m'.children := by
  induction h with
  | nil => simp at hm
  | cons kind name inner _ _ rest =>
    rcases List.mem_cons.mp hm with rfl | hm
    · exact ⟨_, by simp, kind, name, inner⟩
    · obtain ⟨m, hm, like⟩ := rest hm
      exact ⟨m, List.mem_cons_of_mem _ hm, like⟩

end Member.Misnamed

namespace Node.Misnamed

variable {r : Resolver} {kept : List String} {p q : Region} {n n' root root' : Node}
  {ns ns' ms ms' cs cs' : List Node}

theorem refl (ns : List Node) : Misnamed r kept p ns ns := by
  induction ns using forest_induction generalizing p with
  | nil => exact .nil
  | cons n ns inner rest =>
    cases n with
    | mk => exact .same inner rest

theorem append (h : Misnamed r kept p ns ns') (h' : Misnamed r kept p ms ms') :
    Misnamed r kept p (ns ++ ms) (ns' ++ ms') := by
  induction h with
  | nil => exact h'
  | same inner _ _ rest => exact .same inner (rest h')
  | renamed declares unknown others inner _ _ rest =>
    exact .renamed declares unknown others inner (rest h')

theorem within (hq : p.inside kept n = q) (h : Misnamed r kept q n.children cs') :
    Misnamed r kept p [n] [{ n with children := cs' }] := by
  cases n
  exact .same (hq ▸ h) .nil

theorem of_named {element old new : String} {kind : MemberKind}
    (hk : MemberKind.ofElement? element = some kind)
    (unknown : ¬ r.Known ⟨new, kind, false, false, Member.ofNodes cs'⟩)
    (inner : Misnamed r kept .body cs cs') :
    Misnamed r kept .body [.named element old cs] [.named element new cs'] := by
  refine .renamed (Member.ofNode?_named hk) unknown (fun key ne => ?_) inner .nil
  calc (Attributes.empty.insert "name" new).get? key
    _ = Attributes.empty.get? key := Attributes.get?_insert_of_ne ne _ new
    _ = (Attributes.empty.insert "name" old).get? key :=
      (Attributes.get?_insert_of_ne ne _ old).symm

theorem of_single (h : Misnamed r kept p [n] [n']) :
    n'.name = n.name ∧ (p ≠ .body → n'.attributes = n.attributes) ∧
      Misnamed r kept (p.inside kept n) n.children n'.children := by
  cases h with
  | same inner _ => exact ⟨rfl, fun _ => rfl, inner⟩
  | @renamed name as as' cs cs' _ _ m' declares _ _ inner _ =>
    obtain ⟨kind, hk, -⟩ := Member.ofNode?_eq_some_iff.mp declares
    have stays : Region.body.inside kept ⟨name, as, cs⟩ = .body :=
      Region.inside_member hk (.inr rfl)
    refine ⟨rfl, fun other => absurd rfl other, ?_⟩
    rwa [stays]

theorem children (h : Misnamed r kept p [n] [n']) (hq : p.inside kept n = q) :
    Misnamed r kept q n.children n'.children :=
  hq ▸ h.of_single.2.2

theorem attribute? (h : Misnamed r kept p [n] [n']) (hp : p ≠ .body) (key : String) :
    n'.attribute? key = n.attribute? key := by
  rw [Node.attribute?, Node.attribute?, h.of_single.2.1 hp]

theorem attributeD (h : Misnamed r kept p [n] [n']) (hp : p ≠ .body) (key : String) :
    n'.attributeD key = n.attributeD key := by
  rw [Node.attributeD, Node.attributeD, h.attribute? hp]

theorem forall₂ (h : Misnamed r kept p ns ns') :
    List.Forall₂ (fun n n' => Misnamed r kept p [n] [n']) ns ns' := by
  induction h with
  | nil => exact .nil
  | same inner _ _ rest => exact .cons (.same inner .nil) rest
  | renamed declares unknown others inner _ _ rest =>
    exact .cons (.renamed declares unknown others inner .nil) rest

theorem find (h : Misnamed r kept p [root] [root']) (name : String) :
    Option.Rel (fun n n' => ∃ p, Misnamed r kept p [n] [n']) (root.find? name)
      (root'.find? name) := by
  have somewhere {p : Region} {ns ns' : List Node} (h : Misnamed r kept p ns ns') :
      List.Forall₂ (fun n n' => ∃ p, Misnamed r kept p [n] [n']) ns ns' :=
    h.forall₂.imp fun _ _ hn => ⟨p, hn⟩
  rw [find?_eq_findIn?, find?_eq_findIn?]
  refine findIn?_rel (fun _ _ ⟨_, hn⟩ => hn.of_single.1) ?_ (somewhere h.of_single.2.2)
  rintro n n' ⟨p, hn⟩
  exact ⟨n'.children, [], by simp, somewhere hn.of_single.2.2, rfl⟩

theorem childrenNamed (h : Misnamed r kept p n.children n'.children) (name : String) :
    List.Forall₂ (fun c c' => c.name = name ∧ Misnamed r kept p [c] [c']) (n.childrenNamed name)
      (n'.childrenNamed name) := by
  refine (List.forall₂_and_left _ _).mpr ⟨fun c hc => name_of_mem_childrenNamed hc, ?_⟩
  exact childrenNamed_forall₂ (fun _ _ h => h.of_single.1) h.forall₂ name

theorem ofNodes_eq (h : Misnamed r kept p ns ns') (hp : p = .elsewhere) :
    Member.ofNodes ns' = Member.ofNodes ns := by
  induction h with
  | nil => rfl
  | @same p name attributes cs cs' ns ns' _ _ inner rest =>
    simp only [Member.ofNodes, Member.ofNode?]
    cases hk : MemberKind.ofElement? name with
    | none => exact rest hp
    | some kind =>
      have stays : p.inside kept ⟨name, attributes, cs⟩ = p := Region.inside_member hk (.inl hp)
      simp only [Option.map_some, inner (stays.trans hp), rest hp]
  | renamed => simp at hp

theorem members (h : Misnamed r kept p ns ns') (hp : p = .body) :
    Member.Misnamed r (Member.ofNodes ns) (Member.ofNodes ns') := by
  induction h with
  | nil => exact .nil
  | @same p name attributes cs cs' ns ns' _ _ inner rest =>
    simp only [Member.ofNodes, Member.ofNode?]
    cases hk : MemberKind.ofElement? name with
    | none => exact rest hp
    | some kind =>
      have stays : p.inside kept ⟨name, attributes, cs⟩ = p := Region.inside_member hk (.inr hp)
      exact .cons rfl (.inl rfl) (inner (stays.trans hp)) (rest hp)
  | @renamed name as as' cs cs' ns ns' m' declares unknown _ _ _ inner rest =>
    obtain ⟨kind, hk, rfl⟩ := Member.ofNode?_eq_some_iff.mp declares
    simp only at hk
    simp only [Member.ofNodes, Member.ofNode?, hk]
    exact .cons rfl (.inr unknown) (inner rfl) (rest rfl)

end Node.Misnamed

end FixTables
