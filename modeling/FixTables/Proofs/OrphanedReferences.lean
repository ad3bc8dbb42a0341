import FixTables.Proofs.LenientCompilation
import FixTables.Proofs.Placeholders

namespace FixTables

namespace Node

/-- Puts an element in the place of the first with a name, depth first in document order. -/
def replaceFirstIn (name : String) (new : Node) : List Node → List Node
  | [] => []
  | ⟨element, attributes, children⟩ :: ns =>
    if element = name then new :: ns
    else if (findIn? name children).isSome then
      ⟨element, attributes, replaceFirstIn name new children⟩ :: ns
    else ⟨element, attributes, children⟩ :: replaceFirstIn name new ns

/-- Puts an element in the place of the first descendant with a name. -/
def replaceFirst (root : Node) (name : String) (new : Node) : Node :=
  { root with children := replaceFirstIn name new root.children }

/-- A reference to a field or a group that has been given the name of no field. -/
def Orphaned (fields : FieldRegistry) (c c' : Node) : Prop :=
  c.name ∈ ["field", "group"] ∧
    ∃ name, fields.lookup name = none ∧ c' = c.withAttribute "name" name

/-- An element that has stayed as it was or is a message some of whose references have been
orphaned. -/
def OrphanedIn (fields : FieldRegistry) (n n' : Node) : Prop :=
  n' = n ∨ n.name = "message" ∧ ∃ cs',
    List.Forall₂ (fun c c' => c' = c ∨ c.Orphaned fields c') n.children cs' ∧
      n' = { n with children := cs' }

theorem Misnamed.of_forall₂ {r : Resolver} {kept : List String} {p : Region} {ns ns' : List Node}
    (h : List.Forall₂ (fun n n' => Misnamed r kept p [n] [n']) ns ns') :
    Misnamed r kept p ns ns' := by
  induction h with
  | nil => exact .nil
  | cons hn _ ih => exact .append hn ih

section Replacement

variable {name : String} {n new : Node} {ns : List Node}

theorem replaceFirstIn_cons (n new : Node) (ns : List Node) :
    replaceFirstIn name new (n :: ns) =
      if n.name = name then new :: ns
      else if (findIn? name n.children).isSome then
        { n with children := replaceFirstIn name new n.children } :: ns
      else n :: replaceFirstIn name new ns := by
  cases n
  rw [replaceFirstIn]

/-- Induction along the search for an element to where another is put in its place. -/
theorem replaceFirst_induction {motive : List Node → List Node → Prop}
    (here : ∀ ns, n.name = name → motive (n :: ns) (new :: ns))
    (inside : ∀ first ns cs', first.name ≠ name → motive first.children cs' →
      motive (first :: ns) ({ first with children := cs' } :: ns))
    (later : ∀ first ns ns', first.name ≠ name → findIn? name first.children = none →
      motive ns ns' → motive (first :: ns) (first :: ns'))
    (found : findIn? name ns = some n) : motive ns (replaceFirstIn name new ns) := by
  induction ns using forest_induction with
  | nil => simp [findIn?] at found
  | cons first ns nested rest =>
    rw [findIn?_cons] at found
    rw [replaceFirstIn_cons]
    by_cases named : first.name = name
    · rw [if_pos named] at found ⊢
      obtain rfl := Option.some.inj found
      exact here ns named
    · rw [if_neg named] at found ⊢
      cases inner : findIn? name first.children with
      | some deep =>
        rw [inner, Option.some_or] at found
        obtain rfl := Option.some.inj found
        rw [Option.isSome_some, if_pos rfl]
        exact inside first ns _ named (nested inner)
      | none =>
        rw [inner, Option.none_or] at found
        rw [if_neg (by simp)]
        exact later first ns _ named inner (rest found)

theorem find?_replaceFirst {root : Node} (named : new.name = name)
    (found : root.find? name = some n) : (root.replaceFirst name new).find? name = some new := by
  rw [find?_eq_findIn?] at found ⊢
  refine replaceFirst_induction (motive := fun _ ns' => findIn? name ns' = some new) ?_ ?_ ?_ found
  · intro ns _
    rw [findIn?_cons, if_pos named]
  · intro first ns cs' other ih
    have element : ({ first with children := cs' } : Node).name ≠ name := other
    rw [findIn?_cons, if_neg element, ih, Option.some_or]
  · intro first ns ns' other absent ih
    rw [findIn?_cons, if_neg other, absent, Option.none_or, ih]

/-- Wherever the section of messages stands, its own elements are in the region of messages. -/
theorem misnamed_replaceFirstIn {r : Resolver} {kept : List String} {cs' : List Node}
    (found : findIn? "messages" ns = some n) (like : Misnamed r kept .messages n.children cs')
    (p : Region) :
    Misnamed r kept p ns (replaceFirstIn "messages" { n with children := cs' } ns) := by
  refine replaceFirst_induction (motive := fun ns ns' => ∀ p, Misnamed r kept p ns ns') ?_ ?_ ?_
    found p
  · intro ns named p
    exact .append (.within (Region.inside_messages named) like) (.refl ns)
  · intro first ns cs' _ ih p
    exact .append (.within rfl (ih _)) (.refl ns)
  · intro first ns ns' _ _ ih p
    exact .append (.refl [first]) (ih p)

end Replacement

section Members

variable {fields : FieldRegistry} {c c' n n' : Node} {cs cs' : List Node}

theorem Orphaned.member (h : c.Orphaned fields c') :
    ∃ m m', Member.ofNode? c = some m ∧ Member.ofNode? c' = some m' ∧ m.Orphaned fields m' := by
  obtain ⟨element, name, absent, rfl⟩ := h
  obtain ⟨kind, hk, reference⟩ :
      ∃ kind, MemberKind.ofElement? c.name = some kind ∧ kind ≠ .component := by
    simp only [List.mem_cons, List.not_mem_nil, or_false] at element
    rcases element with element | element <;> rw [element]
    · exact ⟨.field, rfl, nofun⟩
    · exact ⟨.group, rfl, nofun⟩
  refine ⟨_, _, Member.ofNode?_eq_some_iff.mpr ⟨kind, hk, rfl⟩,
    Member.ofNode?_eq_some_iff.mpr ⟨kind, hk, rfl⟩, reference, name, absent, ?_⟩
  have named : (c.withAttribute "name" name).attributeD "name" = name := by
    rw [attributeD, attribute?, withAttribute, Attributes.get?_insert_self]
    rfl
  have required : (c.withAttribute "name" name).attribute? "required" = c.attribute? "required" :=
    Attributes.get?_insert_of_ne (by decide) c.attributes name
  rw [named, required]
  rfl

theorem Orphaned.misnamed {r : Resolver} {kept : List String} (h : c.Orphaned r.fields c') :
    Misnamed r kept .body [c] [c'] := by
  obtain ⟨m, m', -, declares, reference, name, absent, rfl⟩ := h.member
  obtain ⟨-, given, -, rfl⟩ := h
  cases c
  refine .renamed declares (Resolver.not_known_of_lookup reference absent) ?_ (.refl _) .nil
  exact fun key ne => Attributes.get?_insert_of_ne ne _ given

/-- Members of elements some of which have been orphaned. -/
theorem ofNodes_orphaned (h : List.Forall₂ (fun c c' => c' = c ∨ c.Orphaned fields c') cs cs') :
    List.Forall₂ (fun m m' => m' = m ∨ m.Orphaned fields m') (Member.ofNodes cs)
      (Member.ofNodes cs') := by
  induction h with
  | nil => exact .nil
  | @cons c c' cs cs' hc _ ih =>
    rcases hc with rfl | hc
    · cases hm : Member.ofNode? c' with
      | none => simpa only [Member.ofNodes, hm] using ih
      | some m => simpa only [Member.ofNodes, hm] using List.Forall₂.cons (.inl rfl) ih
    · obtain ⟨m, m', hm, hm', orphaned⟩ := hc.member
      simpa only [Member.ofNodes, hm, hm'] using List.Forall₂.cons (.inr orphaned) ih

namespace OrphanedIn

theorem name (h : n.OrphanedIn fields n') : n'.name = n.name := by
  obtain rfl | ⟨-, _, -, rfl⟩ := h <;> rfl

theorem attributeD (h : n.OrphanedIn fields n') (key : String) :
    n'.attributeD key = n.attributeD key := by
  obtain rfl | ⟨-, _, -, rfl⟩ := h <;> rfl

theorem children (h : n.OrphanedIn fields n') :
    List.Forall₂ (fun c c' => c' = c ∨ c.Orphaned fields c') n.children n'.children := by
  obtain rfl | ⟨-, cs', hcs, rfl⟩ := h
  · exact List.forall₂_same.mpr fun _ _ => .inl rfl
  · exact hcs

/-- The members of a message before and after, between the header and the trailer. -/
theorem members (h : n.OrphanedIn fields n') (header trailer : List Member) :
    List.Forall₂ (fun m m' => m' = m ∨ m.Orphaned fields m')
      (header ++ Member.childrenOf n ++ trailer) (header ++ Member.childrenOf n' ++ trailer) := by
  have same (ms : List Member) : List.Forall₂ (fun m m' => m' = m ∨ m.Orphaned fields m') ms ms :=
    List.forall₂_same.mpr fun _ _ => .inl rfl
  exact List.rel_append (List.rel_append (same header) (ofNodes_orphaned h.children)) (same trailer)

theorem misnamed {r : Resolver} {kept : List String} (h : n.OrphanedIn r.fields n') :
    Misnamed r kept .messages [n] [n'] := by
  obtain rfl | ⟨element, cs', hcs, rfl⟩ := h
  · exact .refl _
  · refine .within (Region.inside_message element) (.of_forall₂ (hcs.imp ?_))
    rintro c c' (rfl | hc)
    · exact .refl _
    · exact hc.misnamed

end OrphanedIn

end Members

end Node

end FixTables
