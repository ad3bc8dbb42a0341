import Mathlib
import FixTables.Proofs.MessageLookup
import FixTables.Proofs.Partners
import FixTables.Proofs.ValidDictionary

namespace FixTables

namespace ComponentRegistry

variable {r : ComponentRegistry} {enters enters' : Member → Prop} {ms : List Member}

/-- A walk that enters more members meets at least as much. -/
theorem Meets.widen {m : Member} (h : r.Meets enters ms m) (more : ∀ x, enters x → enters' x) :
    r.Meets enters' ms m := by
  induction h with
  | here hm => exact .here hm
  | nested hm he _ ih => exact .nested hm (more _ he) ih
  | through hm hk hc _ ih => exact .through hm hk hc ih

theorem AcyclicFrom.narrow (h : r.AcyclicFrom enters' ms) (more : ∀ x, enters x → enters' x) :
    r.AcyclicFrom enters ms := by
  have widen {ns : List Member} {c : Component} (hc : r.ComesTo enters ns c) :
      r.ComesTo enters' ns c := by
    obtain ⟨m, hm, hk, hl⟩ := hc
    exact ⟨m, hm.widen more, hk, hl⟩
  exact fun c hc cyclic => h c (widen hc) (widen cyclic)

end ComponentRegistry

namespace Resolver

variable {r : Resolver} {refs ms ns : List Member} {out : List Resolved}

theorem Unfolds.append {first rest : List Resolved} (h : r.Unfolds refs ms first)
    (h' : r.Unfolds refs ns rest) : r.Unfolds refs (ms ++ ns) (first ++ rest) := by
  induction h with
  | nil => exact h'
  | field hk hf _ ih => exact .field hk hf (ih h')
  | group hk hf entry _ _ ih => exact .group hk hf entry (ih h')
  | component hk hc inner _ _ ih =>
    rw [List.append_assoc]
    exact .component hk hc inner (ih h')
  | unknown lenient hn _ ih => exact .unknown lenient hn (ih h')

/-- What unfolds from a list put together falls into what its parts unfold to. -/
theorem unfolds_append_iff :
    r.Unfolds refs (ms ++ ns) out ↔
      ∃ first rest, r.Unfolds refs ms first ∧ r.Unfolds refs ns rest ∧ out = first ++ rest := by
  constructor
  · intro h
    induction ms generalizing out with
    | nil => exact ⟨[], out, .nil, h, rfl⟩
    | cons m ms ih =>
      cases h with
      | field hk hf h =>
        obtain ⟨first, rest, hm, hn, rfl⟩ := ih h
        exact ⟨_, rest, .field hk hf hm, hn, rfl⟩
      | group hk hf entry h =>
        obtain ⟨first, rest, hm, hn, rfl⟩ := ih h
        exact ⟨_, rest, .group hk hf entry hm, hn, rfl⟩
      | component hk hc inner h =>
        obtain ⟨first, rest, hm, hn, rfl⟩ := ih h
        exact ⟨_, rest, .component hk hc inner hm, hn, (List.append_assoc ..).symm⟩
      | unknown lenient hu h =>
        obtain ⟨first, rest, hm, hn, rfl⟩ := ih h
        exact ⟨_, rest, .unknown lenient hu hm, hn, rfl⟩
  · rintro ⟨first, rest, hm, hn, rfl⟩
    exact hm.append hn

/-- Between what two lists unfold to stands what the members between them unfold to. -/
theorem Unfolds.between {hs ts : List Member} {header trailer : List Resolved}
    (h : r.Unfolds refs (hs ++ ms ++ ts) out) (hh : r.Unfolds refs hs header)
    (ht : r.Unfolds refs ts trailer) :
    ∃ body, r.Unfolds refs ms body ∧ out = header ++ body ++ trailer := by
  obtain ⟨front, last, hfront, hlast, rfl⟩ := unfolds_append_iff.mp h
  obtain ⟨first, body, hfirst, hbody, rfl⟩ := unfolds_append_iff.mp hfront
  -- Nothing unfolds in two ways, so the outer parts are those given.
  obtain rfl := hfirst.unique hh
  obtain rfl := hlast.unique ht
  exact ⟨body, hbody, rfl⟩

/-- Members that a location spreads over resolve, strictly or not: resolution enters less. -/
theorem exists_unfolds_of_spread
    (known : ∀ x, r.components.Meets Member.HoldsOthers ms x → r.Known x)
    (acyclic : r.components.AcyclicFrom Member.HoldsOthers ms) : ∃ out, r.Unfolds [] ms out := by
  have less : ∀ m, r.Enters m → m.HoldsOthers := fun m he => by simp [Member.HoldsOthers, he.1]
  obtain ⟨out, h⟩ := (resolve_succeeds_iff "").mpr
    ⟨fun x hx _ => known x (hx.widen less), acyclic.narrow less⟩
  exact ⟨out, unfolds_of_resolve h⟩

end Resolver

namespace TagSequence

variable {xs ys : List Resolved} {t p : Nat}

/-- A tag has its first place in the first of two lists that has it. -/
theorem firstPlace_append_list :
    firstPlace? (xs ++ ys) t =
      (firstPlace? xs t).or ((firstPlace? ys t).map (· + xs.length)) := by
  simp only [firstPlace?, List.findIdx?_append, Option.map_or, Option.map_map]
  congr 2
  funext i
  simp
  omega

theorem firstPlace_append_of_some (h : firstPlace? xs t = some p) :
    firstPlace? (xs ++ ys) t = some p := by
  rw [firstPlace_append_list, h, Option.some_or]

theorem firstPlace_append_of_none (h : firstPlace? xs t = none) :
    firstPlace? (xs ++ ys) t = (firstPlace? ys t).map (· + xs.length) := by
  rw [firstPlace_append_list, h, Option.none_or]

theorem firstPlace_eq_none_iff : firstPlace? xs t = none ↔ ∀ m ∈ xs, m.tag? ≠ some t := by
  simp [firstPlace?]

end TagSequence

/-- A layout puts the members of a body between those of a header and a trailer. Tags of the header
stand where they do in the header, and tags of the trailer alone behind all others. -/
structure MessageLayout.Frames (l : MessageLayout) (bound : Nat)
    (header body trailer : List Resolved) : Prop where
  members : l.members = header ++ body ++ trailer
  header_position : ∀ t i, header.findIdx? (·.tag? = some t) = some i → t < bound →
    l.position t = some (1 + i)
  trailer_position : ∀ t i, trailer.findIdx? (·.tag? = some t) = some i → t < bound →
    (∀ m ∈ header ++ body, m.tag? ≠ some t) →
      l.position t = some (header.length + body.length + 1 + i) ∧
        ∀ m ∈ header ++ body, ∀ u, m.tag? = some u → ∀ p, l.position u = some p →
          p < header.length + body.length + 1 + i

namespace MessageLayout

open TagSequence (firstPlace?)

variable {m : Message} {l : MessageLayout} {bound : Nat} {header body trailer : List Resolved}

/-- Positions in a layout are first places among its members. -/
theorem position_of_build {members : List Resolved}
    (h : (build m members bound).outcome = .ok l) (t : Nat) :
    l.position t = if t < bound then firstPlace? members t else none :=
  TagSequence.position_build (build_eq_ok h).2.2.2.2 t

theorem frames_of_build (h : (build m (header ++ body ++ trailer) bound).outcome = .ok l) :
    l.Frames bound header body trailer where
  members := (build_eq_ok h).2.2.2.1
  header_position t i hi ht := by
    have place : firstPlace? header t = some (1 + i) := by simp [firstPlace?, hi, Nat.add_comm]
    rw [position_of_build h, if_pos ht, List.append_assoc]
    exact TagSequence.firstPlace_append_of_some place
  trailer_position t i hi ht absent := by
    have place : firstPlace? trailer t = some (1 + i) := by simp [firstPlace?, hi, Nat.add_comm]
    have before : firstPlace? (header ++ body) t = none :=
      TagSequence.firstPlace_eq_none_iff.mpr absent
    constructor
    · rw [position_of_build h, if_pos ht, TagSequence.firstPlace_append_of_none before, place]
      simp
      omega
    · intro x hx u hu p hp
      obtain ⟨q, hq⟩ := Option.isSome_iff_exists.mp
        (TagSequence.firstPlace_isSome_iff.mpr ⟨x, hx, hu⟩)
      have bounds := TagSequence.firstPlace_bounds hq
      rw [position_of_build h, TagSequence.firstPlace_append_of_some hq] at hp
      split at hp
      next =>
        obtain rfl := Option.some.inj hp
        rw [List.length_append] at bounds
        omega
      next => simp at hp

end MessageLayout

namespace Message

theorem ofNode_parts {n : Node} {header trailer : List Member} {m : Message}
    (h : ofNode header trailer n = .ok m) : m.header = header ∧ m.trailer = trailer := by
  simp only [ofNode, except_bind_eq_ok_iff, make_eq_ok_iff] at h
  obtain ⟨_, ⟨_, _, _, rfl⟩, _, _, h⟩ := h
  obtain rfl := Except.ok.inj h
  exact ⟨rfl, rfl⟩

end Message

namespace Spec

variable {root : Node} {config : CompilerConfig} {s : Spec}

theorem Stages.message_parts (t : Stages root config s) {m : Message}
    (hm : m ∈ s.messages.messages) :
    m.header = s.header.children ∧ m.trailer = s.trailer.children := by
  obtain ⟨n, hn⟩ := t.message_read hm
  rw [t.header_eq, t.trailer_eq]
  exact Message.ofNode_parts hn

/-- Each layout has what the body of its message unfolds to, between what the header and the trailer
unfold to. -/
theorem Stages.layouts_between (t : Stages root config s) {header trailer : List Resolved}
    (hh : t.resolver.Unfolds [] s.header.children header)
    (ht : t.resolver.Unfolds [] s.trailer.children trailer) :
    List.Forall₂ (fun m l => ∃ body, t.resolver.Unfolds [] m.body body ∧
      l.members = header ++ body ++ trailer) s.messages.sortedByType s.layouts := by
  have parts := fun m hm => t.message_parts (s.messages.sortedByType_perm.mem_iff.mp hm) (m := m)
  refine ((List.forall₂_and_left _ _).mpr ⟨parts, t.layouts_of_messages⟩).imp ?_
  rintro m l ⟨⟨header_of, trailer_of⟩, resolves, -⟩
  have unfolds := Resolver.unfolds_of_resolve resolves
  rw [Message.members, header_of, trailer_of] at unfolds
  exact unfolds.between hh ht

/-- All messages share what their header and their trailer resolve to, and each puts its own body
between the two; so header tags stand at the same positions in all of them, and tags of the trailer
alone come last. -/
theorem layouts_share_frame (h : (compile root config).outcome = .ok s) :
    ∃ header trailer,
      (∀ context, (Resolver.resolve ⟨s.fields, s.components, config.strict⟩ s.header.children
        context).outcome = .ok header) ∧
      (∀ context, (Resolver.resolve ⟨s.fields, s.components, config.strict⟩ s.trailer.children
        context).outcome = .ok trailer) ∧
      List.Forall₂ (fun m l => l.IsOf m ∧ ∃ body,
        (∀ context, (Resolver.resolve ⟨s.fields, s.components, config.strict⟩ m.body
          context).outcome = .ok body) ∧
        l.Frames s.tagBound header body trailer) s.messages.sortedByType s.layouts := by
  obtain ⟨t⟩ := compile_eq_ok_iff.mp h
  have consistent := t.consistent
  obtain ⟨header, hh⟩ := Resolver.exists_unfolds_of_spread consistent.header_known
    consistent.header_acyclic
  obtain ⟨trailer, ht⟩ := Resolver.exists_unfolds_of_spread consistent.trailer_known
    consistent.trailer_acyclic
  have header_eq : s.header.children = Member.childrenOf t.sections.header := by
    rw [t.header_eq]
    rfl
  have trailer_eq : s.trailer.children = Member.childrenOf t.sections.trailer := by
    rw [t.trailer_eq]
    rfl
  rw [header_eq, trailer_eq]
  refine ⟨header, trailer, hh.resolve_eq_ok, ht.resolve_eq_ok, ?_⟩
  have parts := fun m hm => t.message_parts (s.messages.sortedByType_perm.mem_iff.mp hm) (m := m)
  refine ((List.forall₂_and_left _ _).mpr ⟨parts, t.layouts_of_messages⟩).imp ?_
  rintro m l ⟨⟨header_of, trailer_of⟩, resolves, builds⟩
  obtain ⟨name, type, typeId, _⟩ := MessageLayout.build_eq_ok builds
  refine ⟨⟨name, type, typeId⟩, ?_⟩
  have unfolds := Resolver.unfolds_of_resolve resolves
  rw [Message.members, header_of, trailer_of, header_eq, trailer_eq] at unfolds
  obtain ⟨body, hbody, split⟩ := unfolds.between hh ht
  refine ⟨body, hbody.resolve_eq_ok, ?_⟩
  rw [split] at builds
  exact MessageLayout.frames_of_build builds

/-- A dictionary whose messages repeat tags of their header and of their trailer. -/
def echoes : Node :=
  let member name := (Node.leaf "field").withAttribute "name" name
  let message name msgType :=
    ((Node.leaf "message").withAttribute "name" name).withAttribute "msgtype" msgType
  { ((Node.leaf "fix").withAttribute "major" "4").withAttribute "minor" "4" with
    children := [
      { Node.leaf "fields" with
        children := [FieldRegistry.fieldNode "8" "BeginString" "STRING",
          FieldRegistry.fieldNode "52" "SendingTime" "UTCTIMESTAMP",
          FieldRegistry.fieldNode "58" "Text" "STRING",
          FieldRegistry.fieldNode "89" "Signature" "DATA",
          FieldRegistry.fieldNode "10" "CheckSum" "STRING"] },
      { Node.leaf "header" with children := [member "BeginString", member "SendingTime"] },
      { Node.leaf "trailer" with children := [member "Signature", member "CheckSum"] },
      { Node.leaf "messages" with
        children := [{ message "News" "B" with children := [member "Text", member "SendingTime"] },
          (message "Email" "C").append (member "Signature")] }] }

theorem layouts_share_frame_of_echoes :
    ∃ s, (compile echoes .default).outcome = .ok s ∧ s.tagBound = 90 ∧
      List.Forall₂ (fun m l => l.IsOf m ∧ ∃ body,
        (∀ context, (Resolver.resolve ⟨s.fields, s.components, true⟩ m.body
          context).outcome = .ok body) ∧
        l.Frames s.tagBound [.field 8 "BeginString" false, .field 52 "SendingTime" false] body
          [.field 89 "Signature" false, .field 10 "CheckSum" false])
        s.messages.sortedByType s.layouts := by
  have compiled : ((compile echoes .default).outcome.map fun s => (s.tagBound,
      (Resolver.resolve ⟨s.fields, s.components, true⟩ s.header.children "").outcome.toOption,
      (Resolver.resolve ⟨s.fields, s.components, true⟩ s.trailer.children "").outcome.toOption)) =
        .ok (90, some [.field 8 "BeginString" false, .field 52 "SendingTime" false],
          some [.field 89 "Signature" false, .field 10 "CheckSum" false]) := by
    cbv
  cases hs : (compile echoes .default).outcome with
  | error e => simp [hs, Except.map] at compiled
  | ok s =>
    obtain ⟨header, trailer, hh, ht, frames⟩ := layouts_share_frame hs
    have strict : CompilerConfig.default.strict = true := rfl
    rw [strict] at hh ht frames
    simp only [hs, Except.map, hh, ht, Except.toOption, Except.ok.injEq, Prod.mk.injEq,
      Option.some.injEq] at compiled
    obtain ⟨bound, rfl, rfl⟩ := compiled
    exact ⟨s, rfl, bound, frames⟩

end Spec

end FixTables
