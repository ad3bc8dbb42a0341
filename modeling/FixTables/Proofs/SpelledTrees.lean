import FixTables.Markup.Document
import FixTables.Proofs.Outcome
import Mathlib.Data.List.Nodup
import Mathlib.Data.List.Perm.Basic
import Mathlib.Order.Lattice

namespace FixTables

namespace Attributes

/-- A new attribute joins the others. -/
theorem insertEntry_perm {name value : String} {es : List (String × String)}
    (new : name ∉ es.map Prod.fst) : (insertEntry name value es).Perm ((name, value) :: es) := by
  induction es with
  | nil => exact .refl _
  | cons e es ih =>
    obtain ⟨k, v⟩ := e
    rw [List.map_cons, List.mem_cons, not_or] at new
    rw [insertEntry]
    split
    next => exact .refl _
    next =>
      split
      next => exact ((ih new.2).cons _).trans (.swap ..)
      next below above =>
        exact absurd (String.le_antisymm (String.not_lt.mp above) (String.not_lt.mp below)) new.1

theorem foldl_insert_perm {as : Attributes} {es : List (String × String)}
    (distinct : ((as.entries ++ es).map Prod.fst).Nodup) :
    (as.entries ++ es).Perm
      (es.foldl (fun as (name, value) => as.insert name value) as).entries := by
  induction es generalizing as with
  | nil => simp
  | cons e es ih =>
    obtain ⟨name, value⟩ := e
    have moved : (as.entries ++ (name, value) :: es).Perm ((name, value) :: as.entries ++ es) :=
      List.perm_middle
    have distinct' := (moved.map Prod.fst).nodup_iff.mp distinct
    have new : name ∉ as.entries.map Prod.fst := by
      rw [List.cons_append, List.map_cons, List.nodup_cons, List.map_append, List.mem_append,
        not_or] at distinct'
      exact distinct'.1.1
    have joined : ((name, value) :: as.entries ++ es).Perm ((as.insert name value).entries ++ es) :=
      (insertEntry_perm new).symm.append_right es
    rw [List.foldl_cons]
    exact (moved.trans joined).trans (ih ((joined.map Prod.fst).nodup_iff.mp distinct'))

/-- Attributes without a repeated name are kept, all of them and nothing else. -/
theorem ofList_eq_iff_perm {es : List (String × String)} {as : Attributes}
    (distinct : (es.map Prod.fst).Nodup) : ofList es = as ↔ es.Perm as.entries := by
  have kept : es.Perm (ofList es).entries := @foldl_insert_perm empty es distinct
  constructor
  · rintro rfl
    exact kept
  · intro h
    have same : (ofList es).entries = as.entries :=
      (kept.symm.trans h).eq_of_pairwise (fun _ _ _ _ h h' => absurd h' (String.lt_asymm h))
        (ofList es).ascending as.ascending
    cases as
    cases hl : ofList es
    simpa [hl] using same

theorem nodup_keys (as : Attributes) : (as.entries.map Prod.fst).Nodup := by
  rw [List.Nodup, List.pairwise_map]
  refine as.ascending.imp fun {a b} h same => ?_
  rw [same] at h
  exact String.lt_irrefl _ h

end Attributes

namespace Event

/-- The attributes that a tag carries. -/
def attributes : Event → List (String × String)
  | openTag _ attributes | emptyTag _ attributes => attributes
  | closeTag _ | aside _ => []

def isTag : Event → Bool
  | aside _ => false
  | _ => true

/-- What a reader may meet inside the elements `opened`: a tag repeats no attribute, and one that
closes an element closes the innermost. -/
def Fits (opened : List String) (e : Event) : Prop :=
  (e.attributes.map Prod.fst).Nodup ∧ ∀ name, e = closeTag name → opened.head? = some name

end Event

/-- Events as a reader delivers them from inside the elements `opened` on. -/
def Delivered : List String → List Event → Prop
  | _, [] => True
  | opened, e :: es => e.Fits opened ∧ Delivered (e.reopen opened) es

/-- Tags that spell elements one after another: each begins and ends its own, with its children
between, or stands for an element without children. -/
inductive Spells : List Event → List Node → Prop
  | nil : Spells [] []
  | emptyTag {name : String} {as : List (String × String)} {attributes : Attributes}
      {tags : List Event} {ns : List Node} (carried : as.Perm attributes.entries)
      (rest : Spells tags ns) : Spells (.emptyTag name as :: tags) (⟨name, attributes, []⟩ :: ns)
  | element {name : String} {as : List (String × String)} {attributes : Attributes}
      {inner tags : List Event} {children ns : List Node} (carried : as.Perm attributes.entries)
      (inside : Spells inner children) (rest : Spells tags ns) :
      Spells (.openTag name as :: inner ++ .closeTag name :: tags)
        (⟨name, attributes, children⟩ :: ns)

namespace Spells

variable {tags tags' : List Event} {ns ns' : List Node} {n : Node}
  {as : List (String × String)}

theorem append (h : Spells tags ns) (h' : Spells tags' ns') :
    Spells (tags ++ tags') (ns ++ ns') := by
  induction h with
  | nil => exact h'
  | emptyTag carried _ ih => exact .emptyTag carried ih
  | element carried inside _ _ ih => simpa using Spells.element carried inside ih

theorem eq_nil (h : Spells tags []) : tags = [] := by
  cases h
  rfl

/-- An element with its children spelled between its two tags. -/
theorem enclose (carried : as.Perm n.attributes.entries) (inside : Spells tags n.children) :
    Spells (.openTag n.name as :: tags ++ [.closeTag n.name]) [n] := by
  cases n
  exact .element carried inside .nil

end Spells

/-- A second element ends that lies in no other. -/
def SecondRoot (name : String) (tags : List Event) : Prop :=
  ∃ first second done rest, tags = done ++ rest ∧ Spells done [first, second] ∧ second.name = name

/-- An element begins after which only whole elements come. -/
def LeftOpen (name : String) (tags : List Event) : Prop :=
  ∃ before as inner children, tags = before ++ .openTag name as :: inner ∧ Spells inner children

theorem SecondRoot.append {name : String} {tags : List Event} (h : SecondRoot name tags)
    (tags' : List Event) : SecondRoot name (tags ++ tags') := by
  obtain ⟨first, second, done, rest, rfl, spelled, named⟩ := h
  exact ⟨first, second, done, rest ++ tags', by simp, spelled, named⟩

namespace PartialDocument

/-- Tags that lead to a document read in part: the root is spelled, and of each open element its
first tag and the children finished so far. -/
inductive ReadFrom : List Event → PartialDocument → Prop
  | top {tags : List Event} {root : Option Node} (spelled : Spells tags root.toList) :
      ReadFrom tags ⟨[], root⟩
  | inside {before inner : List Event} {outer : List Node} {root : Option Node} {n : Node}
      {as : List (String × String)} (outside : ReadFrom before ⟨outer, root⟩)
      (carried : as.Perm n.attributes.entries) (spelled : Spells inner n.children) :
      ReadFrom (before ++ .openTag n.name as :: inner) ⟨n :: outer, root⟩

variable {d d' : PartialDocument} {tags tags' : List Event} {e : Event} {n : Node}
  {fault : StructureError}

def openNames (d : PartialDocument) : List String := d.opened.map (·.name)

theorem ReadFrom.finish (h : d.ReadFrom tags) (spelled : Spells tags' [n])
    (hf : d.finish n = .ok d') : d'.ReadFrom (tags ++ tags') ∧ d'.openNames = d.openNames := by
  cases h with
  | @top _ root whole =>
    cases root with
    | none =>
      obtain rfl := Except.ok.inj hf
      exact ⟨.top (whole.append spelled), rfl⟩
    | some _ => simp [PartialDocument.finish] at hf
  | @inside _ _ _ _ parent _ outside carried whole =>
    obtain rfl := Except.ok.inj hf
    refine ⟨?_, rfl⟩
    rw [List.append_assoc, List.cons_append]
    exact .inside (n := parent.append n) outside carried (whole.append spelled)

theorem ReadFrom.finish_error (h : d.ReadFrom tags) (spelled : Spells tags' [n])
    (hf : d.finish n = .error fault) :
    fault = .secondRoot n.name ∧ SecondRoot n.name (tags ++ tags') := by
  cases h with
  | @top _ root whole =>
    cases root with
    | none => simp [PartialDocument.finish] at hf
    | some first =>
      obtain rfl := Except.error.inj hf
      exact ⟨rfl, first, n, tags ++ tags', [], by simp, whole.append spelled, rfl⟩
  | inside => simp [PartialDocument.finish] at hf

/-- What a document read in part comes to with the next tag. -/
theorem ReadFrom.step (h : d.ReadFrom tags) (tag : e.isTag = true) (fits : e.Fits d.openNames) :
    (∀ d', d.step e = .ok d' → d'.ReadFrom (tags ++ [e]) ∧ d'.openNames = e.reopen d.openNames) ∧
      ∀ fault, d.step e = .error fault →
        ∃ name, fault = .secondRoot name ∧ SecondRoot name (tags ++ [e]) := by
  obtain ⟨distinct, closes⟩ := fits
  cases e with
  | openTag name as =>
    have carried := (Attributes.ofList_eq_iff_perm distinct).mp rfl
    refine ⟨fun d' hs => ?_, fun fault hs => by simp [PartialDocument.step] at hs⟩
    obtain rfl := Except.ok.inj hs
    exact ⟨.inside (n := ⟨name, .ofList as, []⟩) h carried .nil, rfl⟩
  | emptyTag name as =>
    have carried := (Attributes.ofList_eq_iff_perm distinct).mp rfl
    have spelled : Spells [.emptyTag name as] [⟨name, .ofList as, []⟩] := .emptyTag carried .nil
    refine ⟨fun d' hs => h.finish spelled hs, fun fault hs => ?_⟩
    exact ⟨_, h.finish_error spelled hs⟩
  | closeTag name =>
    have innermost := closes name rfl
    cases h with
    | top => simp [openNames] at innermost
    | @inside before inner outer root n as outside carried whole =>
      obtain rfl : n.name = name := by simpa [openNames] using innermost
      have spelled := Spells.enclose carried whole
      rw [List.append_assoc]
      refine ⟨fun d' hs => outside.finish spelled hs, fun fault hs => ?_⟩
      exact ⟨_, outside.finish_error spelled hs⟩
  | aside what => simp [Event.isTag] at tag

/-- Reading tags keeps up what they spell; it stops at nothing but a second root. -/
theorem ReadFrom.run (h : d.ReadFrom tags) (all : ∀ e ∈ tags', e.isTag = true)
    (delivered : Delivered d.openNames tags') :
    (∀ d', tags'.foldlM PartialDocument.step d = .ok d' → d'.ReadFrom (tags ++ tags')) ∧
      ∀ fault, tags'.foldlM PartialDocument.step d = .error fault →
        ∃ name, fault = .secondRoot name ∧ SecondRoot name (tags ++ tags') := by
  induction tags' generalizing d tags with
  | nil =>
    refine ⟨fun d' hr => ?_, fun fault hr => by simp [pure, Except.pure] at hr⟩
    obtain rfl := Except.ok.inj hr
    simpa using h
  | cons e tags' ih =>
    obtain ⟨tag, all⟩ := List.forall_mem_cons.mp all
    obtain ⟨fits, delivered⟩ := delivered
    obtain ⟨kept, stopped⟩ := h.step tag fits
    rw [List.append_cons, List.foldlM_cons]
    cases hs : d.step e with
    | ok d₁ =>
      obtain ⟨h₁, names⟩ := kept d₁ hs
      exact ih h₁ all (names ▸ delivered)
    | error fault =>
      refine ⟨fun d' hr => by simp [bind, Except.bind] at hr, fun fault' hr => ?_⟩
      obtain ⟨name, rfl, second⟩ := stopped fault hs
      obtain rfl := Except.error.inj hr
      exact ⟨name, rfl, second.append tags'⟩

theorem foldlM_finish_inside (ns : List Node) (n : Node) (outer : List Node) (root : Option Node) :
    ns.foldlM (fun d n => d.finish n) (⟨n :: outer, root⟩ : PartialDocument) =
      .ok ⟨⟨n.name, n.attributes, n.children ++ ns⟩ :: outer, root⟩ := by
  induction ns generalizing n with
  | nil =>
    cases n
    simp [pure, Except.pure]
  | cons m ns ih =>
    rw [List.foldlM_cons]
    show ns.foldlM _ (⟨n.append m :: outer, root⟩ : PartialDocument) = _
    rw [ih]
    simp [Node.append]

/-- Tags finish the elements that they spell one after another. -/
theorem foldlM_step_of_spells {ns : List Node} (h : Spells tags ns) (d : PartialDocument) :
    tags.foldlM PartialDocument.step d = ns.foldlM (fun d n => d.finish n) d := by
  have read {as : List (String × String)} {attributes : Attributes}
      (carried : as.Perm attributes.entries) : Attributes.ofList as = attributes :=
    (Attributes.ofList_eq_iff_perm
      ((carried.map Prod.fst).nodup_iff.mpr attributes.nodup_keys)).mpr carried
  induction h generalizing d with
  | nil => rfl
  | emptyTag carried _ ih =>
    obtain rfl := read carried
    rw [List.foldlM_cons, List.foldlM_cons]
    exact bind_congr ih
  | @element name as attributes inner tags children ns carried _ _ inside ih =>
    obtain rfl := read carried
    rw [List.cons_append, List.foldlM_cons, List.foldlM_cons]
    show (inner ++ Event.closeTag name :: tags).foldlM PartialDocument.step
      ⟨⟨name, .ofList as, []⟩ :: d.opened, d.root⟩ = _
    rw [List.foldlM_append, inside, foldlM_finish_inside]
    show (Event.closeTag name :: tags).foldlM PartialDocument.step _ = _
    rw [List.foldlM_cons]
    exact bind_congr ih

/-- What builds no element is passed over. -/
theorem foldlM_step_filter (events : List Event) (d : PartialDocument) :
    events.foldlM PartialDocument.step d =
      (events.filter Event.isTag).foldlM PartialDocument.step d := by
  induction events generalizing d with
  | nil => rfl
  | cons e events ih =>
    cases e with
    | aside what => exact ih d
    | openTag | emptyTag | closeTag =>
      rw [List.filter_cons_of_pos rfl, List.foldlM_cons, List.foldlM_cons]
      exact bind_congr ih

end PartialDocument

theorem Delivered.filter {events : List Event} {opened : List String}
    (h : Delivered opened events) : Delivered opened (events.filter Event.isTag) := by
  induction events generalizing opened with
  | nil => exact h
  | cons e events ih =>
    obtain ⟨fits, rest⟩ := h
    cases e with
    | aside what => exact ih rest
    | openTag | emptyTag | closeTag => exact ⟨fits, ih rest⟩

/-- What reading the tags of a document has to come to: the one tree that they spell, or a report
of the first second root, of the innermost element left open, or of no root at all. -/
structure SpelledBy (tags : List Event) (outcome : Except StructureError Node) : Prop where
  ok_iff : ∀ t, outcome = .ok t ↔ Spells tags [t]
  secondRoot_iff : ∀ name, outcome = .error (.secondRoot name) ↔ SecondRoot name tags
  unclosed_iff : ∀ name, outcome = .error (.unclosed name) ↔
    (¬ ∃ other, SecondRoot other tags) ∧ LeftOpen name tags
  noRoot_iff : outcome = .error .noRoot ↔ tags = []

namespace Node

open PartialDocument

variable {tags events : List Event} {t : Node} {name : String}

theorem ofEvents_of_spells (h : Spells tags [t]) : ofEvents tags = .ok t := by
  rw [ofEvents, foldlM_step_of_spells h]
  rfl

theorem ofEvents_of_secondRoot (h : SecondRoot name tags) :
    ofEvents tags = .error (.secondRoot name) := by
  obtain ⟨first, second, done, rest, rfl, spelled, rfl⟩ := h
  rw [ofEvents, List.foldlM_append, foldlM_step_of_spells spelled]
  rfl

/-- Every outcome but a tree is told with what the tags have to do with it. -/
theorem ofEvents_cases (all : ∀ e ∈ tags, e.isTag = true) (delivered : Delivered [] tags) :
    (∃ t, ofEvents tags = .ok t ∧ Spells tags [t]) ∨
      (∃ name, ofEvents tags = .error (.secondRoot name) ∧ SecondRoot name tags) ∨
      (∃ name, ofEvents tags = .error (.unclosed name) ∧ LeftOpen name tags) ∨
      ofEvents tags = .error .noRoot ∧ tags = [] := by
  have start : PartialDocument.empty.ReadFrom [] := .top .nil
  obtain ⟨kept, stopped⟩ := start.run all delivered
  rw [List.nil_append] at kept stopped
  rw [ofEvents]
  cases hr : tags.foldlM PartialDocument.step .empty with
  | error fault =>
    obtain ⟨name, rfl, second⟩ := stopped fault hr
    exact .inr (.inl ⟨name, rfl, second⟩)
  | ok d =>
    cases kept d hr with
    | @inside before inner outer root n as outside carried spelled =>
      exact .inr (.inr (.inl ⟨n.name, rfl, before, as, inner, n.children, rfl, spelled⟩))
    | @top _ root spelled =>
      cases root with
      | some t => exact .inl ⟨t, rfl, spelled⟩
      | none => exact .inr (.inr (.inr ⟨rfl, spelled.eq_nil⟩))

theorem ofEvents_of_leftOpen (all : ∀ e ∈ tags, e.isTag = true) (delivered : Delivered [] tags)
    (single : ¬ ∃ other, SecondRoot other tags) (h : LeftOpen name tags) :
    ofEvents tags = .error (.unclosed name) := by
  obtain ⟨before, as, inner, children, rfl, spelled⟩ := h
  have start : PartialDocument.empty.ReadFrom [] := .top .nil
  obtain ⟨-, stopped⟩ := start.run all delivered
  rw [List.nil_append, List.foldlM_append] at stopped
  rw [ofEvents, List.foldlM_append]
  cases hb : before.foldlM PartialDocument.step .empty with
  | error fault =>
    rw [hb] at stopped
    obtain ⟨other, -, second⟩ := stopped fault rfl
    exact absurd ⟨other, second⟩ single
  | ok d =>
    show (List.foldlM PartialDocument.step d (.openTag name as :: inner) >>= result) = _
    rw [List.foldlM_cons]
    show (inner.foldlM PartialDocument.step ⟨⟨name, .ofList as, []⟩ :: d.opened, d.root⟩ >>=
      result) = _
    rw [foldlM_step_of_spells spelled, foldlM_finish_inside]
    rfl

theorem ofEvents_spelled (all : ∀ e ∈ tags, e.isTag = true) (delivered : Delivered [] tags) :
    SpelledBy tags (ofEvents tags) := by
  have cases := ofEvents_cases all delivered
  refine ⟨fun t => ⟨fun h => ?_, ofEvents_of_spells⟩,
    fun name => ⟨fun h => ?_, ofEvents_of_secondRoot⟩, fun name => ⟨fun h => ⟨?_, ?_⟩, fun h => ?_⟩,
    fun h => ?_, ?_⟩
  · simpa [h] using cases
  · simpa [h] using cases
  · rintro ⟨other, second⟩
    rw [ofEvents_of_secondRoot second] at h
    simp at h
  · simpa [h] using cases
  · exact ofEvents_of_leftOpen all delivered h.1 h.2
  · simpa [h] using cases
  · rintro rfl
    rfl

end Node

end FixTables
