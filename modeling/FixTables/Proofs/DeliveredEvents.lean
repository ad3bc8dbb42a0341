import Mathlib
import FixTables.Proofs.SpelledTrees

namespace FixTables

/-- A tag whose attributes can be read has none of them twice, and none of those seen before. -/
theorem readAttributes_distinct {size : Nat} {seen : List (String × Nat)} {cs : List Char}
    {as : List (String × String)} (h : readAttributes size seen cs = .ok as) :
    (as.map Prod.fst).Nodup ∧ ∀ key ∈ as.map Prod.fst, seen.lookup key = none := by
  fun_induction readAttributes size seen cs generalizing as with
  | case1 =>
    obtain rfl := Except.ok.inj h
    simp
  | case6 seen _ _ _ _ _ place key _ _ new =>
    rename_i ih
    obtain ⟨value, -, h⟩ := except_bind_eq_ok_iff.mp h
    obtain ⟨others, ho, h⟩ := except_bind_eq_ok_iff.mp h
    obtain rfl := Except.ok.inj h
    obtain ⟨distinct, fresh⟩ := ih ho
    have apart {k : String} (hk : k ∈ others.map Prod.fst) : k ≠ key ∧ seen.lookup k = none := by
      have unseen := fresh k hk
      rw [List.lookup_cons] at unseen
      split at unseen
      next => simp at unseen
      next other => exact ⟨by simpa using other, unseen⟩
    rw [List.map_cons, List.nodup_cons, List.forall_mem_cons]
    exact ⟨⟨fun hk => (apart hk).1 rfl, distinct⟩, new, fun k hk => (apart hk).2⟩
  | _ => simp at h

theorem Event.fits_aside (opened : List String) (what : Aside) : (aside what).Fits opened :=
  ⟨.nil, nofun⟩

theorem asAside_fits {opened : List String} {r : Except MarkupError (Aside × List Char)}
    {e : Event} {rest : List Char} (h : asAside r = .ok (e, rest)) : e.Fits opened := by
  obtain ⟨⟨what, _⟩, -, he⟩ := except_map_eq_ok_iff.mp h
  obtain rfl := (Prod.mk.inj he).1
  exact Event.fits_aside opened what

theorem readCloseTag_innermost {opened : List String} {cs rest : List Char} {name : String}
    (h : readCloseTag opened cs = .ok (name, rest)) : opened.head? = some name := by
  obtain ⟨⟨content, _⟩, -, h⟩ := except_bind_eq_ok_iff.mp h
  cases opened with
  | nil => simp at h
  | cons expected outer =>
    simp only at h
    split at h
    next same =>
      obtain ⟨rfl, -⟩ := Prod.mk.inj (Except.ok.inj h)
      exact congrArg some same
    next => simp at h

theorem readOpenTag_fits {opened : List String} {cs rest : List Char} {e : Event}
    (h : readOpenTag cs = .ok (e, rest)) : e.Fits opened := by
  obtain ⟨⟨content, _⟩, -, h⟩ := except_bind_eq_ok_iff.mp h
  obtain ⟨as, ha, h⟩ := except_bind_eq_ok_iff.mp h
  obtain ⟨distinct, -⟩ := readAttributes_distinct ha
  obtain ⟨rfl, -⟩ := Prod.mk.inj (Except.ok.inj h)
  split <;> exact ⟨distinct, nofun⟩

theorem readEvent_fits {opened : List String} {c : Char} {cs rest : List Char} {e : Event}
    (h : readEvent opened c cs = .ok (e, rest)) : e.Fits opened := by
  unfold readEvent at h
  split at h
  next =>
    unfold readMarkup at h
    split at h
    next =>
      obtain ⟨⟨name, _⟩, hc, he⟩ := except_map_eq_ok_iff.mp h
      obtain rfl := (Prod.mk.inj he).1
      refine ⟨.nil, fun _ same => ?_⟩
      obtain rfl := Event.closeTag.inj same
      exact readCloseTag_innermost hc
    next => exact asAside_fits h
    next => exact asAside_fits h
    next => exact readOpenTag_fits h
  next =>
    split at h
    next => exact asAside_fits h
    next =>
      obtain ⟨rfl, -⟩ := Prod.mk.inj (Except.ok.inj h)
      exact Event.fits_aside opened .text

/-- A reader delivers events that fit, whether or not it comes to the end of the text. -/
theorem delivered_ofChars (opened : List String) (cs : List Char) :
    Delivered opened (EventStream.ofChars opened cs).events := by
  fun_induction EventStream.ofChars opened cs with
  | case1 => trivial
  | case2 => trivial
  | case3 opened c r e rest h later ih => exact ⟨readEvent_fits h, ih⟩

theorem delivered_ofString (s : String) : Delivered [] (EventStream.ofString s).events := by
  unfold EventStream.ofString
  split <;> exact delivered_ofChars [] _

/-- Reading a document builds exactly the tree that its events spell. Whatever events a reader
delivers, with those left out that are no tags: there is a tree exactly if they spell one element,
and it is that one; otherwise the second element to end on the top level is reported, or else the
innermost of those left open, or else that there is no root. The reader of documents delivers such
events, and hands on what they come to where it reads a text to its end. -/
theorem parse_builds_spelled_tree :
    (∀ events, Delivered [] events →
      SpelledBy (events.filter Event.isTag) (Node.ofEvents events)) ∧
    ∀ s, let stream := EventStream.ofString s
      Delivered [] stream.events ∧
        (stream.failure = none → Node.parse s =
          (Node.ofEvents stream.events).mapError fun e => .invalidStructure e.message) := by
  refine ⟨fun events delivered => ?_, fun s => ⟨delivered_ofString s, fun clean => ?_⟩⟩
  · have tags : Node.ofEvents events = Node.ofEvents (events.filter Event.isTag) :=
      congrArg (· >>= PartialDocument.result) (PartialDocument.foldlM_step_filter events .empty)
    rw [tags]
    exact Node.ofEvents_spelled (fun e he => (List.mem_filter.mp he).2) delivered.filter
  · simp only [Node.parse, clean]

/-- Events with attributes out of order, parts that are no tags and both kinds of elements without
children. -/
def framedEvents : List Event :=
  [.aside .instruction, .openTag "fix" [("minor", "4"), ("major", "4")], .emptyTag "header" [],
    .aside .comment, .openTag "trailer" [], .aside .text, .closeTag "trailer", .closeTag "fix"]

theorem parse_builds_spelled_tree_of_framed :
    let tree := { ((Node.leaf "fix").withAttribute "major" "4").withAttribute "minor" "4" with
      children := [Node.leaf "header", Node.leaf "trailer"] }
    Delivered [] framedEvents ∧ Node.ofEvents framedEvents = .ok tree ∧
      Spells (framedEvents.filter Event.isTag) [tree] ∧
      ¬ LeftOpen "fix" (framedEvents.filter Event.isTag) := by
  intro tree
  have delivered : Delivered [] framedEvents := by
    simp [framedEvents, Delivered, Event.Fits, Event.attributes, Event.reopen]
  have built : Node.ofEvents framedEvents = .ok tree := rfl
  have spelled := parse_builds_spelled_tree.1 framedEvents delivered
  refine ⟨delivered, built, (spelled.ok_iff tree).mp built, fun left => ?_⟩
  have single : ¬ ∃ other, SecondRoot other (framedEvents.filter Event.isTag) := by
    rintro ⟨other, second⟩
    have := (spelled.secondRoot_iff other).mpr second
    simp [built] at this
  have := (spelled.unclosed_iff "fix").mpr ⟨single, left⟩
  simp [built] at this

end FixTables
