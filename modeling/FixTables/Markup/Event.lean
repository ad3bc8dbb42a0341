import FixTables.Markup.AttributeList

namespace FixTables

/-- Parts of a document that build no element. -/
inductive Aside
  | text
  | reference
  | cdata
  | comment
  | instruction
  | doctype
  deriving DecidableEq

/-- What a reader of markup meets, in document order. -/
inductive Event
  | openTag (name : String) (attributes : List (String × String))
  | emptyTag (name : String) (attributes : List (String × String))
  | closeTag (name : String)
  | aside (what : Aside)
  deriving DecidableEq

/-- The rest after the first occurrence of `mark`. -/
def skipPast (mark : List Char) : List Char → Option (List Char)
  | [] => none
  | c :: cs =>
    if mark.isPrefixOf (c :: cs) then some (cs.drop (mark.length - 1)) else skipPast mark cs

theorem skipPast_length {mark cs rest : List Char} (h : skipPast mark cs = some rest) :
    rest.length < cs.length := by
  induction cs with
  | nil => simp [skipPast] at h
  | cons c cs ih =>
    simp only [skipPast] at h
    split at h
    · simp only [Option.some.injEq] at h
      subst h
      simp only [List.length_drop, List.length_cons]
      omega
    · have := ih h
      simp only [List.length_cons]
      omega

/-- Splits a tag at the first `>` that stands outside quotes. -/
def splitTag : Option Char → List Char → Except MarkupError (List Char × List Char)
  | none, [] => .error .tagNotClosed
  | some quote, [] => .error (.quoteNotClosed quote)
  | none, c :: cs =>
    if c = '>' then .ok ([], cs)
    else (splitTag (if isQuote c then some c else none) cs).map fun (s, r) => (c :: s, r)
  | some quote, c :: cs =>
    (splitTag (if c = quote then none else some quote) cs).map fun (s, r) => (c :: s, r)

theorem splitTag_length {quote : Option Char} {cs content rest : List Char}
    (h : splitTag quote cs = .ok (content, rest)) : rest.length < cs.length := by
  have step : ∀ {c : Char} {x : Except MarkupError (List Char × List Char)} {p},
      x.map (fun (s, r) => (c :: s, r)) = .ok p → ∃ s, x = .ok (s, p.2) := by
    intro c x p hx
    cases x with
    | error e => simp [Except.map] at hx
    | ok q =>
      simp only [Except.map, Except.ok.injEq] at hx
      exact ⟨q.1, by rw [← hx]⟩
  induction cs generalizing quote content with
  | nil => cases quote <;> simp [splitTag] at h
  | cons c cs ih =>
    rw [List.length_cons]
    cases quote with
    | none =>
      simp only [splitTag] at h
      split at h
      · simp_all
      · obtain ⟨s, hs⟩ := step h
        exact Nat.lt_succ_of_lt (ih hs)
    | some q =>
      simp only [splitTag] at h
      obtain ⟨s, hs⟩ := step h
      exact Nat.lt_succ_of_lt (ih hs)

end FixTables
