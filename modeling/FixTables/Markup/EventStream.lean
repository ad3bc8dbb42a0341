import FixTables.Markup.Doctype
import FixTables.Text.Blank

namespace FixTables

/-- A part that ends where `rest?` says, or the failure to end it. -/
def closedAt (what : Aside) (failure : MarkupError) (rest? : Option (List Char)) :
    Except MarkupError (Aside × List Char) :=
  match rest? with
  | some rest => .ok (what, rest)
  | none => .error failure

/-- The rest after `mark`, if `cs` starts with `opener`. -/
def skipFrom (opener mark : String) (cs : List Char) : Option (List Char) :=
  if opener.toList.isPrefixOf cs then skipPast mark.toList (cs.drop opener.length) else none

/-- Reads a document type declaration from its keyword on. -/
def readDoctype (cs : List Char) : Except MarkupError (Aside × List Char) :=
  let body := cs.drop 7
  if (cs.take 7).map Char.toUpper = "DOCTYPE".toList then
    match skipDoctype body with
    | none => .error .doctypeNotClosed
    | some rest =>
      if (body.dropWhile isMarkupSpace).head? = some '>' then .error .doctypeWithoutName
      else .ok (.doctype, rest)
  else .error .doctypeNotClosed

/-- Reads what follows `<!`: a CDATA section, a comment or a document type declaration. -/
def readDeclaration (cs : List Char) : Except MarkupError (Aside × List Char) :=
  match cs.head? with
  | some '[' => closedAt .cdata .cdataNotClosed (skipFrom "[CDATA[" "]]>" cs)
  | some '-' => closedAt .comment .commentNotClosed (skipFrom "--" "-->" cs)
  | some 'D' | some 'd' => readDoctype cs
  | _ => .error .unknownMarkup

/-- The failure to close an instruction; a document's first line has a name of its own. -/
def instructionFailure (cs : List Char) : MarkupError :=
  if "xml".toList.isPrefixOf cs ∧ (cs.drop 3).head?.all (fun c => isMarkupSpace c || c == '?') then
    .declarationNotClosed
  else .instructionNotClosed

/-- Reads what follows `<?`. The mark that opens an instruction cannot close it as well. -/
def readInstruction (cs : List Char) : Except MarkupError (Aside × List Char) :=
  closedAt .instruction (instructionFailure cs)
    (if cs.head? = some '>' then none else skipPast "?>".toList cs)

/-- The name in a close tag, which white space may follow. -/
def closeTagName (content : List Char) : String :=
  String.ofList <|
    if content.all isMarkupSpace then content else dropTrailing isMarkupSpace content

/-- Reads what follows `</`, inside the elements `opened`, innermost first. -/
def readCloseTag (opened : List String) (cs : List Char) :
    Except MarkupError (String × List Char) := do
  let (content, rest) ← splitTag none cs
  let name := closeTagName content
  match opened with
  | [] => .error (.unmatchedClose name)
  | expected :: _ =>
    if expected = name then .ok (name, rest) else .error (.mismatchedClose expected name)

/-- Reads a tag after its `<`. The name reaches to the first white space and may be empty. -/
def readOpenTag (cs : List Char) : Except MarkupError (Event × List Char) := do
  let (content, rest) ← splitTag none cs
  let selfClosed := content.getLast? = some '/'
  let content := if selfClosed then content.dropLast else content
  let name := String.ofList (content.takeWhile (!isMarkupSpace ·))
  let attributes ←
    readAttributes (byteLength content) [] (content.dropWhile (!isMarkupSpace ·))
  return (if selfClosed then .emptyTag name attributes else .openTag name attributes, rest)

/-- Reads a reference in text after its `&`; what it names is not looked at. -/
def readTextReference (cs : List Char) : Except MarkupError (Aside × List Char) :=
  match cs.dropWhile (fun c => c != ';' && c != '&' && c != '<') with
  | ';' :: rest => .ok (.reference, rest)
  | _ => .error .referenceNotClosed

/-- An aside as an event. -/
def asAside (r : Except MarkupError (Aside × List Char)) : Except MarkupError (Event × List Char) :=
  r.map fun (what, rest) => (.aside what, rest)

/-- Reads the event that starts with `<`, from the character after it. -/
def readMarkup (opened : List String) (cs : List Char) : Except MarkupError (Event × List Char) :=
  match cs with
  | '/' :: r => (readCloseTag opened r).map fun (name, rest) => (.closeTag name, rest)
  | '!' :: r => asAside (readDeclaration r)
  | '?' :: r => asAside (readInstruction r)
  | r => readOpenTag r

/-- Reads the event that starts with the character `c`, inside the elements `opened`. -/
def readEvent (opened : List String) (c : Char) (cs : List Char) :
    Except MarkupError (Event × List Char) :=
  if c = '<' then readMarkup opened cs
  else if c = '&' then asAside (readTextReference cs)
  else .ok (.aside .text, cs.dropWhile fun c => c != '<' && c != '&')

/-- The names of the open elements after an event, innermost first. -/
def Event.reopen (opened : List String) : Event → List String
  | .openTag name _ => name :: opened
  | .closeTag _ => opened.tail
  | _ => opened

/-- The events of a text up to its end or to the first place where it is not well-formed. -/
structure EventStream where
  events : List Event
  failure : Option MarkupError

theorem closedAt_eq_ok {a b : Aside} {e : MarkupError} {o : Option (List Char)} {rest : List Char}
    (h : closedAt a e o = .ok (b, rest)) : o = some rest := by
  cases o <;> simp_all [closedAt]

theorem skipFrom_length {opener mark : String} {cs rest : List Char}
    (h : skipFrom opener mark cs = some rest) : rest.length < cs.length := by
  unfold skipFrom at h
  split at h
  · have := skipPast_length h
    simp only [List.length_drop] at this
    omega
  · simp at h

theorem readDoctype_length {cs rest : List Char} {a : Aside}
    (h : readDoctype cs = .ok (a, rest)) : rest.length < cs.length := by
  simp only [readDoctype] at h
  split at h
  · split at h
    · simp at h
    · rename_i hs
      have := skipDoctype_length hs
      simp only [List.length_drop] at this
      split at h <;> simp_all
      omega
  · simp at h

theorem readDeclaration_length {cs rest : List Char} {a : Aside}
    (h : readDeclaration cs = .ok (a, rest)) : rest.length < cs.length := by
  unfold readDeclaration at h
  split at h
  · exact skipFrom_length (closedAt_eq_ok h)
  · exact skipFrom_length (closedAt_eq_ok h)
  · exact readDoctype_length h
  · exact readDoctype_length h
  · simp at h

theorem readInstruction_length {cs rest : List Char} {a : Aside}
    (h : readInstruction cs = .ok (a, rest)) : rest.length < cs.length := by
  have hs := closedAt_eq_ok h
  split at hs
  · simp at hs
  · exact skipPast_length hs

theorem readCloseTag_length {opened : List String} {cs rest : List Char} {name : String}
    (h : readCloseTag opened cs = .ok (name, rest)) : rest.length < cs.length := by
  unfold readCloseTag at h
  cases hs : splitTag none cs with
  | error e => simp [hs, bind, Except.bind] at h
  | ok p =>
    have := splitTag_length (show splitTag none cs = .ok (p.1, p.2) from hs)
    simp only [hs, bind, Except.bind] at h
    split at h
    · simp at h
    · split at h <;> simp_all

theorem readOpenTag_length {cs rest : List Char} {e : Event}
    (h : readOpenTag cs = .ok (e, rest)) : rest.length < cs.length := by
  unfold readOpenTag at h
  cases hs : splitTag none cs with
  | error e => simp [hs, bind, Except.bind] at h
  | ok p =>
    have := splitTag_length (show splitTag none cs = .ok (p.1, p.2) from hs)
    simp only [hs, bind, Except.bind] at h
    split at h
    · simp at h
    · simp only [pure, Except.pure, Except.ok.injEq, Prod.mk.injEq] at h
      rw [← h.2]
      exact this

theorem readTextReference_length {cs rest : List Char} {a : Aside}
    (h : readTextReference cs = .ok (a, rest)) : rest.length < cs.length := by
  unfold readTextReference at h
  have := length_dropWhile_le (fun c => c != ';' && c != '&' && c != '<') cs
  split at h
  · rename_i hr
    rw [hr, List.length_cons] at this
    simp only [Except.ok.injEq, Prod.mk.injEq] at h
    rw [← h.2]
    exact this
  · simp at h

theorem map_snd_eq_ok {f : α → β} {x : Except ε (α × γ)} {b : β} {r : γ}
    (h : x.map (fun (a, s) => (f a, s)) = .ok (b, r)) : ∃ a, x = .ok (a, r) := by
  cases x with
  | error e => simp [Except.map] at h
  | ok p =>
    simp only [Except.map, Except.ok.injEq, Prod.mk.injEq] at h
    exact ⟨p.1, by rw [← h.2]⟩

/-- Every event takes up at least its first character. -/
theorem readEvent_length {opened : List String} {c : Char} {cs rest : List Char} {e : Event}
    (h : readEvent opened c cs = .ok (e, rest)) : rest.length ≤ cs.length := by
  unfold readEvent at h
  split at h
  · unfold readMarkup at h
    split at h
    · obtain ⟨_, h⟩ := map_snd_eq_ok h
      have := readCloseTag_length h
      simp only [List.length_cons]
      omega
    · obtain ⟨_, h⟩ := map_snd_eq_ok h
      have := readDeclaration_length h
      simp only [List.length_cons]
      omega
    · obtain ⟨_, h⟩ := map_snd_eq_ok h
      have := readInstruction_length h
      simp only [List.length_cons]
      omega
    · exact Nat.le_of_lt (readOpenTag_length h)
  · split at h
    · obtain ⟨_, h⟩ := map_snd_eq_ok h
      exact Nat.le_of_lt (readTextReference_length h)
    · simp only [Except.ok.injEq, Prod.mk.injEq] at h
      rw [← h.2]
      exact length_dropWhile_le _ cs

def EventStream.ofChars (opened : List String) (cs : List Char) : EventStream :=
  match cs with
  | [] => ⟨[], none⟩
  | c :: r =>
    match _h : readEvent opened c r with
    | .error e => ⟨[], some e⟩
    | .ok (event, rest) =>
      let later := ofChars (event.reopen opened) rest
      ⟨event :: later.events, later.failure⟩
termination_by cs.length
decreasing_by
  have := readEvent_length _h
  simp only [List.length_cons]
  omega

/-- The events of a document; a byte order mark at its start is no part of it. -/
def EventStream.ofString (s : String) : EventStream :=
  match s.toList with
  | '\ufeff' :: cs => ofChars [] cs
  | cs => ofChars [] cs

end FixTables
