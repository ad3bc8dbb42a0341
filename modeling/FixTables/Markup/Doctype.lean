import FixTables.Markup.Event

namespace FixTables

/-- The rest after a declaration of the internal subset; `cs` follows its `<`. Quotes protect a `>`
in declarations of entities, attribute lists and notations. The mark that opens an instruction
closes none. -/
def skipDeclaration (cs : List Char) : Option (List Char) :=
  if "!--".toList.isPrefixOf cs then skipPast "-->".toList (cs.drop 3)
  else if "?".toList.isPrefixOf cs then skipPast "?>".toList (cs.drop 1)
  else if ["!ENTITY", "!ATTLIST", "!NOTATION"].any (·.toList.isPrefixOf cs) then
    match splitTag none cs with
    | .ok (_, rest) => some rest
    | .error _ => none
  else skipPast ['>'] cs

theorem skipDeclaration_length {cs rest : List Char} (h : skipDeclaration cs = some rest) :
    rest.length < cs.length := by
  unfold skipDeclaration at h
  split at h
  · have := skipPast_length h
    simp only [List.length_drop] at this
    omega
  · split at h
    · have := skipPast_length h
      simp only [List.length_drop] at this
      omega
    · split at h
      · split at h
        · rename_i hs
          simp only [Option.some.injEq] at h
          subst h
          exact splitTag_length hs
        · simp at h
      · exact skipPast_length h

/-- The rest after the bracket that closes the internal subset. -/
def skipSubset (cs : List Char) : Option (List Char) :=
  match cs with
  | [] => none
  | c :: r =>
    if c = ']' then some r
    else if c = '<' then
      match _h : skipDeclaration r with
      | some rest => skipSubset rest
      | none => none
    else skipSubset r
termination_by cs.length
decreasing_by
  all_goals simp only [List.length_cons]
  · have := skipDeclaration_length _h
    omega
  · omega

theorem skipSubset_length {cs rest : List Char} (h : skipSubset cs = some rest) :
    rest.length < cs.length := by
  fun_induction skipSubset cs <;> grind [→ skipDeclaration_length]

/-- The rest after the `>` that ends a document type declaration: the first one outside quotes, or
the very first one after the internal subset. -/
def skipDoctype (cs : List Char) : Option (List Char) :=
  match cs with
  | [] => none
  | c :: r =>
    if c = '>' then some r
    else if c = '[' then (skipSubset r).bind (skipPast ['>'])
    else if isQuote c then
      match _h : skipPast [c] r with
      | some rest => skipDoctype rest
      | none => none
    else skipDoctype r
termination_by cs.length
decreasing_by
  all_goals simp only [List.length_cons]
  · have := skipPast_length _h
    omega
  · omega

theorem skipDoctype_length {cs rest : List Char} (h : skipDoctype cs = some rest) :
    rest.length < cs.length := by
  fun_induction skipDoctype cs with
  | case3 r hc =>
    obtain ⟨inner, hs, hp⟩ := Option.bind_eq_some_iff.mp h
    have := skipSubset_length hs
    have := skipPast_length hp
    simp only [List.length_cons]
    omega
  | _ => grind [→ skipPast_length]

end FixTables
