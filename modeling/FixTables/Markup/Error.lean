import FixTables.Text.Numeral

namespace FixTables

/-- Why a character reference names no character. -/
inductive ReferenceError
  | sign
  | numeral (cause : NumeralError)
  | zero
  | notCodePoint (value : Nat)
  deriving DecidableEq

def ReferenceError.message : ReferenceError → String
  | .sign => "unexpected number sign"
  | .numeral cause => cause.message
  | .zero => "0x0 character is not permitted in XML"
  | .notCodePoint value => s!"`{value}` is not a valid codepoint"

/-- Why the text between two quotes is no attribute value. Places count bytes from its start. -/
inductive ValueError
  | unterminated (start stop : Nat)
  | unknownEntity (start stop : Nat) (name : String)
  | reference (cause : ReferenceError)
  deriving DecidableEq

def ValueError.message : ValueError → String
  | .unterminated start stop =>
    s!"Error while escaping character at range {start}..{stop}: Cannot find ';' after '&'"
  | .unknownEntity start stop name => s!"at {start}..{stop}: unrecognized entity `{name}`"
  | .reference cause => "invalid character reference: " ++ cause.message

/-- What is wrong in the attribute list of a tag. Places count bytes from the tag's name on. -/
inductive AttributeError
  | expectedEquals (place : Nat)
  | expectedValue (place : Nat)
  | unquotedValue (place : Nat)
  | missingQuote (place : Nat) (quote : Char)
  | duplicated (place earlier : Nat)
  deriving DecidableEq

def AttributeError.message : AttributeError → String
  | .expectedEquals place =>
    s!"position {place}: attribute key must be directly followed by `=` or space"
  | .expectedValue place => s!"position {place}: `=` must be followed by an attribute value"
  | .unquotedValue place =>
    s!"position {place}: attribute value must be enclosed in `\"` or `'`"
  | .missingQuote place quote =>
    s!"position {place}: missing closing quote `{quote}` in attribute value"
  | .duplicated place earlier =>
    s!"position {place}: duplicated attribute, previous declaration at position {earlier}"

/-- What keeps a text from being well-formed markup. -/
inductive MarkupError
  | tagNotClosed
  | quoteNotClosed (quote : Char)
  | cdataNotClosed
  | commentNotClosed
  | doctypeNotClosed
  | instructionNotClosed
  | declarationNotClosed
  | unknownMarkup
  | referenceNotClosed
  | doctypeWithoutName
  | mismatchedClose (expected found : String)
  | unmatchedClose (found : String)
  | badAttribute (cause : AttributeError)
  | badValue (cause : ValueError)
  deriving DecidableEq

/-- The report of a construct that the input ends in. -/
def notClosed (what closer : String) : String :=
  s!"{what} not closed: `{closer}` not found before end of input"

namespace MarkupError

/-- What is wrong, without the class that the error belongs to. -/
def detail : MarkupError → String
  | tagNotClosed => notClosed "tag" ">"
  | quoteNotClosed quote => notClosed "attribute value" quote.toString
  | cdataNotClosed => notClosed "CDATA" "]]>"
  | commentNotClosed => notClosed "comment" "-->"
  | doctypeNotClosed => notClosed "DOCTYPE" ">"
  | instructionNotClosed => notClosed "processing instruction" "?>"
  | declarationNotClosed => notClosed "XML declaration" "?>"
  | unknownMarkup => "unknown or missed symbol in markup"
  | referenceNotClosed => notClosed "entity or character reference" ";"
  | doctypeWithoutName => "`<!DOCTYPE>` declaration does not contain a name of a document type"
  | mismatchedClose expected found => s!"expected `</{expected}>`, but `</{found}>` was found"
  | unmatchedClose found => s!"close tag `</{found}>` does not match any open tag"
  | badAttribute cause => cause.message
  | badValue cause => cause.message

/-- The class of an error, as its message opens. -/
def opening : MarkupError → String
  | tagNotClosed | quoteNotClosed _ | cdataNotClosed | commentNotClosed | doctypeNotClosed
  | instructionNotClosed | declarationNotClosed | unknownMarkup => "syntax error: "
  | referenceNotClosed | doctypeWithoutName | mismatchedClose .. | unmatchedClose _ =>
    "ill-formed document: "
  | badAttribute _ => "error while parsing attribute: "
  | badValue _ => ""

def message (e : MarkupError) : String := e.opening ++ e.detail

/-- The message of an error, followed by those of its causes from the nearest on. -/
def chain (e : MarkupError) : List String :=
  [e.message, e.detail] ++
  match e with
  | badValue (.reference (.numeral cause)) =>
    [(ReferenceError.numeral cause).message, cause.message]
  | badValue (.reference cause) => [cause.message]
  | _ => []

end MarkupError

end FixTables
