import FixTables.Member
import FixTables.Text.Quoted

namespace FixTables

/-- How much a notice matters. -/
inductive Severity
  | debug
  | info
  | warn
  deriving DecidableEq

def Severity.label : Severity → String
  | .debug => "DEBUG"
  | .info => "INFO"
  | .warn => "WARN"

/-- What the compiler tells about its work, besides its result. -/
inductive Notice
  | registeredField (tag : Nat) (name : String)
  | pairedLength (length data : Nat)
  | registeredComponent (name : String) (members : Nat)
  | registeredMessage (msgType name : String) (members : Nat)
  | skippedMember (name : String) (kind : MemberKind) (context : String)
  | tagOutsideTable (owner : String) (tag bound : Nat) (name : String)
  | tagRepeated (owner : String) (tag : Nat) (name : String)
  | boundClamped (bound max : Nat)
  | compiledDictionary (version : String) (fields components messages tagBound : Nat)
  | emittedTables (version : String) (tags messages bytes : Nat)
  | wroteArtifact (path : String) (bytes : Nat)
  deriving DecidableEq

namespace Notice

def severity : Notice → Severity
  | registeredField .. | pairedLength .. | registeredComponent .. | registeredMessage .. => .debug
  | compiledDictionary .. | emittedTables .. | wroteArtifact .. => .info
  | skippedMember .. | tagOutsideTable .. | tagRepeated .. | boundClamped .. => .warn

/-- The part of the program that a notice is filed under. -/
def topic : Notice → String
  | registeredField .. | pairedLength .. => "fixspec_dictionary::field"
  | registeredComponent .. => "fixspec_dictionary::component"
  | registeredMessage .. => "fixspec_dictionary::message"
  | skippedMember .. => "fixspec_dictionary::resolve"
  | tagOutsideTable .. | tagRepeated .. => "fixspec_dictionary::sequence"
  | boundClamped .. => "fixspec_dictionary::config"
  | compiledDictionary .. => "fixspec_dictionary::spec"
  | emittedTables .. => "fixspec_codegen::generator"
  | wroteArtifact .. => "fixspec"

def text : Notice → String
  | registeredField tag name => s!"registered field tag={tag} name={name}"
  | pairedLength length data => s!"paired length field length={length} data={data}"
  | registeredComponent name members => s!"registered component name={name} members={members}"
  | registeredMessage msgType name members =>
    s!"registered message msg_type={msgType} name={name} members={members}"
  | skippedMember name kind context =>
    s!"skipping unresolved member name={name} kind={kind.element} context={quoted context}"
  | tagOutsideTable owner tag bound name =>
    s!"tag outside sequence table owner={quoted owner} tag={tag} bound={bound} name={quoted name}"
  | tagRepeated owner tag name =>
    s!"tag repeated in member list owner={quoted owner} tag={tag} name={quoted name}"
  | boundClamped bound max => s!"tag bound clamped bound={bound} max={max}"
  | compiledDictionary version fields components messages tagBound =>
    s!"compiled dictionary version={version} fields={fields} components={components} " ++
      s!"messages={messages} tag_bound={tagBound}"
  | emittedTables version tags messages bytes =>
    s!"emitted tables version={version} tags={tags} messages={messages} bytes={bytes}"
  | wroteArtifact path bytes => s!"wrote artifact path={path} bytes={bytes}"

/-- A notice as a line of the log. -/
def line (n : Notice) : String := s!"{n.severity.label} {n.topic}: {n.text}"

end Notice

/-- The outcome of a computation together with the notices given on the way, which a failure leaves
in place. -/
structure Traced (ε α : Type) where
  notices : List Notice
  outcome : Except ε α

namespace Traced

variable {ε α β : Type}

protected def pure (a : α) : Traced ε α := ⟨[], .ok a⟩

protected def bind (x : Traced ε α) (f : α → Traced ε β) : Traced ε β :=
  match x.outcome with
  | .error e => ⟨x.notices, .error e⟩
  | .ok a =>
    let y := f a
    ⟨x.notices ++ y.notices, y.outcome⟩

instance : Monad (Traced ε) where
  pure := Traced.pure
  bind := Traced.bind

/-- Gives a notice. -/
def note (n : Notice) : Traced ε Unit := ⟨[n], .ok ()⟩

def fail (e : ε) : Traced ε α := ⟨[], .error e⟩

def ofExcept (r : Except ε α) : Traced ε α := ⟨[], r⟩

def mapError (f : ε → δ) (x : Traced ε α) : Traced δ α := ⟨x.notices, x.outcome.mapError f⟩

@[simp] theorem pure_outcome (a : α) : (pure a : Traced ε α).outcome = .ok a := rfl

@[simp] theorem pure_notices (a : α) : (pure a : Traced ε α).notices = [] := rfl

@[simp] theorem bind_outcome (x : Traced ε α) (f : α → Traced ε β) :
    (x >>= f).outcome = x.outcome.bind fun a => (f a).outcome := by
  show (Traced.bind x f).outcome = _
  unfold Traced.bind
  cases x.outcome <;> rfl

theorem bind_notices_of_ok {x : Traced ε α} {a : α} (f : α → Traced ε β) (h : x.outcome = .ok a) :
    (x >>= f).notices = x.notices ++ (f a).notices := by
  show (Traced.bind x f).notices = _
  simp [Traced.bind, h]

theorem bind_notices_of_error {x : Traced ε α} {e : ε} (f : α → Traced ε β)
    (h : x.outcome = .error e) : (x >>= f).notices = x.notices := by
  show (Traced.bind x f).notices = _
  simp [Traced.bind, h]

@[ext] theorem ext {x y : Traced ε α} (h : x.notices = y.notices) (h' : x.outcome = y.outcome) :
    x = y := by
  cases x
  cases y
  simp_all

instance : LawfulMonad (Traced ε) := LawfulMonad.mk' _
  (fun x => by
    show Traced.bind x _ = x
    unfold Traced.bind
    cases x with | mk n o => cases o <;> simp [Traced.pure, Function.comp])
  (fun a f => by
    show Traced.bind (Traced.pure a) f = f a
    simp [Traced.bind, Traced.pure])
  (fun x f g => by
    show Traced.bind (Traced.bind x f) g = Traced.bind x fun a => Traced.bind (f a) g
    unfold Traced.bind
    cases x with
    | mk n o =>
      cases o with
      | error e => rfl
      | ok a => cases h : (f a).outcome <;> simp [h])

end Traced

end FixTables
