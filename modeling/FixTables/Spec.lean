import FixTables.BinarySearch
import FixTables.CompilerConfig
import FixTables.Layout
import FixTables.Markup.Document
import FixTables.Propagation
import FixTables.Version

namespace FixTables

/-- A compiled dictionary version: its registries, with locations and length pairs settled, and the
layouts of its messages in the order of their types. -/
structure Spec where
  version : Version
  fields : FieldRegistry
  components : ComponentRegistry
  messages : MessageRegistry
  header : Member
  trailer : Member
  layouts : List MessageLayout
  tagBound : Nat

namespace Spec

/-- Stands for the version in errors found before it is known. -/
def unknownVersion : String := "unknown version"

/-- A section is the first descendant of the root with its name. -/
def findSection (root : Node) (name : String) : Except ParseError Node :=
  match root.find? name with
  | some n => .ok n
  | none => .error (.missingSection name)

/-- The sections that every dictionary has. -/
structure Sections where
  fields : Node
  header : Node
  trailer : Node
  messages : Node

def Sections.ofRoot (root : Node) : Except ParseError Sections := do
  let fields ← findSection root "fields"
  let header ← findSection root "header"
  let trailer ← findSection root "trailer"
  let messages ← findSection root "messages"
  return { fields, header, trailer, messages }

def componentsOf (root : Node) : Traced SchemaError ComponentRegistry :=
  match root.find? "components" with
  | some n => ComponentRegistry.ofSection n
  | none => return .empty

/-- Resolves every component by itself, to report what is wrong with those that no message uses. -/
def checkComponents (r : Resolver) : List Component → Traced SchemaError Unit
  | [] => return ()
  | c :: cs => do
    let _ ← r.resolve c.members s!"component '{c.name}'"
    checkComponents r cs

def resolveMessages (r : Resolver) (ms : List Message) :
    Traced SchemaError (List (Message × List Resolved)) :=
  ms.mapM fun m => return (m, ← r.resolve m.members s!"message '{m.name}'")

def maxUsedTag (resolved : List (Message × List Resolved)) : Nat :=
  resolved.foldl (fun max (_, members) => Nat.max max (Resolved.maxTag members)) 0

/-- Compiles the sections of a dictionary whose version is known. -/
def compileSections (version : Version) (sections : Sections) (root : Node)
    (config : CompilerConfig) : Traced SchemaError Spec := do
  let declared ← FieldRegistry.ofSection sections.fields
  let components ← componentsOf root
  let header := Member.childrenOf sections.header
  let trailer := Member.childrenOf sections.trailer
  let placed ← .ofExcept (declared.propagate components .header [] header)
  let fields ← .ofExcept (placed.propagate components .trailer [] trailer)
  let messages ← MessageRegistry.ofSection header trailer sections.messages
  let resolver : Resolver := ⟨fields, components, config.strict⟩
  checkComponents resolver components.components
  let resolved ← resolveMessages resolver messages.sortedByType
  let tagBound ← config.resolveTagBound (maxUsedTag resolved)
  let layouts ← resolved.mapM fun (m, members) => MessageLayout.build m members tagBound
  .note (.compiledDictionary version.label fields.fields.length components.components.length
    messages.messages.length tagBound)
  return {
    version, fields, components, messages, layouts, tagBound
    header := .root "header" header
    trailer := .root "trailer" trailer }

/-- Compiles the dictionary under a root element. -/
def compile (root : Node) (config : CompilerConfig) : Traced CompileError Spec :=
  match Version.ofNode root with
  | .error e => .fail ⟨unknownVersion, .parse e⟩
  | .ok version =>
    match Sections.ofRoot root with
    | .error e => .fail ⟨version.label, .parse e⟩
    | .ok sections =>
      (compileSections version sections root config).mapError fun e =>
        ⟨version.label, .schema e⟩

/-- Reads and compiles a dictionary. -/
def compileText (text : String) (config : CompilerConfig) : Traced CompileError Spec :=
  match Node.parse text with
  | .error e => .fail ⟨unknownVersion, .parse e⟩
  | .ok root => compile root config

def field? (s : Spec) (name : String) : Option Field := s.fields.lookup name

def component? (s : Spec) (name : String) : Option Component := s.components.lookup name

def message? (s : Spec) (msgType : String) : Option Message := s.messages.lookup msgType

/-- The layout of a message, searched by its type. -/
def layout? (s : Spec) (msgType : String) : Option MessageLayout :=
  binarySearch (fun l => compare l.msgType msgType) s.layouts.toArray

end Spec

end FixTables
