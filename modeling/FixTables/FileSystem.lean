namespace FixTables

/-- Why an operation on files fails. -/
inductive IoError
  | notFound
  | notADirectory
  | isADirectory
  | busy
  | nameTooLong
  | nameWithNul
  | notText
  | other (text : String)
  deriving DecidableEq

namespace IoError

def message : IoError → String
  | notFound => "No such file or directory (os error 2)"
  | notADirectory => "Not a directory (os error 20)"
  | isADirectory => "Is a directory (os error 21)"
  | busy => "Device or resource busy (os error 16)"
  | nameTooLong => "File name too long (os error 36)"
  | nameWithNul => "file name contained an unexpected NUL byte"
  | notText => "stream did not contain valid UTF-8"
  | other text => text

/-- The name of an error's class. -/
def kind : IoError → String
  | notFound => "NotFound"
  | notADirectory => "NotADirectory"
  | isADirectory => "IsADirectory"
  | busy => "ResourceBusy"
  | nameTooLong => "InvalidFilename"
  | nameWithNul => "InvalidInput"
  | notText => "InvalidData"
  | other _ => "Other"

end IoError

/-- What a path leads to. -/
inductive Entry
  | directory
  | file (bytes : ByteArray)

instance : DecidableEq Entry
  | .directory, .directory => .isTrue rfl
  | .directory, .file _ => .isFalse nofun
  | .file _, .directory => .isFalse nofun
  | .file a, .file b =>
    if h : a.data = b.data then .isTrue (congrArg Entry.file (ByteArray.ext h))
    else .isFalse fun e => h (by rw [Entry.file.inj e])

/-- A place in a file system: the names on the way from its root. -/
abbrev Place := List String

/-- The entries of a file system, seen from the working directory `home`. The directories that lead
there always exist. -/
structure FileSystem where
  home : Place
  entries : List (Place × Entry)

namespace FileSystem

def get? (fs : FileSystem) (p : Place) : Option Entry :=
  if p.isPrefixOf fs.home then some .directory else fs.entries.lookup p

def remove (fs : FileSystem) (p : Place) : FileSystem :=
  { fs with entries := fs.entries.filter (·.1 ≠ p) }

/-- Puts an entry at a place, over one already there. -/
def put (fs : FileSystem) (p : Place) (e : Entry) : FileSystem :=
  { fs with entries := (p, e) :: (fs.remove p).entries }

/-- The entry at one place moves to another, over one already there. -/
def move (fs : FileSystem) (source target : Place) : FileSystem :=
  match fs.get? source with
  | some e => (fs.remove source).put target e
  | none => fs

/-- The place that a name leads to from a directory. -/
def step (dir : Place) (name : String) : Place :=
  if name = "" ∨ name = "." then dir
  else if name = ".." then dir.dropLast
  else dir ++ [name]

/-- The longest name and the longest path, in bytes. -/
def maxName : Nat := 255

def maxPath : Nat := 4095

/-- Walks from one place along names, each of them looked up in a directory. -/
def follow (fs : FileSystem) : Place → List String → Except IoError Place
  | at_, [] => .ok at_
  | at_, name :: names =>
    match fs.get? at_ with
    | none => .error .notFound
    | some (.file _) => .error .notADirectory
    | some .directory =>
      if maxName < name.utf8ByteSize then .error .nameTooLong
      else fs.follow (step at_ name) names

/-- The names between the slashes of a path. -/
def namesOf (path : String) : List String :=
  (path.toList.splitOn '/').map String.ofList

def isAbsolute (path : String) : Bool := path.toList.head? = some '/'

/-- Where a path starts. -/
def start (fs : FileSystem) (path : String) : Place := if isAbsolute path then [] else fs.home

/-- What keeps a text from being a path at all. -/
def checkPath (path : String) : Except IoError Unit :=
  if path.toList.contains '\x00' then .error .nameWithNul
  else if path = "" then .error .notFound
  else if maxPath < path.utf8ByteSize then .error .nameTooLong
  else .ok ()

/-- The place that a path leads to, whether or not something is there. -/
def locate (fs : FileSystem) (path : String) : Except IoError Place := do
  checkPath path
  fs.follow (fs.start path) (namesOf path)

def readBytes (fs : FileSystem) (path : String) : Except IoError ByteArray := do
  match fs.get? (← fs.locate path) with
  | none => .error .notFound
  | some .directory => .error .isADirectory
  | some (.file bytes) => .ok bytes

/-- The text that bytes encode in UTF-8. -/
def decodeText (bytes : ByteArray) : Except IoError String :=
  match String.fromUTF8? bytes with
  | some text => .ok text
  | none => .error .notText

/-- Leaves out the names at the end that lead nowhere; the first one tells where a path starts. -/
def withoutTrailing : List String → List String
  | [] => []
  | first :: names =>
    first :: (names.reverse.dropWhile fun name => name = "" ∨ name = ".").reverse

/-- The last name of a path, if it is the name of an entry. -/
def fileName? (path : String) : Option String :=
  (withoutTrailing (namesOf path)).getLast?.filter fun name =>
    name ≠ "" ∧ name ≠ "." ∧ name ≠ ".."

/-- The path of the directory in which a path ends. -/
def parentPath (path : String) : String :=
  match withoutTrailing (withoutTrailing (namesOf path)).dropLast with
  | [] => "."
  | [""] => "/"
  | names => "/".intercalate names

/-- A path that goes on where another one, of a directory, ends. -/
def joinPath (dir path : String) : String :=
  if isAbsolute path then path
  else if dir.toList.getLast? = some '/' then dir ++ path
  else s!"{dir}/{path}"

/-- The path of a place. -/
def pathOf (p : Place) : String := "/" ++ "/".intercalate p

/-- A path that does not depend on the working directory. -/
def absolutePath (fs : FileSystem) (path : String) : String := joinPath (pathOf fs.home) path

/-- The place that a file moved to `path` gets. -/
def targetOf (fs : FileSystem) (path : String) : Except IoError Place := do
  checkPath path
  let names := namesOf path
  let trimmed := (names.reverse.dropWhile (· = "")).reverse
  let last := trimmed.getLast?.getD ""
  let dir ← fs.follow (fs.start path) trimmed.dropLast
  let target ← fs.follow dir [last]
  if last = "" ∨ last = "." ∨ last = ".." then .error .busy
  else if trimmed.length < names.length then .error .notADirectory
  else if fs.get? target = some .directory then .error .isADirectory
  else .ok target

end FileSystem

end FixTables
