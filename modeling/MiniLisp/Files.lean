/-!
# Source files

How source text is got from a path, and why that may fail.  `Files` is a tree of
files held in memory.  A path is gone along one component at a time, so that it may
pass through `.` and `..`; one that leads out of the tree finds nothing but
directories on its way up.
-/

namespace MiniLisp

/-- Why a file could not be read. -/
inductive ReadFault where
  | missing
  | notDirectory
  | isDirectory
  | nameTooLong
  /-- No name holds the character NUL. -/
  | nulInName
  | invalidText
  /-- Any other fault, in the words of the system. -/
  | other (text : String)
  deriving DecidableEq, Repr

def ReadFault.message : ReadFault → String
  | .missing => "No such file or directory (os error 2)"
  | .notDirectory => "Not a directory (os error 20)"
  | .isDirectory => "Is a directory (os error 21)"
  | .nameTooLong => "File name too long (os error 36)"
  | .nulInName => "file name contained an unexpected NUL byte"
  | .invalidText => "stream did not contain valid UTF-8"
  | .other text => text

structure ReadError where
  path : String
  fault : ReadFault
  deriving DecidableEq, Repr

def ReadError.message (e : ReadError) : String :=
  "could not open file " ++ e.path ++ ": " ++ e.fault.message

/-- The text that bytes encode. -/
def decodeText (bytes : ByteArray) : Except ReadFault String :=
  match String.fromUTF8? bytes with
  | some text => .ok text
  | none => .error .invalidText

inductive Entry where
  | file (bytes : ByteArray)
  | directory

/-- Files and directories by their paths, a path being the list of the names on it.
A directory that holds something exists without an entry of its own. -/
structure Files where
  entries : List (List String × Entry)

/-- A point on the way along a path. -/
inductive Files.Location where
  /-- The names that lead there from the top of the tree. -/
  | within (path : List String)
  /-- A directory above the tree. -/
  | above
  deriving DecidableEq, Repr

namespace Files.Location

/-- The directory that holds a place.  The top of the tree is held by one above it. -/
def parent : Location → Location
  | .within [] => .above
  | .within path => .within path.dropLast
  | .above => .above

/-- The place of a name in a directory.  A directory above the tree is not known to
hold anything. -/
def child? (name : String) : Location → Option Location
  | .within path => some (.within (path ++ [name]))
  | .above => none

end Files.Location

namespace Files

/-- The most bytes that a name may have. -/
def longestName : Nat := 255

/-- The most bytes that a path may have. -/
def longestPath : Nat := 4095

def components (path : String) : List String :=
  path.splitOn "/"

/-- The names on a path after `.` and `..` have been followed. -/
def names (path : String) : List String :=
  (components path).foldl
    (fun found c =>
      if c = "" ∨ c = "." then found else if c = ".." then found.dropLast else found ++ [c])
    []

/-- A tree from paths and what stands there.  Of two entries for one place the later
counts. -/
def ofList (entries : List (String × Entry)) : Files :=
  ⟨entries.reverse.map fun (path, entry) => (names path, entry)⟩

def find? (f : Files) : Location → Option Entry
  | .above | .within [] => some .directory
  | .within path =>
      match f.entries.find? (·.1 == path) with
      | some (_, entry) => some entry
      | none => if f.entries.any (path.isPrefixOf ·.1) then some .directory else none

/-- Go on from a place by one component.  Only a directory can be gone through,
whatever the component is. -/
def step (f : Files) (place : Location) (component : String) :
    Except ReadFault Location :=
  match f.find? place with
  | none => .error .missing
  | some (.file _) => .error .notDirectory
  | some .directory =>
      if component = "" ∨ component = "." then .ok place
      else if component = ".." then .ok place.parent
      else if longestName < component.utf8ByteSize then .error .nameTooLong
      else
        match place.child? component with
        | some next => .ok next
        | none => .error .missing

/-- The place that a path leads to.  A path that begins with a slash begins above the
tree. -/
def locate (f : Files) (path : String) : Except ReadFault Location :=
  let start := if path.toList.head? = some '/' then .above else .within []
  (components path).foldlM f.step start

/-- The bytes of a file. -/
def bytes (f : Files) (path : String) : Except ReadFault ByteArray := do
  if '\x00' ∈ path.toList then throw .nulInName
  if path.isEmpty then throw .missing
  if longestPath < path.utf8ByteSize then throw .nameTooLong
  match f.find? (← f.locate path) with
  | none => throw .missing
  | some .directory => throw .isDirectory
  | some (.file bytes) => return bytes

/-- The text of a file. -/
def read (f : Files) (path : String) : Except ReadError String :=
  match f.bytes path >>= decodeText with
  | .ok text => .ok text
  | .error fault => .error ⟨path, fault⟩

end Files
end MiniLisp
