import ThreeAddress.Command.Path

namespace ThreeAddress

inductive FileError where
  | notFound
  | isDirectory
  | notDirectory
  | nameTooLong
  | invalid
  deriving DecidableEq

def FileError.text : FileError → Bytes
  | notFound => utf8 "no such file or directory"
  | isDirectory => utf8 "is a directory"
  | notDirectory => utf8 "not a directory"
  | nameTooLong => utf8 "file name too long"
  | invalid => utf8 "invalid argument"

inductive FileNode where
  | file (content : Bytes)
  | directory
  deriving DecidableEq

/-- A place where a file or directory can be: the names that lead to it from the root, the last
first. -/
structure Location where
  names : List Bytes := []
  deriving DecidableEq

namespace Location

def child (l : Location) (name : Bytes) : Location := { names := name :: l.names }

-- There is nothing above the root.
def parent (l : Location) : Location := { names := l.names.tail }

def follow (l : Location) (name : Bytes) : Location :=
  if name = Path.here then l else if name = Path.above then l.parent else l.child name

end Location

/-- The files and directories that there are. The working directory and the directories above it are
always there, and `entries` has the others. -/
structure FileTree where
  working : Location := { names := [utf8 "work"] }
  entries : List (Location × FileNode) := []

namespace FileTree

def nameLimit : Nat := 255

def pathLimit : Nat := 4096

def get? (t : FileTree) (l : Location) : Option FileNode :=
  if l.names <:+ t.working.names then some .directory else t.entries.lookup l

def put (t : FileTree) (l : Location) (node : FileNode) : FileTree :=
  { t with entries := (l, node) :: t.entries.filter fun e => e.1 ≠ l }

def checkDirectory (t : FileTree) (l : Location) : Except FileError Unit :=
  match t.get? l with
  | some .directory => .ok ()
  | some (.file _) => .error .notDirectory
  | none => .error .notFound

def enter (t : FileTree) (l : Location) (name : Bytes) : Except FileError Location := do
  t.checkDirectory l
  if nameLimit < name.length then throw .nameTooLong
  return l.follow name

def origin (t : FileTree) (path : Path) : Location :=
  if path.head? = some Path.slash then {} else t.working

def checkPath (path : Path) : Except FileError Unit :=
  if 0 ∈ path then .error .invalid
  else if path = [] then .error .notFound
  else if pathLimit ≤ path.length then .error .nameTooLong
  else .ok ()

def meansDirectory (path : Path) : Bool := path.getLast? = some Path.slash

def lookup (t : FileTree) (path : Path) : Except FileError FileNode := do
  checkPath path
  let l ← (Path.elements path).foldlM t.enter (t.origin path)
  match t.get? l with
  | none => throw .notFound
  | some .directory => return .directory
  | some (.file content) =>
    if meansDirectory path then throw .notDirectory else return .file content

def target (t : FileTree) (path : Path) : Except FileError Location := do
  checkPath path
  let elements := Path.elements path
  let l ← elements.dropLast.foldlM t.enter (t.origin path)
  t.checkDirectory l
  match elements.getLast? with
  | none => throw .isDirectory
  | some name =>
    if meansDirectory path ∨ name = Path.here ∨ name = Path.above then throw .isDirectory
    else t.enter l name

def write (t : FileTree) (path : Path) (content : Bytes) : Except FileError FileTree := do
  let l ← t.target path
  if t.get? l = some .directory then throw .isDirectory
  else return t.put l (.file content)

def makeDirectories (t : FileTree) (l : Location) : List Bytes → FileTree
  | [] => t
  | name :: names =>
    let l := l.follow name
    let t := if t.get? l = none then t.put l .directory else t
    makeDirectories t l names

def addDirectory (t : FileTree) (path : Path) : FileTree :=
  t.makeDirectories (t.origin path) (Path.elements path)

def addFile (t : FileTree) (path : Path) (content : Bytes) : FileTree :=
  let elements := Path.elements path
  let t := t.makeDirectories (t.origin path) elements.dropLast
  t.put (elements.foldl Location.follow (t.origin path)) (.file content)

def files (t : FileTree) : List (Path × Bytes) :=
  let found := t.entries.filterMap fun (l, node) =>
    match node with
    | .file content =>
      if t.working.names <:+ l.names then
        some (Bytes.join [Path.slash] (l.names.reverse.drop t.working.names.length), content)
      else none
    | .directory => none
  found.mergeSort fun a b => !Bytes.precedes b.1 a.1

end FileTree

end ThreeAddress
