import LinkSummary.Files.FileSystem

/-!
# Disks

A tree of directories with files in it. A path leads from the working directory or from the root,
one part after another, and it leads on only from a directory.
-/

namespace LinkSummary

/-- What a name in a directory stands for. -/
inductive Disk.Node where
  | file (bytes : List UInt8)
  | directory
deriving DecidableEq

/-- The nodes of a machine by the names that lead to them from the root, in increasing order of the
names, and the names that lead to the working directory. -/
structure Disk where
  nodes : List (List String × Disk.Node) := []
  working : List String := []
deriving DecidableEq

namespace Disk

/-- What names lead to from the root, which is a directory. -/
def node? (d : Disk) : List String → Option Node
  | [] => some .directory
  | names => d.nodes.lookup names

/-! ### Following paths -/

/-- The bytes that a name has at most. -/
def nameLimit : Nat := 255

/-- The bytes that a path has at most. -/
def pathLimit : Nat := 4095

/-- The names that one part of a path leads to from a directory. -/
def enter (names : List String) (part : String) : Except FileError (List String) :=
  if Path.staysHere part then .ok names
  else if part = ".." then .ok names.dropLast
  else if nameLimit < part.utf8ByteSize then .error .nameTooLong
  else .ok (names ++ [part])

/-- Follow the parts of a path, from the node that names lead to. The last part may be a name that
stands for nothing yet. -/
def follow (d : Disk) (names : List String) : List String → Except FileError (List String)
  | [] => .ok names
  | part :: parts =>
    match d.node? names with
    | none => .error .notFound
    | some (.file _) => .error .notDirectory
    | some .directory =>
      match enter names part with
      | .error e => .error e
      | .ok names => d.follow names parts

/-- The names that the parts of a path lead to, from the root or from the working directory. -/
def locate (d : Disk) (path : String) (parts : List String) : Except FileError (List String) :=
  if path.isEmpty then .error .notFound
  else if pathLimit < path.utf8ByteSize then .error .nameTooLong
  else d.follow (if Path.isAbsolute path then [] else d.working) parts

/-! ### Reading and writing -/

def read (d : Disk) (path : String) : Except FileError (List UInt8) :=
  match d.locate path (Path.parts path) with
  | .error e => .error e
  | .ok names =>
    match d.node? names with
    | none => .error .notFound
    | some .directory => .error .isDirectory
    | some (.file bytes) => .ok bytes

/-- The names under which a file is written at a path. With a slash at its end a path asks for a
directory, whatever the name before the slash stands for. -/
def target (d : Disk) (path : String) : Except FileError (List String) :=
  if Path.endsWithSlash path then
    match d.locate path (Path.partsBeforeSlash path) with
    | .error e => .error e
    | .ok _ => .error .isDirectory
  else
    match d.locate path (Path.parts path) with
    | .error e => .error e
    | .ok names => if d.node? names = some .directory then .error .isDirectory else .ok names

/-- Put a node at its place in an ordered list, over one with the same names. -/
def place (names : List String) (node : Node) :
    List (List String × Node) → List (List String × Node)
  | [] => [(names, node)]
  | x :: xs =>
    if names < x.1 then (names, node) :: x :: xs
    else if names = x.1 then (names, node) :: xs
    else x :: place names node xs

def put (d : Disk) (names : List String) (bytes : List UInt8) : Disk :=
  { d with nodes := place names (.file bytes) d.nodes }

def write (d : Disk) (path : String) (bytes : List UInt8) : Except FileError Disk :=
  match d.target path with
  | .error e => .error e
  | .ok names => .ok (d.put names bytes)

def file? (d : Disk) (path : String) : Option (List String) :=
  (d.locate path (Path.parts path)).toOption

def contents? (d : Disk) (names : List String) : Option (List UInt8) :=
  match d.node? names with
  | some (.file bytes) => some bytes
  | _ => none

/-- Files are told apart by the names that lead to them. -/
instance : FileSystem Disk where
  read := read
  write := write
  File := List String
  file? := file?
  contents? := contents?

end Disk

end LinkSummary
