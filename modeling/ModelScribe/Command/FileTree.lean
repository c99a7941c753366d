-- Paths and the file tree that a run works in. A path names a file by the
-- directories on the way to it, from the root of the tree or from the working
-- place; the end of its name tells the format of a definition. A file may be
-- closed to reading or to writing, a directory to passing through it or to new
-- files, and a link stands for another path.
import ModelScribe.Source

namespace ModelScribe

/-! ## Paths -/

namespace Path

/-- The parts of a path between its slashes. -/
def parts (path : String) : List String :=
  (path.toList.splitOn '/').map String.ofList

/-- The last part of a path, unless it leads up or nowhere. Empty parts and single dots do
not count. -/
def fileName (path : String) : Option String :=
  (((parts path).filter fun p => p ≠ "" && p ≠ ".").getLast?).filter (· ≠ "..")

/-- What follows the last dot of the file name, unless the dot begins the name. -/
def suffix (path : String) : Option String :=
  (fileName path).bind fun name =>
    let back := name.toList.reverse
    let ending := back.takeWhile (· ≠ '.')
    if (back.drop (ending.length + 1)).isEmpty then none
    else some (String.ofList ending.reverse)

/-- The format that the name of a file tells; the case of letters does not count. -/
def format (path : String) : Option SourceFormat :=
  (suffix path).bind fun s =>
    let lower := String.ofList (s.toList.map Char.toLower)
    if lower = "json" then some .json else if lower = "toml" then some .toml else none

end Path

/-! ## File trees -/

/-- What a file holds. -/
inductive Content where
  | text (s : String)
  /-- Bytes that are not text. -/
  | binary
  deriving DecidableEq, Repr

/-- What a run may do with a file or a directory. -/
structure Access where
  /-- Read the file, or go through the directory. -/
  readable : Bool := true
  /-- Write to the file, or put a new file in the directory. -/
  writable : Bool := true
  deriving DecidableEq, Repr

/-- What stands at a place of a file tree. -/
inductive FileTree.Node where
  | file (content : Content) (access : Access)
  | directory (access : Access)
  /-- A symbolic link to the path. -/
  | link (target : String)
  deriving DecidableEq, Repr

/-- A file tree with a working place. A place is the list of the names on the way to it from
the root. -/
structure FileTree where
  /-- What stands at each place. Of two entries for one place, the first counts. -/
  entries : List (List String × FileTree.Node)
  /-- The place where a path begins that does not begin at the root. -/
  working : List String := []
  deriving DecidableEq, Repr

namespace FileTree

/-- The places on the way to a place, from the root on. -/
def above (place : List String) : List (List String) :=
  (List.range place.length).map place.take

/-- Files under their paths below a working place, with the directories on the way to each. -/
def ofFiles (working : List String) (files : List (String × Content)) : FileTree where
  entries :=
    let placed := files.map fun f =>
      (working ++ (Path.parts f.1).filter fun p => p ≠ "" && p ≠ ".", Node.file f.2 {})
    placed ++ ((working :: above working) ++ placed.flatMap (above ·.1)).map
      fun place => (place, .directory {})
  working := working

def nodeAt (t : FileTree) (place : List String) : Option Node := t.entries.lookup place

/-- There is a directory at this place that a path may lead through. -/
def isPassable (t : FileTree) (place : List String) : Bool :=
  match t.nodeAt place with
  | some (.directory access) => access.readable
  | _ => false

/-- There is a directory at this place that a new file may be put in. -/
def isOpen (t : FileTree) (place : List String) : Bool :=
  match t.nodeAt place with
  | some (.directory access) => access.writable
  | _ => false

/-- The path that a link at this place stands for. -/
def linkAt (t : FileTree) (place : List String) : Option String :=
  match t.nodeAt place with
  | some (.link target) => some target
  | _ => none

/-! ### Where paths lead -/

/-- How many bytes the name of a file may have. -/
def maxNameBytes : Nat := 255

/-- How many bytes a path may have. -/
def maxPathBytes : Nat := 4095

/-- How many links a path may lead through. -/
def maxLinks : Nat := 40

/-- The place where a path begins that is met at the given place. -/
def startOf (place : List String) (path : String) : List String :=
  if path.startsWith "/" then [] else place

/-- Where the rest of a path leads from a place, when `jump` tells where it leads from behind a
link. Every step starts from a directory, and the root lies above itself. -/
def followUntil (t : FileTree) (jump : List String → List String → Option (List String))
    (place : List String) : List String → Option (List String)
  | [] => some place
  | p :: rest =>
    if !t.isPassable place then none
    else if p = "" ∨ p = "." then t.followUntil jump place rest
    else if p = ".." then t.followUntil jump place.dropLast rest
    else if maxNameBytes < p.utf8ByteSize then none
    else match t.linkAt (place ++ [p]) with
      | some target => jump (startOf place target) (Path.parts target ++ rest)
      | none => t.followUntil jump (place ++ [p]) rest

/-- Where the rest of a path leads from a place, through so many links at most. -/
def follow (t : FileTree) : Nat → List String → List String → Option (List String)
  | 0 => t.followUntil fun _ _ => none
  | links + 1 => t.followUntil (t.follow links)

/-- The place that a path names. -/
def resolve (t : FileTree) (path : String) : Option (List String) :=
  if path.isEmpty || path.toList.contains '\x00' || maxPathBytes < path.utf8ByteSize then none
  else t.follow maxLinks (startOf t.working path) (Path.parts path)

/-- What stands at the place that a path names. -/
def find (t : FileTree) (path : String) : Option Node := (t.resolve path).bind t.nodeAt

/-! ### Reading and writing -/

/-- The text of a file that may be read. -/
def readText (t : FileTree) (path : String) : Option String :=
  match t.find path with
  | some (.file (.text s) access) => if access.readable then some s else none
  | _ => none

/-- The tree with something put at a place. -/
def put (t : FileTree) (place : List String) (node : Node) : FileTree :=
  { t with entries := (place, node) :: t.entries }

/-- The tree with a text written to a file, if there is such a file that takes it or there can be
a new one. -/
def writeText (t : FileTree) (path text : String) : Option FileTree :=
  match t.resolve path with
  | none => none
  | some place =>
    match t.nodeAt place with
    | some (.file _ access) =>
      if access.writable then some (t.put place (.file (.text text) access)) else none
    | some _ => none
    | none =>
      if t.isOpen place.dropLast then some (t.put place (.file (.text text) {})) else none

end FileTree

/-! ## Definitions in files -/

namespace Definition

/-- The definition in a file, where `readText` gives the text of a file that has one. Whether
its name tells a format is settled before the file is looked for. -/
def load (readText : String → Option String) (path : String) : Except LoadError Definition :=
  match Path.format path with
  | none => .error (.unsupported path)
  | some format =>
    match readText path with
    | none => .error (.unreadable path)
    | some source => parseNamed format path source

end Definition

end ModelScribe
