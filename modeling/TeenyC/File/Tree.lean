import TeenyC.Artifact
import TeenyC.File.Fault

/-
  Files and directories as a map from places to nodes, and the
  paths that lead to them.

  A path is followed name by name from the root or from the
  working directory. Each name must be looked up in a directory;
  the last may be new when a file is created.

  Key definitions include:
    * `Node`
    * `FileTree`
    * `FileTree.lookup`
    * `FileTree.put`
    * `FilePath`
    * `FileTree.walk`
    * `FileTree.read`
    * `FileTree.contents?`
    * `FileTree.create`
    * `FileTree.write`
    * `FileTree.ofFiles`
-/

namespace TeenyC

------------------------------------------------------------
-- Trees
------------------------------------------------------------

/-
  What stands at a place: a directory, a file with its bytes,
  or a device that takes so many bytes and keeps none.
-/
inductive Node where
| directory
| regular (bytes : List UInt8)
| device (room : Option Nat)
deriving DecidableEq

/- A place is given by the names on the way from the root. -/
abbrev Location := List String

/- The nodes by place, and the working directory. -/
structure FileTree where
  nodes : List (Location × Node)
  working : Location
deriving DecidableEq

namespace FileTree

/- The node at a place. -/
def lookup
    (tree : FileTree)
    (location : Location) : Option Node :=
  tree.nodes.lookup location

/- Put a node at a place, over what stands there. -/
def put
    (tree : FileTree)
    (location : Location)
    (node : Node) : FileTree :=
  { tree with
    nodes :=
      (location, node) ::
        tree.nodes.filter fun entry => entry.1 != location }

/- What was put at a place stands there. -/
theorem lookup_put_self
    (tree : FileTree)
    (location : Location)
    (node : Node) :
    (tree.put location node).lookup location = some node := by
  simp [lookup, put]

/- Other places stay as they are. -/
theorem lookup_put_of_ne
    (tree : FileTree)
    {location other : Location}
    (hOther : other ≠ location)
    (node : Node) :
    (tree.put location node).lookup other =
      tree.lookup other := by
  have hFirst : (other == location) = false := by
    simpa using hOther
  simp only [lookup, put, List.lookup_cons, hFirst]
  induction tree.nodes with
  | nil => rfl
  | cons entry rest ih =>
      rcases entry with ⟨place, standing⟩
      by_cases hPlace : place = location
      · have hSkip : (other == place) = false := by
          simpa [hPlace] using hOther
        simpa [List.filter_cons, hPlace, List.lookup_cons,
          hFirst] using ih
      · cases hHere : other == place with
        | true =>
            simp [hPlace, List.lookup_cons, hHere]
        | false =>
            simpa [List.filter_cons, hPlace, List.lookup_cons,
              hHere] using ih

end FileTree

------------------------------------------------------------
-- Paths
------------------------------------------------------------

/-
  A path is absolute or relative, and may end with a slash,
  which asks for a directory.
-/
structure FilePath where
  absolute : Bool
  names : List String
  closed : Bool
deriving DecidableEq

namespace FilePath

/- A name holds at most this many bytes. -/
def longestName : Nat := 255

/- A whole path holds at most this many bytes. -/
def longestPath : Nat := 4095

/- The names between the slashes of a path. -/
def namesOf (path : String) : List String :=
  ((path.toList.splitOn '/').map String.ofList).filter (· != "")

/- Take a path apart, or find that no file can have it. -/
def ofString (path : String) : Except Fault FilePath :=
  if path.toList.contains '\x00' then .error .nulInPath
  else if path.isEmpty then .error .noSuchFile
  else if longestPath < path.utf8ByteSize then
    .error .nameTooLong
  else
    .ok
      { absolute := path.toList.head? == some '/'
        names := namesOf path
        closed := path.toList.getLast? == some '/' }

/- The place that a path is followed from. -/
def origin
    (path : FilePath)
    (working : Location) : Location :=
  if path.absolute then [] else working

end FilePath

namespace FileTree

/- Require a directory. -/
def enter
    (tree : FileTree)
    (location : Location) : Except Fault Unit :=
  match tree.lookup location with
  | none => .error .noSuchFile
  | some .directory => .ok ()
  | some (.regular _) | some (.device _) => .error .notDirectory

/- Follow one name from a directory. -/
def walkName
    (tree : FileTree)
    (location : Location)
    (name : String) : Except Fault Location := do
  tree.enter location
  if name = "." then return location
  else if name = ".." then return location.dropLast
  else if FilePath.longestName < name.utf8ByteSize then
    throw .nameTooLong
  else return location ++ [name]

/- Follow names one after the other. -/
def walk
    (tree : FileTree)
    (location : Location)
    (names : List String) : Except Fault Location :=
  names.foldlM tree.walkName location

------------------------------------------------------------
-- Reading and Writing
------------------------------------------------------------

/- The node at a path. -/
def find
    (tree : FileTree)
    (path : String) : Except Fault Node := do
  let path ← FilePath.ofString path
  let location ←
    tree.walk (path.origin tree.working) path.names
  if path.closed then tree.enter location
  match tree.lookup location with
  | none => throw .noSuchFile
  | some node => return node

/- The bytes of the file at a path. A device has none to give. -/
def read
    (tree : FileTree)
    (path : String) : Except Fault (List UInt8) := do
  match ← tree.find path with
  | .directory => throw .isDirectory
  | .regular bytes => return bytes
  | .device _ => return []

/- What a regular file at a path holds. -/
def contents?
    (tree : FileTree)
    (path : String) : Option (List UInt8) :=
  match tree.find path with
  | .ok (.regular bytes) => some bytes
  | _ => none

/-
  The place of the file to be created at a path. Its directory
  must be there, and its name must not stand for a directory.
-/
def place
    (tree : FileTree)
    (path : String) : Except Fault Location := do
  let path ← FilePath.ofString path
  match path.names.getLast? with
  | none => throw .isDirectory
  | some name =>
      let parent ←
        tree.walk (path.origin tree.working) path.names.dropLast
      tree.enter parent
      if path.closed || name = "." || name = ".." then
        throw .isDirectory
      tree.walkName parent name

/-
  Make the file at a path empty, and tell its place and how
  many bytes may be written there.
-/
def create
    (tree : FileTree)
    (path : String) :
    Except Fault (Location × Option Nat × FileTree) := do
  let location ← tree.place path
  match tree.lookup location with
  | some .directory => throw .isDirectory
  | some (.device room) => return (location, room, tree)
  | some (.regular _) | none =>
      return (location, none, tree.put location (.regular []))

/- Write bytes to a file that has just been made empty. -/
def fill
    (tree : FileTree)
    (location : Location)
    (bytes : List UInt8) : FileTree :=
  match tree.lookup location with
  | some (.regular _) => tree.put location (.regular bytes)
  | _ => tree

/- Write an artifact to the file at a path, over what it holds. -/
def write
    (tree : FileTree)
    (path : String)
    (a : Artifact) : Except Fault Unit × FileTree :=
  match tree.create path with
  | .error fault => (.error fault, tree)
  | .ok (location, room, created) =>
      let (complete, sink) := a.writeTo (Sink.fresh room)
      (if complete then .ok () else .error .noSpace,
        created.fill location sink.taken)

------------------------------------------------------------
-- Trees to Work In
------------------------------------------------------------

/- The places that are always there, the devices among them. -/
def base : FileTree where
  nodes :=
    [([], .directory),
      (["work"], .directory),
      (["dev"], .directory),
      (["dev", "null"], .device none),
      (["dev", "full"], .device (some 0))]
  working := ["work"]

/- Put a node at a place, with directories on the way to it. -/
def plant
    (tree : FileTree)
    (location : Location)
    (node : Node) : FileTree :=
  let parents :=
    (List.range location.length).map fun n => location.take n
  let withParents :=
    parents.foldl
      (fun tree parent =>
        match tree.lookup parent with
        | some _ => tree
        | none => tree.put parent .directory)
      tree
  withParents.put location node

/- A working directory with the given nodes by their names. -/
def ofFiles (files : List (String × Node)) : FileTree :=
  files.foldl
    (fun tree (name, node) =>
      tree.plant (tree.working ++ FilePath.namesOf name) node)
    base

end FileTree

end TeenyC
