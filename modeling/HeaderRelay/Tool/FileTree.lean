import HeaderRelay.Tool.FileAccess

/-!
# A file system in memory

* `FileTree` — what stands under each path;
* `FileTree.read`, `FileTree.write` — the content of a file, and the tree after a change;
* `FileTree.access` — the tree as a file system whose effect is to change it.

Paths are taken apart at slashes; an empty or single-dot part stays where it is, two dots lead up,
and everything before the last part has to be a directory. A path that is too long leads nowhere,
and a name that is too long is refused when its turn comes.
-/

namespace HeaderRelay
namespace Tool

inductive Entry where
  | file (content : List UInt8)
  | directory
  deriving DecidableEq, Repr

/-- Everything but the root, under its full list of names. -/
structure FileTree where
  entries : List (List String × Entry)

namespace FileTree

/-- What stands at a place; the root is a directory. -/
def entry? (tree : FileTree) (place : List String) : Option Entry :=
  if place = [] then some .directory else tree.entries.lookup place

/-- The tree with `entry` at `place`, whatever was there. -/
def set (tree : FileTree) (place : List String) (entry : Entry) : FileTree where
  entries := (place, entry) :: tree.entries.filter (·.1 ≠ place)

/-! ## Paths -/

/-- Most bytes in one name. -/
def maxNameBytes : Nat := 255

/-- Most bytes in a whole path. -/
def maxPathBytes : Nat := 4095

/-- A path taken apart. -/
structure Path where
  /-- The parts before the last. -/
  parents : List String
  /-- The last part, unless the path leads to the root or ends in dots. -/
  name : Option String
  /-- A slash stands at the end. -/
  slash : Bool
  deriving DecidableEq, Repr

def Path.ofString (text : String) : Path :=
  let parts := ((text.toList.splitOn '/').map String.ofList).filter (· ≠ "")
  let slash := text.toList.getLast? == some '/'
  match parts.getLast? with
  | none => { parents := [], name := none, slash }
  | some last =>
      if last = "." ∨ last = ".." then
        { parents := parts, name := none, slash }
      else
        { parents := parts.dropLast, name := some last, slash }

/-- What stands under a name in the directory `here`. -/
def child (tree : FileTree) (here : List String) (name : String) :
    Except FileError (Option Entry) :=
  if name.utf8ByteSize > maxNameBytes then .error .nameTooLong
  else .ok (tree.entry? (here ++ [name]))

/-- The directory to which `parts` lead from `here`. -/
def descend (tree : FileTree) (here : List String) :
    (parts : List String) → Except FileError (List String)
  | [] => .ok here
  | part :: rest =>
      if part = "." then
        tree.descend here rest
      else if part = ".." then
        tree.descend here.dropLast rest
      else
        match tree.child here part with
        | .ok (some .directory) => tree.descend (here ++ [part]) rest
        | .ok (some (.file _)) => .error .notADirectory
        | .ok none => .error .notFound
        | .error e => .error e

/-- What a path means before it is known whether something is there. -/
inductive Place where
  /-- A directory that exists, named by dots or by the root. -/
  | directory
  /-- A name in a directory that exists. -/
  | named (here : List String) (name : String) (slash : Bool)

def locate (tree : FileTree) (text : String) : Except FileError Place := do
  if text = "" then
    throw .notFound
  else if text.toList.contains '\x00' then
    throw .zeroInPath
  else if text.utf8ByteSize > maxPathBytes then
    throw .nameTooLong
  else
    let path := Path.ofString text
    let here ← tree.descend [] path.parents
    match path.name with
    | none => return .directory
    | some name => return .named here name path.slash

/-! ## Operations -/

/-- The entry to which a path leads. -/
def resolve (tree : FileTree) (text : String) : Except FileError Entry := do
  match ← tree.locate text with
  | .directory => return .directory
  | .named here name slash =>
      match ← tree.child here name with
      | none => throw .notFound
      | some .directory => return .directory
      | some (.file content) => if slash then throw .notADirectory else return .file content

def has (tree : FileTree) (text : String) : Bool :=
  (tree.resolve text).isOk

def read (tree : FileTree) (text : String) : Except FileError (List UInt8) := do
  match ← tree.resolve text with
  | .file content => return content
  | .directory => throw .isADirectory

def write (tree : FileTree) (text : String) (content : List UInt8) :
    Except FileError FileTree := do
  match ← tree.locate text with
  | .directory => throw .isADirectory
  | .named here name slash =>
      if slash then
        throw .isADirectory
      else if (← tree.child here name) = some .directory then
        throw .isADirectory
      else
        return tree.set (here ++ [name]) (.file content)

def access : FileAccess (StateM FileTree) where
  has path := return (← get).has path
  read path := return (← get).read path
  write path content := do
    match (← get).write path content with
    | .ok tree =>
        modify fun _ => tree
        return .ok ()
    | .error e => return .error e

end FileTree
end Tool
end HeaderRelay
