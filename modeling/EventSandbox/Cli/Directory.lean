import EventSandbox.Cli.Program

/-!
# EventSandbox.Cli.Directory — a directory without a disk

A run needs to know what is found under a path. Here the files are a value: each has a way, the
names that lead to it, and a content. Whatever leads to some file is a folder.

A path is followed name by name from the directory or, if it starts with a slash, from the root.
Every name, even an empty one, is looked up in a folder, so a file may only stand at the end.
Outside the directory nothing is known but a few folders and devices that every system has; one
of the devices holds the input of the run, which can be read once.
-/

namespace EventSandbox.Cli

/-! ## Trees -/

/-- What stands in a tree. -/
inductive Node
  | file (content : Content)
  | folder
  /-- The input of the run. -/
  | input

/-- What stands where, by ways. -/
structure Tree where
  nodes : List (List String × Node)
  /-- Whether nothing lies above the tree. -/
  outermost : Bool

namespace Tree

/-- What stands at a way, if anything does. -/
def node? (t : Tree) (way : List String) : Option Node :=
  match t.nodes.lookup way with
  | some node => some node
  | none => if t.nodes.any fun entry => way.isPrefixOf entry.1 then some .folder else none

/-- The tree with a file at a way, in place of what was there. -/
def put (t : Tree) (way : List String) (content : Content) : Tree :=
  { t with nodes := (way, .file content) :: t.nodes.filter fun entry => entry.1 ≠ way }

end Tree

/-! ## Refusals -/

namespace Found

/-- Nothing there. -/
def missing : Found := .absent "No such file or directory (os error 2)"

/-- A file where a folder should be. -/
def notFolder : Found := .absent "Not a directory (os error 20)"

/-- A name or a path that is too long for any file. -/
def tooLong : Found := .absent "File name too long (os error 36)"

/-- A path that cannot be handed to a system. -/
def unusable : Found := .absent "file name contained an unexpected NUL byte"

/-- A folder where a file should be. -/
def isFolder : Found := .unreadable "Is a directory (os error 21)"

end Found

/-! ## Paths -/

/-- The most bytes of a name. -/
def maxNameLength : Nat := 255

/-- The most bytes of a path. -/
def maxPathLength : Nat := 4095

/-- Where a path has led so far. -/
inductive Spot
  | file (content : Content)
  | input
  | folder (tree : Tree) (way : List String)
  /-- A folder above a tree. What else it holds is not known. -/
  | above

/-- Whether a name stands for the folder that it is looked up in. -/
def isHere (name : String) : Bool := name = "" || name = "."

/-- The name of the folder above. -/
def parentName : String := ".."

/-- Looks a name up. -/
def Spot.enter (spot : Spot) (name : String) : Except Found Spot :=
  match spot with
  | .file _ | .input => .error .notFolder
  | .above =>
    if isHere name ∨ name = parentName then .ok .above
    else if maxNameLength < name.utf8ByteSize then .error .tooLong
    else .error .missing
  | .folder tree way =>
    if isHere name then .ok (.folder tree way)
    else if name = parentName then
      if way.isEmpty ∧ ¬ tree.outermost then .ok .above else .ok (.folder tree way.dropLast)
    else if maxNameLength < name.utf8ByteSize then .error .tooLong
    else
      match tree.node? (way ++ [name]) with
      | some (.file content) => .ok (.file content)
      | some .input => .ok .input
      | some .folder => .ok (.folder tree (way ++ [name]))
      | none => .error .missing

/-! ## Directories -/

/-- A directory and the system that it is on. -/
structure Directory where
  here : Tree
  system : Tree

namespace Directory

/-- The folders at the root of every system. -/
def commonFolders : List String :=
  ["bin", "dev", "etc", "home", "lib", "opt", "proc", "root", "run", "sbin", "sys", "tmp", "usr",
    "var"]

/-- What every system has. -/
def commonSystem : Tree where
  nodes :=
    [ (["dev", "null"], .file ⟨[], none⟩), (["dev", "stdin"], .input) ]
      ++ commonFolders.map fun name => ([name], .folder)
  outermost := true

/-- The way of a path inside the directory. -/
def wayOf (path : String) : List String :=
  (path.splitOn "/").foldl
    (fun way name =>
      if isHere name then way else if name = parentName then way.dropLast else way ++ [name])
    []

/-- A directory with files that are written one after another. -/
def ofFiles (files : List (String × Content)) : Directory where
  here := files.foldl (fun tree (path, content) => tree.put (wayOf path) content)
    ⟨[([], .folder)], false⟩
  system := commonSystem

/-- Follows a path. -/
def follow (d : Directory) (path : String) : Except Found Spot :=
  if path.contains '\x00' then .error .unusable
  else if path.isEmpty then .error .missing
  else if maxPathLength < path.utf8ByteSize then .error .tooLong
  else
    let tree := if path.startsWith "/" then d.system else d.here
    (path.splitOn "/").foldlM Spot.enter (.folder tree [])

/-- What is found under a path when so much input is left. -/
def find (d : Directory) (path : String) (input : Bytes) : Found × Bytes :=
  match d.follow path with
  | .error found => (found, input)
  | .ok (.file content) => (.content content, input)
  | .ok .input => (.content ⟨input, none⟩, [])
  | .ok (.folder ..) | .ok .above => (.isFolder, input)

/-- A directory as the world of a run, whose state is the input that is left. -/
def environment (d : Directory) (units : UInt64) (configVariable? : Option String) (clock : Clock) :
    Environment (StateM Bytes) where
  units
  configVariable?
  find := fun path => modifyGet (d.find path)
  input := modifyGet fun input => (input, [])
  pace := Ticker.usualPace
  clock := pure clock

end Directory

end EventSandbox.Cli
