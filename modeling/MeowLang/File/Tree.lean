import MeowLang.File.Path

/-! A tree of directories and files. A path is walked component by component, so each
component but the last must be a directory that exists. -/
namespace MeowLang

inductive FileFault where
  | notFound | denied | notDirectory | isDirectory | nameTooLong
  deriving DecidableEq, Repr

namespace FileFault

def code : FileFault → Nat
  | notFound => 2
  | denied => 13
  | notDirectory => 20
  | isDirectory => 21
  | nameTooLong => 36

def message : FileFault → String
  | notFound => "No such file or directory"
  | denied => "Permission denied"
  | notDirectory => "Not a directory"
  | isDirectory => "Is a directory"
  | nameTooLong => "File name too long"

def title : FileFault → String
  | notFound => "FileNotFoundError"
  | denied => "PermissionError"
  | notDirectory => "NotADirectoryError"
  | isDirectory => "IsADirectoryError"
  | nameTooLong => "OSError"

end FileFault

inductive FileNode where
  | file (octets : List UInt8)
  /-- A file that may be neither read nor written. -/
  | locked
  | directory
  deriving DecidableEq

/-- Every file and directory below the root by its components, in the order in which they are
listed, and the directory that relative paths start from. -/
structure FileTree where
  nodes : List (List String × FileNode)
  workingDirectory : List String

namespace FileTree

/-- What stands at a place; the root is a directory. -/
def node? (t : FileTree) (place : List String) : Option FileNode :=
  if place.isEmpty then some .directory else t.nodes.lookup place

/-- Where a path leads: to something, or to a free place in a directory. -/
inductive Target where
  | found (place : List String) (node : FileNode)
  | free (place : List String)
  deriving DecidableEq

def longestName : Nat := 255

def longestPath : Nat := 4095

/-- Follows components from the directory at `place`. -/
def walk (t : FileTree) : List String → List String → Except FileFault Target
  | place, [] => .ok (.found place .directory)
  | place, c :: rest =>
    if c == "." then walk t place rest
    else if c == ".." then walk t place.dropLast rest
    else if longestName < c.utf8ByteSize then .error .nameTooLong
    else
      let place := place ++ [c]
      match t.node? place, rest with
      | some .directory, rest => walk t place rest
      | some (.file octets), [] => .ok (.found place (.file octets))
      | some .locked, [] => .ok (.found place .locked)
      | some (.file _), _ | some .locked, _ => .error .notDirectory
      | none, [] => .ok (.free place)
      | none, _ => .error .notFound

/-- Follows components from where a path starts. -/
def follow (t : FileTree) (path : String) (parts : List String) : Except FileFault Target :=
  if path.isEmpty then .error .notFound
  else if longestPath < path.utf8ByteSize then .error .nameTooLong
  else t.walk (if Path.isAbsolute path then [] else t.workingDirectory) parts

def components (path : String) : List String := (Text.split path "/").filter (· != "")

/-- Where a path leads. A slash at its end asks for a directory, like a dot behind it. -/
def locate (t : FileTree) (path : String) : Except FileFault Target :=
  let parts := components path
  t.follow path (if path.endsWith "/" then parts ++ ["."] else parts)

def read (t : FileTree) (path : String) : Except FileFault (List UInt8) := do
  match ← t.locate path with
  | .found _ (.file octets) => .ok octets
  | .found _ .locked => .error .denied
  | .found _ .directory => .error .isDirectory
  | .free _ => .error .notFound

/-- Replaces a file or makes a new one. A path with a slash at its end names a directory,
whatever its last component leads to. -/
def write (t : FileTree) (path : String) (octets : List UInt8) : Except FileFault FileTree := do
  let put (place : List String) : FileTree :=
    { t with nodes := t.nodes.filter (·.1 != place) ++ [(place, .file octets)] }
  if path.endsWith "/" then
    let _ ← t.follow path ((components path).dropLast ++ ["."])
    .error .isDirectory
  else
    match ← t.locate path with
    | .found place (.file _) | .free place => .ok (put place)
    | .found _ .locked => .error .denied
    | .found _ .directory => .error .isDirectory

def pathExists (t : FileTree) (path : String) : Bool :=
  match t.locate path with
  | .ok (.found _ _) => true
  | _ => false

def isFile (t : FileTree) (path : String) : Bool :=
  match t.locate path with
  | .ok (.found _ (.file _)) | .ok (.found _ .locked) => true
  | _ => false

/-- An absolute path to a place. -/
def pathTo (place : List String) : String := "/" ++ "/".intercalate place

/-- Puts a directory at a place, and the directories above it. -/
def makeDirectory (t : FileTree) (place : List String) : FileTree :=
  let above := (List.range (place.length + 1)).map place.take
  let missing := above.filter fun p => (t.node? p).isNone
  { t with nodes := t.nodes ++ missing.map (·, .directory) }

def makeFile (t : FileTree) (place : List String) (file : FileNode) : FileTree :=
  let t := t.makeDirectory place.dropLast
  { t with nodes := t.nodes.filter (·.1 != place) ++ [(place, file)] }

def empty (workingDirectory : List String) : FileTree :=
  makeDirectory ⟨[], workingDirectory⟩ workingDirectory

end FileTree

end MeowLang
