import MeowLang.Text.Search

/-! Paths as texts, and their normal form: no empty component, no dot, and dots for the
directory above only at the start of a relative path. Exactly two slashes at the start are
kept, since they may mean something else than one. -/
namespace MeowLang.Path

/-- The slashes at the start of the normal form. -/
def root (path : String) : String :=
  match path.toList with
  | '/' :: '/' :: '/' :: _ => "/"
  | '/' :: '/' :: _ => "//"
  | '/' :: _ => "/"
  | _ => ""

def isAbsolute (path : String) : Bool := path.startsWith "/"

/-- The components in normal form. `stack` holds those before them, the last one first. -/
def collapse (rooted : Bool) : List String → List String → List String
  | stack, [] => stack.reverse
  | stack, c :: rest =>
    if c == "" || c == "." then collapse rooted stack rest
    else if c == ".." then
      match stack with
      | [] => collapse rooted (if rooted then [] else [".."]) rest
      | last :: before =>
        if last == ".." then collapse rooted (".." :: stack) rest
        else collapse rooted before rest
    else collapse rooted (c :: stack) rest

def normalize (path : String) : String :=
  let start := root path
  let text := start ++ "/".intercalate (collapse (start != "") [] (Text.split path "/"))
  if text.isEmpty then "." else text

/-- `name` as seen from the directory `base`; an absolute name does not look at it. -/
def join (base name : String) : String :=
  if isAbsolute name then name
  else if base.isEmpty || base.endsWith "/" then base ++ name
  else base ++ "/" ++ name

def parent (path : String) : String :=
  let start := root path
  start ++ "/".intercalate (collapse (start != "") [] (Text.split path "/")).dropLast

/-- No path to a file holds this character. -/
def hasNul (path : String) : Bool := path.toList.contains '\x00'

/-- The path without empty components and dots; dots for the directory above stay. -/
def tidy (path : String) : String :=
  let parts := (Text.split path "/").filter fun c => c != "" && c != "."
  let text := root path ++ "/".intercalate parts
  if text.isEmpty then "." else text

/-- The absolute path of a place, seen from the working directory. -/
def resolve (workingDirectory path : String) : String :=
  "/" ++ "/".intercalate (collapse true [] (Text.split (join workingDirectory path) "/"))

/-- The ending of the files that hold programs. -/
def sourceSuffix : String := ".meow"

/-- The file that a library name means for programs in the directory `base`. -/
def ofLibrary (workingDirectory base name : String) : String :=
  normalize (join workingDirectory (join base (name ++ sourceSuffix)))

end MeowLang.Path
