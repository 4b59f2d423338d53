import MeowLang.Assoc
import MeowLang.Editor.Caret
import MeowLang.Editor.Symbol
import MeowLang.Editor.Uri
import MeowLang.World

/-! The names that the documents of a workspace bind. Documents are kept in the order in
which they were first seen, and loads of libraries in files are followed. -/
namespace MeowLang.Editor

/-- The symbols of each document, and those of each name over all documents. -/
structure Index where
  documents : List (String × List Symbol)
  names : List (String × List Symbol)
  deriving DecidableEq, Repr

namespace Index

def empty : Index := ⟨[], []⟩

def contains (i : Index) (uri : String) : Bool := Assoc.contains uri i.documents

/-- The symbols of a document; an unknown one has none. -/
def symbols (i : Index) (uri : String) : List Symbol := (i.documents.lookup uri).getD []

def lookup (i : Index) (name : String) : Option Symbol :=
  (i.names.lookup name).bind List.head?

/-- Makes a document known; one that is known already keeps its symbols. -/
def claim (i : Index) (uri : String) : Index :=
  if i.contains uri then i else { i with documents := i.documents ++ [(uri, [])] }

def put (i : Index) (uri : String) (symbols : List Symbol) : Index :=
  { i with documents := Assoc.insert uri symbols i.documents }

def addName (names : List (String × List Symbol)) (s : Symbol) : List (String × List Symbol) :=
  Assoc.insert s.name ((names.lookup s.name).getD [] ++ [s]) names

/-- Gathers the symbols of each name anew from the documents. -/
def rebuild (i : Index) : Index :=
  { i with names := (i.documents.flatMap (·.2)).foldl addName [] }

end Index

/-! ### Notes -/

/-- What is told to whoever looks after the editor. -/
inductive Note where
  | kept (uri : String) (e : MalformedNumber)
  | notFollowed (name uri : String) (reason : Halt)
  | skipped (path : String) (reason : Halt)

namespace Note

def level : Note → String
  | kept _ _ => "INFO"
  | notFollowed _ _ _ | skipped _ _ => "WARNING"

def message : Note → String
  | kept uri e => "Keeping previous symbols for " ++ uri ++ ": " ++ e.message
  | notFollowed name uri reason =>
    "Cannot index include " ++ Text.quoted name ++ " from " ++ uri ++ ": " ++ reason.message
  | skipped path reason => "Skipping " ++ path ++ ": " ++ reason.message

end Note

/-! ### Refusals -/

inductive Refusal where
  | halted (h : Halt)
  | badAddress (fault : Uri.Fault)
  | badCaret (fault : Caret.Fault)
  /-- Only absolute paths have addresses. -/
  | relativePath
  /-- Only documents that are open can be changed. -/
  | notOpen (uri : String)

namespace Refusal

def title : Refusal → String
  | halted h => h.title
  | badAddress _ | badCaret _ | relativePath => "ValueError"
  | notOpen _ => "KeyError"

def message : Refusal → String
  | halted h => h.message
  | badAddress fault => fault.message
  | badCaret fault => fault.message
  | relativePath => "relative path can't be expressed as a file URI"
  | notOpen uri => Text.quoted uri

end Refusal

/-! ### Indexing -/

/-- An index at work, with the notes made so far. -/
structure Desk where
  index : Index
  notes : List Note

/-- A piece of indexing. What was changed before a refusal stays changed. -/
abbrev Indexing := ExceptT Refusal (StateM Desk)

namespace Indexing

def note (n : Note) : Indexing Unit := modify fun d => { d with notes := d.notes ++ [n] }

def change (f : Index → Index) : Indexing Unit := modify fun d => { d with index := f d.index }

/-- The absolute path that a path means. -/
def resolve (files : FileTree) (path : String) : Except Refusal String :=
  if Path.hasNul path then .error (.halted .nulInPath)
  else .ok (Path.resolve (FileTree.pathTo files.workingDirectory) path)

/-- The file that a document means by a library's name. -/
def target (files : FileTree) (uri name : String) : Except Refusal String := do
  let path ← (Uri.path uri).mapError .badAddress
  let document ← resolve files path
  resolve files (Path.join (Path.parent document) (name ++ Path.sourceSuffix))

/-- The address and the text of the library that a document loads, unless it is known
already or cannot be read. -/
def follow (files : FileTree) (uri name : String) : Indexing (Option (String × String)) := do
  let path ← liftExcept (target files uri name)
  let address := Uri.ofPath path
  if (← get).index.contains address then return none
  match files.readText path with
  | .ok text => return some (address, text)
  | .error reason =>
    note (.notFollowed name uri reason)
    return none
where
  liftExcept {α : Type} (e : Except Refusal α) : Indexing α := ExceptT.mk (pure e)

/-- The contents of a document as far as they can be read, otherwise what was known of it. -/
def contents (uri text : String) : Indexing Contents := do
  match survey uri text with
  | .read contents => return contents
  | .keep e =>
    note (.kept uri e)
    return ⟨(← get).index.symbols uri, []⟩
  | .refuse e => throw (.halted (.malformedNumber e))

/-- Takes `text` for the contents of a document and follows its loads. A document is made
known before it is read, so documents that load one another come to an end; `bound` limits
how deep loads are followed. -/
def update (files : FileTree) : Nat → String → String → Indexing Unit
  | 0, _, _ => pure ()
  | bound + 1, uri, text => do
    change (·.claim uri)
    let found ← contents uri text
    change (·.put uri found.symbols)
    found.includes.forM fun name => do
      match ← follow files uri name with
      | none => pure ()
      | some (address, text) => update files bound address text
    change Index.rebuild

/-- A bound that no chain of loads reaches: every document on it but the first is another
file of the tree. -/
def ampleDepth (files : FileTree) : Nat := files.nodes.length + 1

end Indexing

def Index.update (files : FileTree) (i : Index) (uri text : String) : Except Refusal Unit × Desk :=
  (Indexing.update files (Indexing.ampleDepth files) uri text).run ⟨i, []⟩

end MeowLang.Editor
