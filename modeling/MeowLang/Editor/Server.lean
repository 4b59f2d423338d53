import MeowLang.Editor.Workspace

/-! The service behind an editor: it keeps an index of names for the documents that are open, and
answers questions about the names in them. -/
namespace MeowLang.Editor

variable {σ ε α : Type}

structure Server (σ : Type) where
  index : Index
  /-- What is held of the documents that are open. -/
  held : σ
  /-- The path of the directory that the workspace is. -/
  root : Option String
  /-- The workspace has been looked through. -/
  scanned : Bool

namespace Server

def start (held : σ) (root : Option String) : Server σ := ⟨.empty, held, root, false⟩

/-- A request: its answer or what stopped it, the notes it made, and the service after it. -/
structure Reply (σ α : Type) where
  answer : Except Refusal α
  notes : List Note
  server : Server σ

/-- Takes over an index that was worked on. -/
def adopt (s : Server σ) : Except Refusal α × Desk → Reply σ α
  | (answer, desk) => ⟨answer, desk.notes, { s with index := desk.index }⟩

/-- A request that is refused and changes nothing. -/
def refuse (s : Server σ) (r : Refusal) : Reply σ α := ⟨.error r, [], s⟩

def update (files : FileTree) (s : Server σ) (uri text : String) : Reply σ Unit :=
  s.adopt (s.index.update files uri text)

def openDocument (W : Workspace σ ε) (files : FileTree) (s : Server σ) (uri text : String) :
    Reply σ Unit :=
  match W.objection? uri with
  | some r => s.refuse r
  | none => { s with held := W.put s.held uri text }.update files uri text

/-- A document was changed; its text is asked for when the change has been made. -/
def changeDocument (W : Workspace σ ε) (files : FileTree) (s : Server σ) (uri : String)
    (change : ε) : Reply σ Unit :=
  match W.edit s.held uri change with
  | .error r => s.refuse r
  | .ok held =>
    let s := { s with held := held }
    match W.source files held uri with
    | .error r => s.refuse r
    | .ok text => s.update files uri text

/-! ### The workspace -/

/-- The path of a place below the directory at `path`. -/
def below (path : String) (place : List String) : String :=
  Path.tidy (Path.join path ("/".intercalate place))

/-- The paths below a directory that end like programs, in the order in which the files are
listed. There are none where no directory is. -/
def sources (files : FileTree) (directory : String) : Except Refusal (List String) :=
  match files.locate directory with
  | .ok (.found place .directory) =>
    .ok (files.nodes.filterMap fun (p, _) =>
      if place.isPrefixOf p && place.length < p.length &&
          (p.getLast?.any (·.endsWith Path.sourceSuffix)) then
        some (below directory (p.drop place.length))
      else none)
  | .error .nameTooLong => .error (.halted (.unopened directory .nameTooLong))
  | _ => .ok []

/-- Reads a program of the workspace into the index. What cannot be opened is passed over. -/
def scanFile (files : FileTree) (path : String) : Indexing Unit := do
  if !Path.isAbsolute path then throw .relativePath
  match files.readText path with
  | .ok text => Indexing.update files (Indexing.ampleDepth files) (Uri.ofPath path) text
  | .error (.unopened path fault) => Indexing.note (.skipped path (.unopened path fault))
  | .error halt => throw (.halted halt)

def scanDirectory (files : FileTree) (path : String) : Indexing Unit := do
  match sources files (Path.tidy path) with
  | .ok paths => paths.forM (scanFile files)
  | .error r => throw r

/-- Looks through the workspace, once. An empty path is no workspace. -/
def scan (files : FileTree) (s : Server σ) : Reply σ Unit :=
  let server := { s with scanned := true }
  match s.root with
  | some path =>
    if s.scanned || path.isEmpty || Path.hasNul path then ⟨.ok (), [], server⟩
    else server.adopt ((scanDirectory files path).run ⟨s.index, []⟩)
  | none => ⟨.ok (), [], server⟩

/-! ### Questions -/

/-- The symbol of the word at a caret. The workspace is looked through only for a word. -/
def symbolAt (W : Workspace σ ε) (files : FileTree) (s : Server σ) (uri : String) (caret : Caret) :
    Reply σ (Option Symbol) :=
  match W.wordAt files s.held uri caret with
  | .error r => s.refuse r
  | .ok word =>
    if word.isEmpty then ⟨.ok none, [], s⟩
    else
      let reply := s.scan files
      ⟨reply.answer.map fun _ => reply.server.index.lookup word, reply.notes, reply.server⟩

/-- What is shown for the word at a caret. -/
def hover (W : Workspace σ ε) (files : FileTree) (s : Server σ) (uri : String) (caret : Caret) :
    Reply σ (Option String) :=
  let reply := s.symbolAt W files uri caret
  ⟨reply.answer.map (·.map Symbol.detail), reply.notes, reply.server⟩

/-- The document and the place that bind the word at a caret. -/
def definition (W : Workspace σ ε) (files : FileTree) (s : Server σ) (uri : String)
    (caret : Caret) : Reply σ (Option (String × Range)) :=
  let reply := s.symbolAt W files uri caret
  ⟨reply.answer.map (·.map fun symbol => (symbol.uri, symbol.range)), reply.notes, reply.server⟩

def clear (s : Server σ) : Server σ := { s with index := .empty }

end Server

end MeowLang.Editor
