import MeowLang.Library
import MeowLang.Program.Grammar
import MeowLang.Text.Lines
import MeowLang.Text.WordChar

/-! What an editor shows of a document: the names that its top level binds. -/
namespace MeowLang.Editor

/-- A name bound at the top level of a document. Lines and columns count from zero;
a function has parameters. -/
structure Symbol where
  name : String
  uri : String
  line : Nat
  column : Nat
  params : Option (List String)
  deriving DecidableEq, Repr

/-- A stretch of a line; it ends before its last column. -/
structure Range where
  line : Nat
  start : Nat
  stop : Nat
  deriving DecidableEq, Repr

namespace Symbol

def isFunction (s : Symbol) : Bool := s.params.isSome

def detail (s : Symbol) : String :=
  match s.params with
  | none => "set " ++ s.name
  | some params => "function " ++ s.name ++ "(" ++ ", ".intercalate params ++ ")"

def range (s : Symbol) : Range := ⟨s.line, s.column, s.column + s.name.length⟩

end Symbol

/-! ### Finding names in lines -/

/-- The name starts the text, and no word goes on behind it. -/
def startsWithName (name text : List Char) : Bool :=
  name.isPrefixOf text && !((text.drop name.length).head?.any Text.isWordChar)

/-- Where a name first stands as a word of its own. `inWord` says whether the character
before the text is part of a word, and `column` counts the characters before it. -/
def nameColumnFrom (name : List Char) : Bool → Nat → List Char → Option Nat
  | _, _, [] => none
  | inWord, column, c :: rest =>
    if !inWord && startsWithName name (c :: rest) then some column
    else nameColumnFrom name (Text.isWordChar c) (column + 1) rest

/-- The column of a name in a line, which counts from one; zero if it does not stand there. -/
def nameColumn (lines : List String) (line : Nat) (name : String) : Nat :=
  if line = 0 then 0
  else
    match lines[line - 1]? with
    | none => 0
    | some text => (nameColumnFrom name.toList false 0 text.toList).getD 0

/-! ### Contents of documents -/

/-- The names that a document binds and the libraries in files that it loads, at its top
level and in its order. -/
structure Contents where
  symbols : List Symbol
  includes : List String
  deriving DecidableEq, Repr

namespace Contents

def params? : Expr → Option (List String)
  | .function params _ _ => some params
  | _ => none

def symbol? (uri : String) (lines : List String) : Stmt → Option Symbol
  | .bind name value line =>
    some ⟨name, uri, line.toNat - 1, nameColumn lines line.toNat name, params? value⟩
  | _ => none

/-- The library in a file that a statement loads. -/
def include? : Stmt → Option String
  | .load name _ => if Library.isBuiltIn name then none else some name
  | _ => none

/-- What the statements of a document hold; complaints about it are of no interest here. -/
def ofProgram (uri : String) (lines : List String) (program : Program) : Contents :=
  ⟨program.filterMap (symbol? uri lines), program.filterMap include?⟩

end Contents

inductive Survey where
  | read (contents : Contents)
  /-- A malformed number among statements: what was known of the document is kept. -/
  | keep (e : MalformedNumber)
  /-- A malformed number before the reading of statements could begin. -/
  | refuse (e : MalformedNumber)

def survey (uri text : String) : Survey :=
  match Reader.start text with
  | .error e => .refuse e
  | .ok r =>
    match Parsed.ofReader (Grammar.bound text) r with
    | .error e => .keep e
    | .ok parsed => .read (.ofProgram uri (Text.lines text) parsed.program)

theorem survey_of_ofSource {text : String} {parsed : Parsed}
    (h : Parsed.ofSource text = .ok parsed) (uri : String) :
    survey uri text = .read (.ofProgram uri (Text.lines text) parsed.program) := by
  rw [Parsed.ofSource] at h
  split at h
  · rename_i hstart
    simp only [survey, hstart, h]
  · cases h

end MeowLang.Editor
