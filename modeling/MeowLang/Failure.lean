import MeowLang.File.Tree
import MeowLang.Program.Reader
import MeowLang.Text.Utf8
import MeowLang.Token.Lexer
import MeowLang.Value

/-! How an evaluation can end otherwise than with a value. Faults and the other signals
are part of the language; a halt stops the whole run. -/
namespace MeowLang

/-! ### Faults -/

inductive Position where
  | first | second
  deriving DecidableEq, Repr

def Position.word : Position → String
  | first => "First"
  | second => "Second"

inductive Wanted where
  | array | string | number
  deriving DecidableEq, Repr

def Wanted.phrase : Wanted → String
  | array => "an array"
  | string => "a string"
  | number => "a number"

inductive Cause where
  | unboundName (name : String)
  | unusableKey (key : Value)
  | typeMismatch (left : Value) (op : Op) (right : Value)
  | unknownUnary (op : Op) (operand : Value)
  | unknownBinary (left : Value) (op : Op) (right : Value)
  | badPosition (collection position : Value)
  | notIndexed (collection : Value)
  | notFunction (callee : Value)
  | callArity (expected given : Nat)
  | strayControl (control : Control)
  | recursiveInclude (path : String)
  | unknownLibrary (name : String)
  | badLibrary (name : String) (errors : List SyntaxError)
  | argumentCount (got expected : Nat)
  | argumentsMissing (got least : Nat)
  | argument (position : Position) (wanted : Wanted) (got : Value)
  | noLength (got : Value)
  | endlessNap (duration : Float)
  | cannotOpen (path : String) (fault : FileFault)
  | cannotWrite (path : String) (fault : FileFault)
  | endlessBounds
  | emptyRange (low high : Int)
  | emptyChoice
  /-- A failure that an embedding program reports in its own words. -/
  | host (message : String)

def Cause.message : Cause → String
  | unboundName name => "identifier not found: " ++ name
  | unusableKey key => "unusable as hash key: " ++ key.display
  | typeMismatch l op r => "type mismatch: " ++ l.display ++ " " ++ op.symbol ++ " " ++ r.display
  | unknownUnary op v => "unknown operator: " ++ op.symbol ++ v.display
  | unknownBinary l op r =>
    "unknown operator: " ++ l.display ++ " " ++ op.symbol ++ " " ++ r.display
  | badPosition c i => "index operator not supported: " ++ c.display ++ "[" ++ i.display ++ "]"
  | notIndexed c => "index operator not supported: " ++ c.display
  | notFunction v => "not a function: " ++ v.display
  | callArity expected given =>
    "Wrong number of arguments: expected " ++ toString expected ++ ", given " ++ toString given
  | strayControl control => control.word ++ " outside of loop"
  | recursiveInclude path => "Recursive include of '" ++ path ++ "'"
  | unknownLibrary name => "Could not load lib: " ++ name
  | badLibrary name errors =>
    "\n".intercalate (("Could not load lib: " ++ name) :: errors.map ("\t" ++ ·.message))
  | argumentCount got expected =>
    "Wrong number of arguments. Got " ++ toString got ++ ". Expected " ++ toString expected ++ "."
  | argumentsMissing got least =>
    "Wrong number of arguments. Got " ++ toString got ++ ". Expected at least " ++
      toString least ++ "."
  | argument position wanted got =>
    position.word ++ " argument must be " ++ wanted.phrase ++ ". Got " ++ got.display
  | noLength got => "Argument must be a string or array. Got " ++ got.display
  | endlessNap x => "nap duration must be finite, got " ++ Number.display x
  | cannotOpen path fault => "Couldn't open " ++ path ++ ": " ++ fault.message
  | cannotWrite path fault => "Couldn't write to " ++ path ++ ": " ++ fault.message
  | endlessBounds => "randint bounds must be finite"
  | emptyRange low high =>
    "Empty range for randint: " ++ Decimal.ofInt low ++ " to " ++ Decimal.ofInt high
  | emptyChoice => "Cannot choose from an empty array"
  | host message => message

/-- A failure with the place where it surfaced, once that is known. -/
structure Fault where
  cause : Cause
  line : Option Int
  file : Option String

namespace Fault

def message (f : Fault) : String := f.cause.message

/-- Records a place, unless a line is known already. -/
def locate (f : Fault) (line : Option Int) (file : Option String) : Fault :=
  match f.line with
  | none => { f with line := line, file := file }
  | some _ => f

/-- The message with its place, if known, behind its first line. -/
def describe (f : Fault) : String :=
  match f.line with
  | none => f.message
  | some line =>
    let (head, rest) := Text.splitFirstLine f.message
    head ++ " on line " ++ Decimal.ofInt line ++ " in " ++ f.file.getD "None" ++ rest

end Fault

/-- The mark that a failure leaves where it is kept as data. -/
def Fault.mark (f : Fault) : Value := .failure f.message f.line f.file

/-- What stops the evaluation of the constructs around it. -/
inductive Signal where
  | returned (v : Value)
  | failed (f : Fault)
  | control (c : Control)

/-! ### Halts -/

/-- Why a clock does not let a program sleep. -/
inductive NapFault where
  | tooLong | invalid
  deriving DecidableEq, Repr

namespace NapFault

def title : NapFault → String
  | tooLong => "OverflowError"
  | invalid => "OSError"

def message : NapFault → String
  | tooLong => "timestamp out of range for platform time_t"
  | invalid => "[Errno 22] Invalid argument"

end NapFault

/-- What stops a run from outside the language. -/
inductive Halt where
  | malformedNumber (e : MalformedNumber)
  | libraryNotFound (name path : String)
  | syntaxErrors (file : String) (errors : List SyntaxError)
  | undecodable (fault : Text.Utf8.Fault)
  | unopened (path : String) (fault : FileFault)
  | nulInPath
  | sleepless (fault : NapFault)
  | interrupted
  | unknownStatement (node : Outline) (file : String)
  | unknownExpression (node : Outline)

namespace Halt

def title : Halt → String
  | malformedNumber _ => "MalformedNumberException"
  | libraryNotFound _ _ => "LibraryNotFoundException"
  | syntaxErrors _ _ => "MeowSyntaxError"
  | undecodable _ => "UnicodeDecodeError"
  | unopened _ fault => fault.title
  | nulInPath => "ValueError"
  | sleepless fault => fault.title
  | interrupted => "KeyboardInterrupt"
  | unknownStatement _ _ | unknownExpression _ => "RuntimeError"

def message : Halt → String
  | malformedNumber e => e.message
  | libraryNotFound name path =>
    "Lib not found: '" ++ name ++ "' (looked for " ++ path ++ ")"
  | syntaxErrors file errors =>
    "in " ++ file ++ "\n" ++ "\n".intercalate (errors.map ("\t" ++ ·.message))
  | undecodable fault => fault.message
  | unopened path fault =>
    "[Errno " ++ toString fault.code ++ "] " ++ fault.message ++ ": " ++ Text.quoted path
  | nulInPath => "embedded null byte"
  | sleepless fault => fault.message
  | interrupted => ""
  | unknownStatement node file =>
    "Unknown statement type: " ++ node.tag.inSentence ++ " on line " ++
      node.place.inSentence ++ " in " ++ file
  | unknownExpression node => "Invalid expression node: " ++ node.inSentence

end Halt

/-! ### Outcomes -/

/-- How an evaluation ends; it is exhausted if its bound on nesting and repetition is too
small. -/
inductive Outcome (α : Type) where
  | value (a : α)
  | signal (s : Signal)
  | halted (h : Halt)
  | exhausted

/-- A result, or a failure whose place is not known yet. -/
def Outcome.ofExcept {α : Type} : Except Cause α → Outcome α
  | .ok a => .value a
  | .error cause => .signal (.failed ⟨cause, none, none⟩)

end MeowLang
