import MeowLang.Program
import MeowLang.Text.Search
import MeowLang.Token.Lexer

/-! Reading a text sign by sign, with one sign of lookahead. A reading starts on the first sign
of its construct and ends on the last one; it either gives a result or fails, and in both cases
the signs it went past stay read and the errors it recorded stay recorded. Signs are taken from
the text when they are needed, so a numeral that is no number stops a reading only once it has
come that far. -/
namespace MeowLang

inductive SyntaxError where
  /-- The sign behind the current one is not the one that must stand there. -/
  | expected (wanted got : Kind)
  /-- No expression starts with this sign. -/
  | noOperand (got : Kind)
  /-- A parameter must be a name. -/
  | parameter (got : Kind)
  deriving DecidableEq, Repr

namespace SyntaxError

/-- The complaint about a block that the end of the text cuts off. -/
def unclosedBlock : SyntaxError := .expected (.mark .rightBrace) .eof

def message : SyntaxError → String
  | expected wanted got =>
    "Expected next token to be " ++ wanted.describe ++ ", got " ++ got.describe ++ " instead"
  | noOperand got => "No prefix parse function for " ++ got.describe ++ " found"
  | parameter got => "Expected identifier as parameter name, got " ++ got.name ++ " instead"

/-- The message has the name of the end of the text in it, so more text might mend the
complaint. The name is also a part of another sign's name, which counts as well. -/
def mentionsEnd (e : SyntaxError) : Bool :=
  Text.occursIn Kind.eof.name.toList e.message.toList

end SyntaxError

/-- A text that is being read: the sign that reading is on, the one behind it, what stands
behind both, and the errors so far. -/
structure Reader where
  here : Sign
  ahead : Sign
  cursor : Lexer.Cursor
  errors : List SyntaxError
  ahead_of_here : here.terminal = .eof → ahead.terminal = .eof
  rest_of_ahead : ahead.terminal = .eof → cursor.rest = []

namespace Reader

/-- What a cursor may give for the next sign, with the place behind it. -/
abbrev Taken : Type := Except MalformedNumber Sign × Lexer.Cursor

/-- The reader on the sign `here`, with the next sign as it was taken. -/
def onto (here : Sign) (errors : List SyntaxError) : (taken : Taken) →
    (∀ s behind, taken = (.ok s, behind) → here.terminal = .eof → s.terminal = .eof) →
    (∀ s behind, taken = (.ok s, behind) → s.terminal = .eof → behind.rest = []) →
    Except MalformedNumber Reader
  | (.error e, _), _, _ => .error e
  | (.ok s, behind), ahead_of_here, rest_of_ahead =>
    .ok ⟨here, s, behind, errors, ahead_of_here s behind rfl, rest_of_ahead s behind rfl⟩

/-- The reader on the sign `here`, with the next one taken from what stands behind it. -/
def take (here : Sign) (cursor : Lexer.Cursor) (errors : List SyntaxError)
    (rest_of_here : here.terminal = .eof → cursor.rest = []) : Except MalformedNumber Reader :=
  onto here errors cursor.sign
    (fun s behind h heof => by
      rw [Lexer.Cursor.sign_of_rest_nil (rest_of_here heof)] at h
      cases h
      rfl)
    fun _ _ h => Lexer.Cursor.rest_of_sign_eof h

/-- The reader on the first sign, as it was taken. -/
def ofFirst : (taken : Taken) →
    (∀ s behind, taken = (.ok s, behind) → s.terminal = .eof → behind.rest = []) →
    Except MalformedNumber Reader
  | (.error e, _), _ => .error e
  | (.ok first, behind), rest_of_first => take first behind [] (rest_of_first first behind rfl)

def start (source : String) : Except MalformedNumber Reader :=
  ofFirst (Lexer.Cursor.start source).sign fun _ _ h => Lexer.Cursor.rest_of_sign_eof h

def current (r : Reader) : Terminal := r.here.terminal

def peek (r : Reader) : Terminal := r.ahead.terminal

def line (r : Reader) : Nat := r.here.line

/-- The reader on the next sign; behind the last one stands the end of the text. -/
def advance (r : Reader) : Except MalformedNumber Reader :=
  take r.ahead r.cursor r.errors r.rest_of_ahead

def record (r : Reader) (e : SyntaxError) : Reader := { r with errors := r.errors ++ [e] }

end Reader

inductive Reading (α : Type) where
  | got (a : α)
  | failed
  /-- A numeral that is no number came next. -/
  | broken (e : MalformedNumber)
  /-- The bound on readings inside each other was too small. -/
  | exhausted

/-- A reading: it may fail, and moves the reader either way. -/
def Parse (α : Type) : Type := Reader → Reading α × Reader

namespace Parse

@[always_inline]
instance : Monad Parse where
  pure a := fun r => (.got a, r)
  bind p f := fun r =>
    match p r with
    | (.got a, r) => f a r
    | (.failed, r) => (.failed, r)
    | (.broken e, r) => (.broken e, r)
    | (.exhausted, r) => (.exhausted, r)

def fail {α : Type} : Parse α := fun r => (.failed, r)

def exhausted {α : Type} : Parse α := fun r => (.exhausted, r)

def complain {α : Type} (e : SyntaxError) : Parse α := fun r => (.failed, r.record e)

/-- Fails with a complaint, unless it is the last one already. -/
def complainOnce {α : Type} (e : SyntaxError) : Parse α := fun r =>
  (.failed, if r.errors.getLast? = some e then r else r.record e)

def current : Parse Terminal := fun r => (.got r.current, r)

def peek : Parse Terminal := fun r => (.got r.peek, r)

def line : Parse Int := fun r => (.got (r.line : Int), r)

def advance : Parse Unit := fun r =>
  match r.advance with
  | .ok r => (.got (), r)
  | .error e => (.broken e, r)

/-- The result of a reading that may fail; goes on in both cases. -/
def attempt {α : Type} (p : Parse α) : Parse (Option α) := fun r =>
  match p r with
  | (.got a, r) => (.got (some a), r)
  | (.failed, r) => (.got none, r)
  | (.broken e, r) => (.broken e, r)
  | (.exhausted, r) => (.exhausted, r)

def ofOption {α : Type} : Option α → Parse α
  | some a => pure a
  | none => fail

/-- Moves on to the next sign if it is of the wanted kind, and fails in place otherwise. -/
def expect (wanted : Kind) : Parse Unit := do
  let got ← peek
  if got.kind = wanted then advance
  else complain (.expected wanted got.kind)

/-- Moves on to the next sign, which must be a name. -/
def expectName : Parse String := do
  expect .ident
  match ← current with
  | .ident name => pure name
  | _ => fail

/-- Moves on to the next sign, which must be a text in quotes. -/
def expectText : Parse String := do
  expect .string
  match ← current with
  | .string body => pure body
  | _ => fail

/-- Moves on to a semicolon if one follows. -/
def skipSemicolon : Parse Unit := do
  if (← peek) = .mark .semicolon then advance

end Parse

end MeowLang
