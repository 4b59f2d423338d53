import MeowLang.Program.Reader

/-! The grammar of programs. Expressions are read by climbing through the binding powers:
an operand, then every operator behind it that binds more tightly than the caller asked
for. Each reading takes a bound on the nesting of further readings; it is exhausted where the
bound is too small, and otherwise the bound does not matter. A program is read with a bound
that grows with its length. -/
namespace MeowLang

namespace Grammar

open Parse

/-- Names between commas up to the closing bracket, from the sign before the first name. -/
def names : Nat → Parse (List String)
  | 0 => exhausted
  | n + 1 => do
    advance
    match ← current with
    | .ident name =>
      if (← peek) = .mark .comma then
        advance
        let more ← names n
        pure (name :: more)
      else pure [name]
    | t => complain (.parameter t.kind)

/-- The parameters of a function, from the opening bracket to the closing one. -/
def params (n : Nat) : Parse (List String) := do
  if (← peek) = .mark .rightParen then
    advance
    pure []
  else
    let names ← names n
    expect (.mark .rightParen)
    pure names

mutual

/-- An expression whose operators bind more tightly than `power`. -/
def expr : Nat → Nat → Parse Expr
  | 0, _ => exhausted
  | n + 1, power => do
    let left ← operand n
    climb n power left
termination_by structural n => n

/-- Extends `left` by the operators behind it that bind more tightly than `power`. -/
def climb : Nat → Nat → Expr → Parse Expr
  | 0, _, _ => exhausted
  | n + 1, power, left => do
    match ← peek with
    | .mark m =>
      if power < m.precedence then
        advance
        let left ← extend n m left
        climb n power left
      else pure left
    | _ => pure left
termination_by structural n => n

/-- Extends `left` by one operator, call or index. -/
def extend : Nat → Mark → Expr → Parse Expr
  | 0, _, _ => exhausted
  | n + 1, m, left => do
    let line ← line
    match m with
    | .leftParen =>
      let args ← items n .rightParen
      pure (.call left args line)
    | .leftBracket =>
      advance
      let position ← expr n lowestPrecedence
      expect (.mark .rightBracket)
      pure (.index left position line)
    | m =>
      let op ← ofOption m.binaryOp?
      advance
      let right ← expr n m.precedence
      pure (.between op left right line)
termination_by structural n => n

/-- An expression without operators behind it. -/
def operand : Nat → Parse Expr
  | 0 => exhausted
  | n + 1 => do
    let line ← line
    match ← current with
    | .ident name => pure (.ident name line)
    | .number x => pure (.number x line)
    | .string body => pure (.string body line)
    | .boolean b => pure (.bool b line)
    | .mark .leftParen =>
      advance
      let inner ← attempt (expr n lowestPrecedence)
      expect (.mark .rightParen)
      ofOption inner
    | .mark .ifWord => conditional n
    | .mark .functionWord =>
      expect (.mark .leftParen)
      let params ← params n
      expect (.mark .leftBrace)
      let body ← block n
      pure (.function params body line)
    | .mark .leftBracket =>
      let items ← items n .rightBracket
      pure (.array items line)
    | .mark .leftBrace =>
      let entries ← entries n
      advance
      pure (.object entries line)
    | .mark .typeofWord =>
      advance
      let inner ← expr n prefixPrecedence
      pure (.kindOf inner line)
    | .mark .loopWord =>
      expect (.mark .leftBrace)
      let body ← block n
      pure (.loop body line)
    | .mark m =>
      match m.unaryOp? with
      | some op =>
        advance
        let inner ← expr n prefixPrecedence
        pure (.prefixed op inner line)
      | none => complain (.noOperand (.mark m))
    | t => complain (.noOperand t.kind)
termination_by structural n => n

/-- A condition with its branches; a condition in the place of the second branch is a
branch of one statement. -/
def conditional : Nat → Parse Expr
  | 0 => exhausted
  | n + 1 => do
    let line ← line
    expect (.mark .leftParen)
    advance
    let test ← expr n lowestPrecedence
    expect (.mark .rightParen)
    expect (.mark .leftBrace)
    let yes ← block n
    if (← peek) = .mark .elseWord then
      advance
      if (← peek) = .mark .ifWord then
        advance
        let nested ← conditional n
        pure (.cond test yes (some [.expr nested nested.line]) line)
      else
        expect (.mark .leftBrace)
        let no ← block n
        pure (.cond test yes (some no) line)
    else pure (.cond test yes none line)
termination_by structural n => n

/-- Expressions between commas, from the opening bracket to the closing one; a comma may
stand behind the last one. -/
def items : Nat → Mark → Parse (List Expr)
  | 0, _ => exhausted
  | n + 1, close => do
    if (← peek) = .mark close then
      advance
      pure []
    else
      advance
      let first ← expr n lowestPrecedence
      let more ← moreItems n close
      expect (.mark close)
      pure (first :: more)
termination_by structural n => n

def moreItems : Nat → Mark → Parse (List Expr)
  | 0, _ => exhausted
  | n + 1, close => do
    if (← peek) = .mark .comma then
      advance
      if (← peek) = .mark close then pure []
      else
        advance
        let item ← expr n lowestPrecedence
        let more ← moreItems n close
        pure (item :: more)
    else pure []
termination_by structural n => n

/-- Keys and values up to the sign before the closing brace. -/
def entries : Nat → Parse (List (Expr × Expr))
  | 0 => exhausted
  | n + 1 => do
    if (← peek) = .mark .rightBrace then pure []
    else
      advance
      let key ← expr n lowestPrecedence
      expect (.mark .colon)
      advance
      let value ← expr n lowestPrecedence
      unless (← peek) = .mark .rightBrace do expect (.mark .comma)
      let more ← entries n
      pure ((key, value) :: more)
termination_by structural n => n

/-- The statements of a block, from the opening brace to the closing one. -/
def block : Nat → Parse (List Stmt)
  | 0 => exhausted
  | n + 1 => do
    advance
    blockRest n
termination_by structural n => n

/-- The statements up to the closing brace. Blocks around one that the text cuts off are
cut off too, and this is said once. -/
def blockRest : Nat → Parse (List Stmt)
  | 0 => exhausted
  | n + 1 => do
    match ← current with
    | .mark .rightBrace => pure []
    | .eof => complainOnce .unclosedBlock
    | _ =>
      let first ← attempt (statement n)
      advance
      let more ← blockRest n
      pure (first.toList ++ more)
termination_by structural n => n

/-- One statement with the semicolon behind it, if there is one. A semicolon alone is no
statement, and fails without a complaint. -/
def statement : Nat → Parse Stmt
  | 0 => exhausted
  | n + 1 => do
    let line ← line
    match ← current with
    | .mark .semicolon => fail
    | .mark .setWord =>
      let name ← expectName
      expect (.mark .assign)
      advance
      let value ← expr n lowestPrecedence
      skipSemicolon
      pure (.bind name value line)
    | .mark .anewWord =>
      let name ← expectName
      expect (.mark .assign)
      advance
      let value ← expr n lowestPrecedence
      skipSemicolon
      pure (.rebind name value line)
    | .mark .returnWord =>
      match ← peek with
      | .mark .semicolon | .mark .rightBrace | .eof =>
        skipSemicolon
        pure (.giveBack none line)
      | _ =>
        advance
        let value ← expr n lowestPrecedence
        skipSemicolon
        pure (.giveBack (some value) line)
    | .mark .includeWord =>
      let name ← expectText
      skipSemicolon
      pure (.load name line)
    | .mark .breakWord =>
      skipSemicolon
      pure (.leave line)
    | .mark .continueWord =>
      skipSemicolon
      pure (.again line)
    | _ =>
      let value ← expr n lowestPrecedence
      skipSemicolon
      pure (.expr value line)
termination_by structural n => n

end

/-- The statements up to the end of the text, without those that fail. -/
def statements : Nat → Parse (List Stmt)
  | 0 => exhausted
  | n + 1 => do
    match ← current with
    | .eof => pure []
    | _ =>
      let first ← attempt (statement n)
      advance
      let more ← statements n
      pure (first.toList ++ more)

/-- Between two signs read there are fewer than eight readings inside each other, and a text has
no more signs than characters. -/
def bound (source : String) : Nat := 8 * (source.length + 1)

end Grammar

/-- What was read of a text: its program and the complaints about it. -/
structure Parsed where
  program : Program
  errors : List SyntaxError

def Parsed.ofReader (bound : Nat) (r : Reader) : Except MalformedNumber Parsed :=
  match Grammar.statements bound r with
  | (.got program, r) => .ok ⟨program, r.errors⟩
  | (.broken e, _) => .error e
  | (.failed, r) | (.exhausted, r) => .ok ⟨[], r.errors⟩

def Parsed.ofSource (source : String) : Except MalformedNumber Parsed :=
  match Reader.start source with
  | .ok r => ofReader (Grammar.bound source) r
  | .error e => .error e

end MeowLang
