import Mathlib.Data.List.Forall2
import MeowLang.Session

/-! Programs as they are written: syntax trees without lines, whose names, numerals and texts
are such that they can be spelled, and the words that spell them. A program is printed with one
space between its words, with a semicolon behind every statement, and with brackets around the
expressions inside others. -/
namespace MeowLang.Written

/-! ### The parts of words -/

/-- Letters and underscores that spell no keyword. -/
structure Name where
  letters : List Char
  nonempty : letters ≠ []
  isNameChar : ∀ c ∈ letters, Lexer.isNameChar c = true
  noKeyword : Lexer.keyword? (String.ofList letters) = none

def Name.text (x : Name) : String := String.ofList x.letters

structure Digits where
  digits : List Char
  nonempty : digits ≠ []
  isDigit : ∀ c ∈ digits, c.isDigit = true

/-- Digits, with a point and further digits behind them or without. -/
structure Numeral where
  whole : Digits
  fraction : Option Digits

namespace Numeral

def fractionDigits (q : Numeral) : List Char :=
  match q.fraction with
  | none => []
  | some ds => ds.digits

def spelling (q : Numeral) : List Char :=
  match q.fraction with
  | none => q.whole.digits
  | some ds => q.whole.digits ++ '.' :: ds.digits

def value (q : Numeral) : Float := Decimal.ofParts q.whole.digits q.fractionDigits

end Numeral

structure Quotation where
  body : List Char
  noQuote : '"' ∉ body

def Quotation.text (b : Quotation) : String := String.ofList b.body

/-- An operator before its operand, with the mark that spells it. -/
structure PrefixOp where
  mark : Mark
  op : Op
  spells : mark.unaryOp? = some op

/-- An operator between two operands, with the mark that spells it. -/
structure InfixOp where
  mark : Mark
  op : Op
  spells : mark.binaryOp? = some op

/-! ### Syntax trees -/

mutual

inductive Expr where
  | ident (name : Name)
  | number (numeral : Numeral)
  | string (body : Quotation)
  | bool (value : Bool)
  | array (items : List Expr)
  | object (entries : List (Expr × Expr))
  | prefixed (op : PrefixOp) (operand : Expr)
  | between (op : InfixOp) (left right : Expr)
  | cond (test : Expr) (yes : List Stmt)
  | condElse (test : Expr) (yes no : List Stmt)
  | function (params : List Name) (body : List Stmt)
  | call (callee : Expr) (args : List Expr)
  | index (collection position : Expr)
  | kindOf (operand : Expr)
  | loop (body : List Stmt)

inductive Stmt where
  | bind (name : Name) (value : Expr)
  | rebind (name : Name) (value : Expr)
  | giveBack
  | giveBackValue (value : Expr)
  | expr (value : Expr)
  | load (name : Quotation)
  | leave
  | again

end

abbrev Program := List Stmt

mutual

/-- The expression of a program that a written one stands for, whatever its lines. -/
inductive Expr.Denotes : Expr → MeowLang.Expr → Prop
  | ident {x line} : Expr.Denotes (.ident x) (.ident x.text line)
  | number {q line} : Expr.Denotes (.number q) (.number q.value line)
  | string {b line} : Expr.Denotes (.string b) (.string b.text line)
  | bool {b line} : Expr.Denotes (.bool b) (.bool b line)
  | array {items items' line} (all : List.Forall₂ Expr.Denotes items items') :
      Expr.Denotes (.array items) (.array items' line)
  | object {entries entries' line} (all : List.Forall₂ Expr.DenotesEntry entries entries') :
      Expr.Denotes (.object entries) (.object entries' line)
  | prefixed {op e e' line} (operand : Expr.Denotes e e') :
      Expr.Denotes (.prefixed op e) (.prefixed op.op e' line)
  | between {op l r l' r' line} (left : Expr.Denotes l l') (right : Expr.Denotes r r') :
      Expr.Denotes (.between op l r) (.between op.op l' r' line)
  | cond {test yes test' yes' line} (tested : Expr.Denotes test test')
      (all : List.Forall₂ Stmt.Denotes yes yes') :
      Expr.Denotes (.cond test yes) (.cond test' yes' none line)
  | condElse {test yes no test' yes' no' line} (tested : Expr.Denotes test test')
      (all : List.Forall₂ Stmt.Denotes yes yes') (all' : List.Forall₂ Stmt.Denotes no no') :
      Expr.Denotes (.condElse test yes no) (.cond test' yes' (some no') line)
  | function {params body body' line} (all : List.Forall₂ Stmt.Denotes body body') :
      Expr.Denotes (.function params body) (.function (params.map Name.text) body' line)
  | call {f args f' args' line} (callee : Expr.Denotes f f')
      (all : List.Forall₂ Expr.Denotes args args') :
      Expr.Denotes (.call f args) (.call f' args' line)
  | index {c i c' i' line} (collection : Expr.Denotes c c') (position : Expr.Denotes i i') :
      Expr.Denotes (.index c i) (.index c' i' line)
  | kindOf {e e' line} (operand : Expr.Denotes e e') : Expr.Denotes (.kindOf e) (.kindOf e' line)
  | loop {body body' line} (all : List.Forall₂ Stmt.Denotes body body') :
      Expr.Denotes (.loop body) (.loop body' line)

/-- An entry of an object, key and value. -/
inductive Expr.DenotesEntry : Expr × Expr → MeowLang.Expr × MeowLang.Expr → Prop
  | intro {k v k' v'} (key : Expr.Denotes k k') (value : Expr.Denotes v v') :
      Expr.DenotesEntry (k, v) (k', v')

/-- The statement of a program that a written one stands for, whatever its lines. -/
inductive Stmt.Denotes : Stmt → MeowLang.Stmt → Prop
  | bind {x e e' line} (value : e.Denotes e') : Stmt.Denotes (.bind x e) (.bind x.text e' line)
  | rebind {x e e' line} (value : e.Denotes e') :
      Stmt.Denotes (.rebind x e) (.rebind x.text e' line)
  | giveBack {line} : Stmt.Denotes .giveBack (.giveBack none line)
  | giveBackValue {e e' line} (value : e.Denotes e') :
      Stmt.Denotes (.giveBackValue e) (.giveBack (some e') line)
  | expr {e e' line} (value : e.Denotes e') : Stmt.Denotes (.expr e) (.expr e' line)
  | load {b line} : Stmt.Denotes (.load b) (.load b.text line)
  | leave {line} : Stmt.Denotes .leave (.leave line)
  | again {line} : Stmt.Denotes .again (.again line)

end

/-! ### Words -/

/-- What stands between two spaces. -/
inductive Word where
  | name (x : Name)
  | numeral (q : Numeral)
  | quoted (b : Quotation)
  | truth (b : Bool)
  | mark (m : Mark)

/-- A mark as it is printed: its symbol, or the plainer of its words. -/
def markText : Mark → String
  | .setWord => "set" | .anewWord => "anew" | .functionWord => "function" | .ifWord => "if"
  | .elseWord => "else" | .returnWord => "return" | .includeWord => "include"
  | .typeofWord => "typeof" | .loopWord => "loop" | .breakWord => "break"
  | .continueWord => "continue"
  | m => m.symbol?.getD ""

namespace Word

def spelling : Word → List Char
  | name x => x.letters
  | numeral q => q.spelling
  | quoted b => '"' :: (b.body ++ ['"'])
  | truth b => if b then "true".toList else "false".toList
  | mark m => (markText m).toList

def terminal : Word → Terminal
  | name x => .ident x.text
  | numeral q => .number q.value
  | quoted b => .string b.text
  | truth b => .boolean b
  | mark m => .mark m

end Word

def text (ws : List Word) : List Char := List.intercalate [' '] (ws.map Word.spelling)

/-! ### Printing -/

/-- An identifier, or a literal of one word. -/
def Expr.isAtom : Expr → Bool
  | .ident _ | .number _ | .string _ | .bool _ => true
  | _ => false

/-- No operator, call or index stands outside the expression's own brackets. -/
def Expr.isClosed : Expr → Bool
  | .prefixed _ _ | .between _ _ _ | .call _ _ | .index _ _ | .kindOf _ => false
  | _ => true

/-- Where brackets stand. Identifiers and literals of one word have none around them;
other expressions that are closed, such as arrays, may or may not count as literals. -/
structure Style where
  bare : Expr → Bool
  bare_of_isAtom : ∀ e, e.isAtom = true → bare e = true
  isClosed_of_bare : ∀ e, bare e = true → e.isClosed = true
  /-- Brackets also stand around the expression that makes up the rest of a statement. -/
  wrapsStatements : Bool

namespace Style

variable (style : Style)

/-- An expression inside another one, from its words. -/
def wrap (e : Expr) (ws : List Word) : List Word :=
  if style.bare e then ws else .mark .leftParen :: (ws ++ [.mark .rightParen])

/-- The expression of a statement, from its words. -/
def top (e : Expr) (ws : List Word) : List Word :=
  if style.wrapsStatements then style.wrap e ws else ws

/-- A comma if something follows. -/
def comma {α : Type} : List α → List Word
  | [] => []
  | _ :: _ => [.mark .comma]

def names : List Name → List Word
  | [] => []
  | x :: xs => .name x :: (comma xs ++ names xs)

mutual

def expr : Expr → List Word
  | .ident x => [.name x]
  | .number q => [.numeral q]
  | .string b => [.quoted b]
  | .bool b => [.truth b]
  | .array items => .mark .leftBracket :: (all items ++ [.mark .rightBracket])
  | .object entries => .mark .leftBrace :: (pairs entries ++ [.mark .rightBrace])
  | .prefixed op e => .mark op.mark :: style.wrap e (expr e)
  | .between op l r => style.wrap l (expr l) ++ .mark op.mark :: style.wrap r (expr r)
  | .cond test yes =>
    .mark .ifWord :: .mark .leftParen :: (style.wrap test (expr test) ++
      .mark .rightParen :: .mark .leftBrace :: (block yes ++ [.mark .rightBrace]))
  | .condElse test yes no =>
    .mark .ifWord :: .mark .leftParen :: (style.wrap test (expr test) ++
      .mark .rightParen :: .mark .leftBrace :: (block yes ++
        .mark .rightBrace :: .mark .elseWord :: .mark .leftBrace ::
          (block no ++ [.mark .rightBrace])))
  | .function params body =>
    .mark .functionWord :: .mark .leftParen :: (names params ++
      .mark .rightParen :: .mark .leftBrace :: (block body ++ [.mark .rightBrace]))
  | .call f args =>
    style.wrap f (expr f) ++ .mark .leftParen :: (all args ++ [.mark .rightParen])
  | .index c i =>
    style.wrap c (expr c) ++
      .mark .leftBracket :: (style.wrap i (expr i) ++ [.mark .rightBracket])
  | .kindOf e => .mark .typeofWord :: style.wrap e (expr e)
  | .loop body => .mark .loopWord :: .mark .leftBrace :: (block body ++ [.mark .rightBrace])
termination_by structural e => e

def all : List Expr → List Word
  | [] => []
  | e :: es => style.wrap e (expr e) ++ (comma es ++ all es)
termination_by structural es => es

def pairs : List (Expr × Expr) → List Word
  | [] => []
  | (k, v) :: rest =>
    style.wrap k (expr k) ++ .mark .colon :: (style.wrap v (expr v) ++ (comma rest ++ pairs rest))
termination_by structural es => es

def stmt : Stmt → List Word
  | .bind x e => .mark .setWord :: .name x :: .mark .assign :: style.top e (expr e)
  | .rebind x e => .mark .anewWord :: .name x :: .mark .assign :: style.top e (expr e)
  | .giveBack => [.mark .returnWord]
  | .giveBackValue e => .mark .returnWord :: style.top e (expr e)
  | .expr e => style.top e (expr e)
  | .load b => [.mark .includeWord, .quoted b]
  | .leave => [.mark .breakWord]
  | .again => [.mark .continueWord]
termination_by structural t => t

def block : List Stmt → List Word
  | [] => []
  | t :: ts => stmt t ++ .mark .semicolon :: block ts
termination_by structural ts => ts

end

def print (p : Program) : String := String.ofList (text (style.block p))

/-- Brackets stand around every expression inside another one but identifiers and literals of
one word. -/
def plain : Style where
  bare := Expr.isAtom
  bare_of_isAtom _ h := h
  isClosed_of_bare e h := by cases e <;> first | rfl | cases h
  wrapsStatements := false

example :
    let x : Name := ⟨['x'], by decide, List.forall_mem_singleton.mpr rfl, by decide⟩
    let one : Numeral := ⟨⟨['1'], by decide, List.forall_mem_singleton.mpr rfl⟩, none⟩
    plain.print
      [.bind x (.between ⟨.plus, _, rfl⟩ (.number one) (.prefixed ⟨.minus, _, rfl⟩ (.ident x)))] =
      "set x = 1 + ( - x ) ;" := by
  decide

end Style

end MeowLang.Written
