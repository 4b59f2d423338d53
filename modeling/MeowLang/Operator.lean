import MeowLang.Token

/-! Operators, the marks that spell them and how tightly they bind. -/
namespace MeowLang

inductive Op where
  | add | sub | mul | div | mod
  | andBits | orBits | xorBits | shiftLeft | shiftRight
  | equal | notEqual | greater | less | greaterEqual | lessEqual
  | member
  | not
  deriving DecidableEq, Repr

namespace Op

def symbol : Op → String
  | add => "+" | sub => "-" | mul => "*" | div => "/" | mod => "%"
  | andBits => "&" | orBits => "|" | xorBits => "^" | shiftLeft => "<<" | shiftRight => ">>"
  | equal => "==" | notEqual => "!=" | greater => ">" | less => "<"
  | greaterEqual => ">=" | lessEqual => "<="
  | member => "~"
  | not => "!"

def title : Op → String
  | add => "ADD" | sub => "SUB" | mul => "MUL" | div => "DIV" | mod => "MOD"
  | andBits => "AND_BITS" | orBits => "OR_BITS" | xorBits => "XOR_BITS"
  | shiftLeft => "SHL" | shiftRight => "SHR"
  | equal => "EQ" | notEqual => "NE" | greater => "GT" | less => "LT"
  | greaterEqual => "GE" | lessEqual => "LE"
  | member => "IN"
  | not => "NOT"

def all : List Op :=
  [add, sub, mul, div, mod, andBits, orBits, xorBits, shiftLeft, shiftRight, equal, notEqual,
    greater, less, greaterEqual, lessEqual, member, not]

def ofSymbol? (symbol : String) : Option Op := all.find? (·.symbol == symbol)

end Op

namespace Mark

def binaryOp? : Mark → Option Op
  | plus => some .add | minus => some .sub | star => some .mul | slash => some .div
  | percent => some .mod | equal => some .equal | notEqual => some .notEqual
  | less => some .less | greater => some .greater | lessEqual => some .lessEqual
  | greaterEqual => some .greaterEqual | ampersand => some .andBits | pipe => some .orBits
  | caret => some .xorBits | shiftLeft => some .shiftLeft | shiftRight => some .shiftRight
  | member => some .member
  | _ => none

def unaryOp? : Mark → Option Op
  | bang => some .not
  | minus => some .sub
  | plus => some .add
  | _ => none

end Mark

/-! ### Binding power -/

/-- The power of a mark that binds nothing. -/
def lowestPrecedence : Nat := 1

/-- The power of an operator before its operand. -/
def prefixPrecedence : Nat := 6

/-- How tightly a mark binds the operand before it. -/
def Mark.precedence : Mark → Nat
  | .equal | .notEqual => 2
  | .less | .greater | .lessEqual | .greaterEqual => 3
  | .plus | .minus => 4
  | .star | .slash | .percent => 5
  | .leftParen => 7
  | .leftBracket => 8
  | .member => 9
  | .pipe => 10
  | .caret => 11
  | .ampersand => 12
  | .shiftLeft => 13
  | .shiftRight => 14
  | _ => lowestPrecedence

def Kind.precedence : Kind → Nat
  | .mark m => m.precedence
  | _ => lowestPrecedence

end MeowLang
