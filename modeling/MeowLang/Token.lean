/-! Tokens and what they are to the grammar. A token keeps the text it was written
with and the line it starts on; a terminal keeps only what the grammar reads. -/
namespace MeowLang

/-- A symbol or word of fixed meaning. -/
inductive Mark where
  | equal | notEqual | lessEqual | greaterEqual | shiftLeft | shiftRight
  | assign | bang | less | greater | plus | minus | star | slash | percent
  | member | ampersand | pipe | caret
  | comma | colon | semicolon
  | leftParen | rightParen | leftBrace | rightBrace | leftBracket | rightBracket
  | setWord | anewWord | functionWord | ifWord | elseWord | returnWord | includeWord
  | typeofWord | loopWord | breakWord | continueWord
  deriving DecidableEq, Repr

namespace Mark

def name : Mark → String
  | equal => "EQ" | notEqual => "NE" | lessEqual => "LE" | greaterEqual => "GE"
  | shiftLeft => "LSHIFT" | shiftRight => "RSHIFT" | assign => "ASSIGN" | bang => "BANG"
  | less => "LT" | greater => "GT" | plus => "PLUS" | minus => "MINUS" | star => "ASTERISK"
  | slash => "SLASH" | percent => "PERCENT" | member => "IN" | ampersand => "AMP"
  | pipe => "PIPE" | caret => "CARET" | comma => "COMMA" | colon => "COLON"
  | semicolon => "SEMICOLON" | leftParen => "LPAREN" | rightParen => "RPAREN"
  | leftBrace => "LBRACE" | rightBrace => "RBRACE" | leftBracket => "LBRACKET"
  | rightBracket => "RBRACKET" | setWord => "SET" | anewWord => "ANEW"
  | functionWord => "FUNC" | ifWord => "IF" | elseWord => "ELSE" | returnWord => "RETURN"
  | includeWord => "INCLUDE" | typeofWord => "TYPEOF" | loopWord => "LOOP"
  | breakWord => "BREAK" | continueWord => "CONTINUE"

/-- The symbol of a mark; words have none. -/
def symbol? : Mark → Option String
  | equal => some "==" | notEqual => some "!=" | lessEqual => some "<="
  | greaterEqual => some ">=" | shiftLeft => some "<<" | shiftRight => some ">>"
  | assign => some "=" | bang => some "!" | less => some "<" | greater => some ">"
  | plus => some "+" | minus => some "-" | star => some "*" | slash => some "/"
  | percent => some "%" | member => some "~" | ampersand => some "&" | pipe => some "|"
  | caret => some "^" | comma => some "," | colon => some ":" | semicolon => some ";"
  | leftParen => some "(" | rightParen => some ")" | leftBrace => some "\x7b"
  | rightBrace => some "\x7d" | leftBracket => some "[" | rightBracket => some "]"
  | setWord | anewWord | functionWord | ifWord | elseWord | returnWord | includeWord
  | typeofWord | loopWord | breakWord | continueWord => none

def all : List Mark :=
  [equal, notEqual, lessEqual, greaterEqual, shiftLeft, shiftRight, assign, bang, less,
    greater, plus, minus, star, slash, percent, member, ampersand, pipe, caret, comma, colon,
    semicolon, leftParen, rightParen, leftBrace, rightBrace, leftBracket, rightBracket,
    setWord, anewWord, functionWord, ifWord, elseWord, returnWord, includeWord, typeofWord,
    loopWord, breakWord, continueWord]

end Mark

inductive Kind where
  | eof | illegal | comment | number | string | ident | boolean
  | mark (m : Mark)
  deriving DecidableEq, Repr

namespace Kind

def name : Kind → String
  | eof => "EOF" | illegal => "ILLEGAL" | comment => "COMMENT" | number => "NUMBER"
  | string => "STRING" | ident => "IDENT" | boolean => "BOOLEAN"
  | mark m => m.name

/-- The class as a syntax error shows it: a symbol in quotes, otherwise the name. -/
def describe : Kind → String
  | mark m =>
    match m.symbol? with
    | some s => "'" ++ s ++ "'"
    | none => m.name
  | k => k.name

def ofName? (name : String) : Option Kind :=
  ([eof, illegal, comment, number, string, ident, boolean] ++ Mark.all.map mark).find?
    (·.name == name)

end Kind

/-- What the grammar reads of a token: its class, and the value of a literal or a name. -/
inductive Terminal where
  | eof | illegal | comment
  | number (value : Float)
  | string (body : String)
  | ident (name : String)
  | boolean (value : Bool)
  | mark (m : Mark)
  deriving DecidableEq, Repr

def Terminal.kind : Terminal → Kind
  | .eof => .eof
  | .illegal => .illegal
  | .comment => .comment
  | .number _ => .number
  | .string _ => .string
  | .ident _ => .ident
  | .boolean _ => .boolean
  | .mark m => .mark m

/-- A terminal with the text it was written as and the line it starts on. -/
structure Token where
  terminal : Terminal
  lexeme : String
  line : Nat
  deriving DecidableEq, Repr

/-- A terminal with the line it starts on. -/
structure Sign where
  terminal : Terminal
  line : Nat
  deriving DecidableEq, Repr

/-- What the grammar reads of a text: neither comments nor the end of the text. -/
def Token.signs (tokens : List Token) : List Sign :=
  tokens.filterMap fun t =>
    match t.terminal with
    | .comment | .eof => none
    | terminal => some ⟨terminal, t.line⟩

end MeowLang
