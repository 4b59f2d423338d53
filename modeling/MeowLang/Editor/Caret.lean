import MeowLang.Decimal.Layout
import MeowLang.Text.Lines
import MeowLang.Text.Search
import MeowLang.Text.Units

/-! Places in a document as an editor gives them, and the words that stand there. -/
namespace MeowLang.Editor

/-- A line, counted from zero, and how many units of sixteen bits stand before the caret. -/
structure Caret where
  line : Nat
  character : Nat
  deriving DecidableEq, Repr

namespace Caret

/-- A count that no place in a document has. -/
inductive Fault where
  | line (n : Int)
  | character (n : Int)
  deriving DecidableEq, Repr

/-- The greatest count that an editor can send. -/
def greatest : Int := Int.pow 2 31 - 1

def Fault.message : Fault → String
  | line n => "Position.line" ++ outside n
  | character n => "Position.character" ++ outside n
where
  outside (n : Int) : String :=
    " should be in range [0:" ++ Decimal.ofInt greatest ++ "], but was " ++ Decimal.ofInt n ++ "."

def ofCounts (line character : Int) : Except Fault Caret :=
  if line < 0 || greatest < line then .error (.line line)
  else if character < 0 || greatest < character then .error (.character character)
  else .ok ⟨line.toNat, character.toNat⟩

def isWordChar (c : Char) : Bool := c.isAlphanum || c == '_'

/-- How many characters of a line stand before the caret. A return and a line feed count as
one unit, and a caret beyond the line's end stands before its last unit. -/
def column (line : String) (character : Nat) : Nat :=
  let text := (Text.replace line "\r\n" "\n").toList
  let length := Text.unitLength text
  Text.charsWithin (if length < character then length - 1 else character) text

/-- The word that ends a text, or ends before the line feed that ends it. -/
def wordBefore (text : List Char) : List Char :=
  let backwards :=
    match text.reverse with
    | '\n' :: rest => rest
    | text => text
  (backwards.takeWhile isWordChar).reverse

def wordAfter (text : List Char) : List Char := text.takeWhile isWordChar

/-- The word at the caret; it is empty where no word stands. -/
def word (text : String) (caret : Caret) : String :=
  match (Text.linesWithEnds text)[caret.line]? with
  | none => ""
  | some line =>
    let n := column line caret.character
    String.ofList (wordBefore (line.toList.take n) ++ wordAfter (line.toList.drop n))

end Caret

end MeowLang.Editor
