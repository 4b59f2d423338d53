import MeowLang.Decimal.Layout
import MeowLang.Operator
import MeowLang.Text.Quoted

/-! Trees of plain data, as dumps of tokens and programs write them. -/
namespace MeowLang

inductive Outline where
  | nothing
  | truth (b : Bool)
  | integer (n : Int)
  | number (x : Float)
  | text (s : String)
  | operator (op : Op)
  /-- A record of fixed shape, in round brackets. -/
  | record (items : List Outline)
  /-- A sequence of any length, in square brackets. -/
  | sequence (items : List Outline)

namespace Outline

mutual

def render : Outline → String
  | nothing => "None"
  | truth b => if b then "True" else "False"
  | integer n => Decimal.ofInt n
  | number x => Decimal.Layout.plain.write x
  | text s => Text.quoted s
  | operator op => "<Op." ++ op.title ++ ": " ++ Text.quoted op.symbol ++ ">"
  | record [item] => "(" ++ render item ++ ",)"
  | record items => "(" ++ ", ".intercalate (renderAll items) ++ ")"
  | sequence items => "[" ++ ", ".intercalate (renderAll items) ++ "]"
termination_by structural o => o

def renderAll : List Outline → List String
  | [] => []
  | o :: os => render o :: renderAll os
termination_by structural os => os

end

/-- The first item of a record, which tells what it is. -/
def tag : Outline → Outline
  | record items => items.head?.getD .nothing
  | _ => .nothing

/-- The last item of a record, which tells where it stands. -/
def place : Outline → Outline
  | record items => items.getLast?.getD .nothing
  | _ => .nothing

/-- The text of plain data inside a sentence: a text stands without its quotes. -/
def inSentence : Outline → String
  | text s => s
  | o => o.render

end Outline

end MeowLang
