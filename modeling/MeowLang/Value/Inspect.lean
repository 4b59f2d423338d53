import MeowLang.Value

/-! What an embedding program can ask about a value or a mark. -/
namespace MeowLang.Value

mutual

def inspect : Value → String
  | null => "None"
  | bool b => if b then "True" else "False"
  | number x => Decimal.Layout.plain.write x
  | string s => Text.quoted s
  | array items => "[" ++ ", ".intercalate (inspectAll items) ++ "]"
  | map entries => display (.map entries)
  | function f => display (.function f)
  | native f _ => "<native " ++ f.name ++ ">"
  | failure message _ _ => "ErrorValue(" ++ Text.quoted message ++ ")"
  | returned v _ => "ReturnValue(" ++ inspect v ++ ")"
  | control .leave => "BREAK"
  | control .again => "CONTINUE"
  | unbound => "UNDEFINED"
  | count n => Decimal.ofInt n
termination_by structural v => v

def inspectAll : List Value → List String
  | [] => []
  | v :: vs => inspect v :: inspectAll vs
termination_by structural vs => vs

end

/-- The value is neither null, false, zero nor the mark of an unbound name, and is not
empty. -/
def hasContent : Value → Bool
  | null | unbound => false
  | bool b => b
  | number x => x != 0
  | string s => !s.isEmpty
  | array items => !items.isEmpty
  | map entries => !entries.isEmpty
  | count n => n != 0
  | function _ | native _ _ | failure _ _ _ | returned _ _ | control _ => true

/-- The mark of something that stops an evaluation. -/
def isSignal : Value → Bool
  | failure _ _ _ | returned _ _ | control _ => true
  | _ => false

def isFailure : Value → Bool
  | failure _ _ _ => true
  | _ => false

def isNumber : Value → Bool
  | number _ => true
  | _ => false

/-- The name that messages to an embedding program give to the type of a value. -/
def typeName : Value → String
  | null => "NoneType"
  | bool _ => "bool"
  | number _ => "float"
  | string _ => "str"
  | array _ => "list"
  | map _ => "MeowMap"
  | function _ => "FunctionValue"
  | native _ _ => "NativeFunction"
  | failure _ _ _ => "ErrorValue"
  | returned _ _ => "ReturnValue"
  | control _ => "_LoopSignal"
  | unbound => "_Undefined"
  | count _ => "int"

inductive Misuse where
  /-- No map can be asked for the value. -/
  | unaskable (v : Value)
  /-- The value is nothing like a number. -/
  | notReal (v : Value)
  /-- The value is a whole number of another type, which is not asked whether it is whole. -/
  | notFloat (v : Value)
  /-- The whole number lies beyond all numbers of the language. -/
  | tooLarge
  /-- No whole number can be taken away from the value. -/
  | noDifference (v : Value)

namespace Misuse

def title : Misuse → String
  | unaskable _ | notReal _ | noDifference _ => "TypeError"
  | notFloat _ => "AttributeError"
  | tooLarge => "OverflowError"

def message : Misuse → String
  | unaskable v => "unhashable type: '" ++ v.typeName ++ "'"
  | notReal v => "must be real number, not " ++ v.typeName
  | notFloat v => "'" ++ v.typeName ++ "' object has no attribute 'is_integer'"
  | tooLarge => "int too large to convert to float"
  | noDifference v => "unsupported operand type(s) for -: '" ++ v.typeName ++ "' and 'int'"

end Misuse

/-- The whole number that a count or a truth value is. -/
def whole? : Value → Option Int
  | count n => some n
  | bool b => some (if b then 1 else 0)
  | _ => none

/-- The whole number has a number of the language next to it. -/
def isWithinNumbers (n : Int) : Bool := (Float.ofInt n).isFinite

/-- The text of a number; a whole number of another type has none. -/
def numberText (v : Value) : Except Misuse String :=
  match v, v.whole? with
  | number x, _ => .ok (Number.display x)
  | v, some n => .error (if isWithinNumbers n then .notFloat v else .tooLarge)
  | v, none => .error (.notReal v)

/-- The word of 64 bits that a number or a whole number comes to; there are least and
greatest ones. -/
def toWord (v : Value) : Except Misuse Int :=
  match v, v.whole? with
  | number x, _ => .ok (Number.toWord x)
  | _, some n =>
    if isWithinNumbers n then .ok (max Number.minWord (min Number.maxWord n)) else .error .tooLarge
  | v, none => .error (.notReal v)

/-- The number of the word of 64 bits that a whole number wraps around to. A number is
wrapped around in its own arithmetic, with a remainder that is never negative. -/
def wrapped (v : Value) : Except Misuse Float :=
  match v, v.whole? with
  | number x, _ =>
    let half : Float := 9223372036854775808.0
    let rest := Number.remainder (x + half) (2 * half)
    .ok ((if rest < 0 then rest + 2 * half else rest) - half)
  | _, some n => .ok (Float.ofInt (Number.wrap n))
  | v, none => .error (.noDifference v)

end MeowLang.Value
