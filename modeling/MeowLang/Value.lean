import MeowLang.Assoc
import MeowLang.Native
import MeowLang.Number
import MeowLang.Program

/-! Values of the language, their kinds, their text and their equality. -/
namespace MeowLang

/-- A function with the scope it was made in. Two functions are the same if they were made
by the same evaluation of a literal, which their identity tells. -/
structure Closure where
  identity : Nat
  params : List String
  body : List Stmt
  scope : Nat

/-- A value that a map can be asked for. -/
inductive Key where
  | bool (b : Bool)
  | number (x : Float)
  | string (s : String)
  deriving Repr

/-- Keys of different kinds differ, and numbers are compared as numbers. -/
def Key.same : Key → Key → Bool
  | .bool a, .bool b => a == b
  | .number x, .number y => x == y
  | .string s, .string t => s == t
  | _, _ => false

instance : BEq Key := ⟨Key.same⟩

def Key.display : Key → String
  | .bool b => if b then "true" else "false"
  | .number x => Number.display x
  | .string s => s

/-- The two ways to leave an iteration of a loop. -/
inductive Control where
  | leave | again
  deriving DecidableEq, Repr

def Control.word : Control → String
  | leave => "break"
  | again => "continue"

/-- A value. The last five are marks: they are no values of the language, and no program
makes one, but an embedding program can put them wherever values stand. -/
inductive Value where
  | null
  | bool (b : Bool)
  | number (x : Float)
  | string (s : String)
  | array (items : List Value)
  | map (entries : List (Key × Value))
  | function (f : Closure)
  | native (f : Native) (identity : Nat)
  /-- The mark of a failure, with its place if that is known. -/
  | failure (message : String) (line : Option Int) (file : Option String)
  /-- The mark of a return; it is the same as itself only. -/
  | returned (v : Value) (identity : Nat)
  /-- The mark of a loop that is left. -/
  | control (c : Control)
  /-- The mark of a name that is not bound. -/
  | unbound
  /-- A whole number that is no number of the language. -/
  | count (n : Int)

instance : Inhabited Value := ⟨.null⟩

/-- The kinds that values are told apart by. -/
inductive ValueKind where
  | null | boolean | number | string | array | object | undefined
  deriving DecidableEq, Repr

def ValueKind.name : ValueKind → String
  | null => "null" | boolean => "boolean" | number => "number" | string => "string"
  | array => "array" | object => "object" | undefined => "undefined"

namespace Value

/-- Functions and marks have no kind of their own. -/
def kind : Value → ValueKind
  | null => .null
  | bool _ => .boolean
  | number _ => .number
  | string _ => .string
  | array _ => .array
  | map _ => .object
  | _ => .undefined

/-- Only `false` and null count as false. -/
def isTruthy : Value → Bool
  | null | bool false => false
  | _ => true

/-- The key that a value is to a map, if it can be one. -/
def key? : Value → Option Key
  | bool b => some (.bool b)
  | number x => some (.number x)
  | string s => some (.string s)
  | _ => none

def ofKey : Key → Value
  | .bool b => bool b
  | .number x => number x
  | .string s => string s

/-! ### Text -/

mutual

def display : Value → String
  | null => "null"
  | bool b => if b then "true" else "false"
  | number x => Number.display x
  | string s => s
  | array items => "[" ++ ", ".intercalate (displayAll items) ++ "]"
  | map entries => "\x7b" ++ ", ".intercalate (displayEntries entries) ++ "\x7d"
  | function f => "fn(" ++ ", ".intercalate f.params ++ ") \x7b ... \x7d"
  | native _ _ => "[inbuilt fn]"
  | failure message _ _ => message
  | returned v _ => display v
  | control c => c.word
  | unbound => "UNDEFINED"
  | count n => Decimal.ofInt n
termination_by structural v => v

def displayAll : List Value → List String
  | [] => []
  | v :: vs => display v :: displayAll vs
termination_by structural vs => vs

def displayEntries : List (Key × Value) → List String
  | [] => []
  | (k, v) :: rest => (k.display ++ ": " ++ display v) :: displayEntries rest
termination_by structural entries => entries

end

/-! ### Equality -/

mutual

/-- Values are equal if they are of one kind and have equal contents; functions and returns
are equal to themselves only, and failures are equal if their messages are. The order of a
map's entries does not matter. -/
def equal : Value → Value → Bool
  | null, null => true
  | bool a, bool b => a == b
  | number x, number y => x == y
  | string s, string t => s == t
  | array xs, array ys => equalAll xs ys
  | map m, map n => m.length == n.length && includedIn n m
  | function f, function g => f.identity == g.identity
  | native _ i, native _ j => i == j
  | failure s _ _, failure t _ _ => s == t
  | returned _ i, returned _ j => i == j
  | control c, control d => c == d
  | unbound, unbound => true
  | count m, count n => m == n
  | _, _ => false
termination_by structural v => v

def equalAll : List Value → List Value → Bool
  | [], [] => true
  | x :: xs, y :: ys => equal x y && equalAll xs ys
  | _, _ => false
termination_by structural xs => xs

/-- Every entry has one with an equal key and an equal value among `others`. -/
def includedIn (others : List (Key × Value)) : List (Key × Value) → Bool
  | [] => true
  | (k, v) :: rest =>
    (match others.lookup k with
      | some w => equal v w
      | none => false) && includedIn others rest
termination_by structural entries => entries

end

end Value

end MeowLang
