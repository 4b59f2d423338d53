import MeowLang.Failure

/-! Functions on arrays and texts that look at their arguments only. None of them changes
an argument. -/
namespace MeowLang.Native

def callLength : List Value → Except Cause Value
  | [.string s] => .ok (.number (Float.ofNat s.length))
  | [.array items] => .ok (.number (Float.ofNat items.length))
  | [v] => .error (.noLength v)
  | args => .error (.argumentCount args.length 1)

/-! ### Arrays -/

def onArray (f : List Value → Value) : List Value → Except Cause Value
  | [.array items] => .ok (f items)
  | [v] => .error (.argument .first .array v)
  | args => .error (.argumentCount args.length 1)

def onArrayAnd (f : List Value → Value → Value) : List Value → Except Cause Value
  | [.array items, v] => .ok (f items v)
  | [v, _] => .error (.argument .first .array v)
  | args => .error (.argumentCount args.length 2)

/-- The array with one more item. -/
def callPush : List Value → Except Cause Value :=
  onArrayAnd fun items v => .array (items ++ [v])

/-- The array without its last item. -/
def callPounce : List Value → Except Cause Value :=
  onArray fun items => .array items.dropLast

/-- The first item, or null. -/
def callTop : List Value → Except Cause Value :=
  onArray fun items => items.head?.getD .null

/-- The array without its first item. -/
def callBottom : List Value → Except Cause Value :=
  onArray fun items => .array items.tail

/-- Some item equals the value. -/
def callIncludes : List Value → Except Cause Value :=
  onArrayAnd fun items v => .bool (items.any (Value.equal · v))

/-! ### Texts -/

/-- The text with every occurrence of one value's text replaced by another's. -/
def callReplace : List Value → Except Cause Value
  | [.string s, old, new] => .ok (.string (Text.replace s old.display new.display))
  | [v, _, _] => .error (.argument .first .string v)
  | args => .error (.argumentCount args.length 3)

/-- The text of a value; the items of an array follow each other. -/
def callInWhiskers : List Value → Except Cause Value
  | [.array items] => .ok (.string (String.join (items.map Value.display)))
  | [v] => .ok (.string v.display)
  | args => .error (.argumentCount args.length 1)

/-- The pieces of a text between the occurrences of another. -/
def callSplit : List Value → Except Cause Value
  | [.string s, .string sep] => .ok (.array ((Text.split s sep).map .string))
  | [.string _, v] => .error (.argument .second .string v)
  | [v, _] => .error (.argument .first .string v)
  | args => .error (.argumentCount args.length 2)

/-- The texts of an array's items with another text between them. -/
def callJoin : List Value → Except Cause Value
  | [.array items, .string sep] => .ok (.string (sep.intercalate (items.map Value.display)))
  | [.array _, v] => .error (.argument .second .string v)
  | [v, _] => .error (.argument .first .array v)
  | args => .error (.argumentCount args.length 2)

/-! ### Numbers -/

def onNumber (f : Float → Float) : List Value → Except Cause Value
  | [.number x] => .ok (.number (f x))
  | [v] => .error (.argument .first .number v)
  | args => .error (.argumentCount args.length 1)

def twoNumbers : List Value → Except Cause (Float × Float)
  | [.number x, .number y] => .ok (x, y)
  | [.number _, v] => .error (.argument .second .number v)
  | [v, _] => .error (.argument .first .number v)
  | args => .error (.argumentCount args.length 2)

def onNumbers (f : Float → Float → Float) (args : List Value) : Except Cause Value :=
  (twoNumbers args).map fun (x, y) => .number (f x y)

end MeowLang.Native
