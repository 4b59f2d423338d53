import MeowLang.Failure

/-! What operators do to values. -/
namespace MeowLang.Value

def unary : Op → Value → Except Cause Value
  | .not, v => .ok (.bool !v.isTruthy)
  | .sub, .number x => .ok (.number (-x))
  | _, .number x => .ok (.number x)
  | op, v => .error (.unknownUnary op v)

/-- An operator between two numbers, where it has a meaning. -/
def onNumbers (op : Op) (x y : Float) : Option Value :=
  match op with
  | .add => some (.number (x + y))
  | .sub => some (.number (x - y))
  | .mul => some (.number (x * y))
  | .div => some (.number (x / y))
  | .mod => some (.number (Number.remainder x y))
  | .less => some (.bool (x < y))
  | .lessEqual => some (.bool (x ≤ y))
  | .greater => some (.bool (x > y))
  | .greaterEqual => some (.bool (x ≥ y))
  | .andBits => some (.number (Number.onWords Number.andWord x y))
  | .orBits => some (.number (Number.onWords Number.orWord x y))
  | .xorBits => some (.number (Number.onWords Number.xorWord x y))
  | .shiftLeft => some (.number (Number.onWords Number.shiftLeftWord x y))
  | .shiftRight => some (.number (Number.onWords Number.shiftRightWord x y))
  | .equal | .notEqual | .member | .not => none

/-- Whether a value is a key of a map or an item of an array, or whether the text of one
number contains that of the other. -/
def isMember : Value → Value → Except Cause Value
  | v, .map entries =>
    .ok (.bool (match v.key? with | some k => Assoc.contains k entries | none => false))
  | v, .array items => .ok (.bool (items.any (v.equal ·)))
  | .number x, .number y =>
    .ok (.bool (Text.occursIn (Number.display y).toList (Number.display x).toList))
  | l, r => .error (.unknownBinary l .member r)

/-- Values of one kind can be compared for equality. -/
def compareEqual (op : Op) (l r : Value) : Except Cause Bool :=
  if l.kind = r.kind then .ok (l.equal r) else .error (.typeMismatch l op r)

def binary (op : Op) (l r : Value) : Except Cause Value :=
  let unknown : Except Cause Value :=
    .error (if l.kind = r.kind then .unknownBinary l op r else .typeMismatch l op r)
  match op with
  | .member => l.isMember r
  | .equal => (compareEqual op l r).map .bool
  | .notEqual => (compareEqual op l r).map (.bool !·)
  | op =>
    match l, r with
    | .number x, .number y =>
      match onNumbers op x y with
      | some v => .ok v
      | none => unknown
    | .string s, .string t => if op = .add then .ok (.string (s ++ t)) else unknown
    | _, _ => unknown

/-- The item at a position: the number is cut toward zero, and a negative one counts from
the end. There is nothing at other positions. -/
def itemAt (items : List Value) (x : Float) : Value :=
  match Dyadic.ofFloat? x with
  | none => .null
  | some d =>
    let i := d.truncate
    let i := if i < 0 then i + items.length else i
    if i < 0 then .null else items[i.toNat]?.getD .null

def index : Value → Value → Except Cause Value
  | .array items, .number x => .ok (itemAt items x)
  | .array items, v => .error (.badPosition (.array items) v)
  | .map entries, v =>
    match v.key? with
    | some k => .ok ((entries.lookup k).getD .null)
    | none => .error (.unusableKey v)
  | c, _ => .error (.notIndexed c)

end MeowLang.Value
