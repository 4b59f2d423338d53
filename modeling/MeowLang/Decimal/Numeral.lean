import MeowLang.Text.Blank

/-! Reading decimal text: the numerals of the language, and the wider form with a
sign, an exponent part, infinities and NaN. -/
namespace MeowLang.Decimal

def digitsValue (ds : List Char) : Nat :=
  ds.foldl (fun n c => 10 * n + (c.toNat - '0'.toNat)) 0

/-- The binary64 number nearest to `digits · 10 ^ exponent`. -/
def nearest (digits : Nat) (exponent : Int) : Float :=
  if exponent < 0 then Float.ofScientific digits true (-exponent).toNat
  else Float.ofScientific digits false exponent.toNat

/-- The number written by digits with a point among them or behind them. -/
def ofParts (whole fraction : List Char) : Float :=
  nearest (digitsValue (whole ++ fraction)) (-(fraction.length : Int))

/-- The value of a run of digits and points; `none` if it has two points or more. -/
def numeral? (text : List Char) : Option Float :=
  let whole := text.takeWhile (· != '.')
  let fraction := (text.dropWhile (· != '.')).drop 1
  if fraction.contains '.' then none else some (ofParts whole fraction)

def exponent? (text : List Char) : Option Int :=
  let (negative, ds) :=
    match text with
    | '-' :: r => (true, r)
    | '+' :: r => (false, r)
    | r => (false, r)
  if ds.isEmpty || !ds.all Char.isDigit then none
  else some (if negative then -(digitsValue ds : Int) else digitsValue ds)

/-- An unsigned decimal with an optional exponent part. -/
def unsigned? (text : List Char) : Option Float := do
  let isMark (c : Char) := c == 'e' || c == 'E'
  let mantissa := text.takeWhile (!isMark ·)
  let exponent ←
    match text.dropWhile (!isMark ·) with
    | [] => some 0
    | _ :: r => exponent? r
  let whole := mantissa.takeWhile Char.isDigit
  let fraction ←
    match mantissa.dropWhile Char.isDigit with
    | [] => some []
    | '.' :: r => if r.all Char.isDigit then some r else none
    | _ => none
  if whole.isEmpty && fraction.isEmpty then none
  else some (nearest (digitsValue (whole ++ fraction)) (exponent - fraction.length))

/-- The text without the underscores that part its digits; there may be no others.
`afterDigit` says whether the character before the text is a digit. -/
def dropSeparators (afterDigit : Bool) : List Char → Option (List Char)
  | [] => some []
  | '_' :: c :: rest =>
    if afterDigit && c.isDigit then (dropSeparators true rest).map (c :: ·) else none
  | c :: rest => if c == '_' then none else (dropSeparators c.isDigit rest).map (c :: ·)

/-- A number in the wide form: signed, with names for infinity and NaN, and with blanks
around it. -/
def read? (text : String) : Option Float := do
  let (negative, body) :=
    match (Text.trim text).toList with
    | '-' :: r => (true, r)
    | '+' :: r => (false, r)
    | r => (false, r)
  let body ← dropSeparators false body
  let magnitude :=
    match String.ofList (body.map Char.toLower) with
    | "inf" | "infinity" => some (1.0 / 0.0)
    | "nan" => some (0.0 / 0.0)
    | _ => unsigned? body
  magnitude.map fun x => if negative then -x else x

end MeowLang.Decimal
