import MeowLang.Decimal.Shortest

/-! How a number's digits are laid out as text. One record holds the decisions;
the digits themselves are the shortest that read back. -/
namespace MeowLang.Decimal

/-- The decimal digits of a natural number, first digit first. -/
def digitsOf (n : Nat) : List Char := Nat.toDigits 10 n

def ofInt (n : Int) : String :=
  String.ofList (if n < 0 then '-' :: digitsOf n.natAbs else digitsOf n.natAbs)

/-- The decisions of a floating point format. -/
structure Layout where
  /-- Exponents of the first digit that are written without an exponent part. -/
  least : Int
  greatest : Int
  /-- Digits that stand behind the point of a whole number. -/
  wholeTail : List Char
  /-- The least number of digits of an exponent part. -/
  exponentWidth : Nat
  nan : String
  infinity : String

/-- Positional from 0.0001 up to sixteen digits, always with a fraction; otherwise
an exponent with its sign and at least two digits. -/
def Layout.plain : Layout where
  least := -4
  greatest := 15
  wholeTail := ['0']
  exponentWidth := 2
  nan := "nan"
  infinity := "inf"

def dropTrailingZeros (ds : List Char) : List Char :=
  (ds.reverse.dropWhile (· == '0')).reverse

namespace Layout

/-- Digits whose first one has exponent `top`, written without an exponent part. -/
def positional (f : Layout) (ds : List Char) (top : Int) : List Char :=
  if top < 0 then '0' :: '.' :: (List.replicate (-top - 1).toNat '0' ++ ds)
  else
    let whole := top.toNat + 1
    let tail := ds.drop whole
    ds.take whole ++ List.replicate (whole - ds.length) '0' ++
      '.' :: (if tail.isEmpty then f.wholeTail else tail)

/-- Digits whose first one has exponent `top`, written with an exponent part. -/
def scientific (f : Layout) (ds : List Char) (top : Int) : List Char :=
  let exponent := digitsOf top.natAbs
  ds.take 1 ++ (if ds.length ≤ 1 then [] else '.' :: ds.drop 1) ++
    'e' :: (if top < 0 then '-' else '+') ::
      (List.replicate (f.exponentWidth - exponent.length) '0' ++ exponent)

def magnitude (f : Layout) (d : Dyadic) : List Char :=
  if d.significand = 0 then f.positional ['0'] 0
  else
    let s := shortest d
    let all := digitsOf s.digits
    let top := s.exponent + all.length - 1
    let ds := dropTrailingZeros all
    if f.least ≤ top ∧ top ≤ f.greatest then f.positional ds top else f.scientific ds top

def write (f : Layout) (x : Float) : String :=
  match Dyadic.ofFloat? x with
  | some d =>
    let text := f.magnitude d
    String.ofList (if d.negative then '-' :: text else text)
  | none =>
    if x.isNaN then f.nan
    else if x < 0 then "-" ++ f.infinity
    else f.infinity

end Layout

end MeowLang.Decimal
