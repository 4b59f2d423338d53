import MeowLang.Decimal.Dyadic

/-! The fewest decimal digits that read back as a given binary64 number. For one
digit, then two, and so on, the two neighbours of the number on that decimal grid
are held against the interval of reals that round to it. -/
namespace MeowLang.Decimal

/-- The number `digits · 10 ^ exponent`. -/
structure Scaled where
  digits : Nat
  exponent : Int
  deriving DecidableEq, Repr

/-- The reals that round to one number: the number and both ends over one
denominator, the ends included or not. -/
structure Interval where
  value : Nat
  low : Nat
  high : Nat
  denominator : Nat
  closed : Bool
  deriving DecidableEq, Repr

/-- The interval of a positive number in normal form. Below a power of two the
numbers lie twice as dense, so there the lower end is nearer. -/
def Interval.ofDyadic (d : Dyadic) : Interval :=
  let unit := Nat.pow 2 (d.exponent - 2).toNat
  let below := if d.significand = Nat.pow 2 52 ∧ Dyadic.minExponent < d.exponent then 1 else 2
  { value := 4 * d.significand * unit
    low := (4 * d.significand - below) * unit
    high := (4 * d.significand + 2) * unit
    denominator := Nat.pow 2 (2 - d.exponent).toNat
    closed := d.significand % 2 == 0 }

namespace Interval

/-- `a / denominator`, measured in steps of `10 ^ step`, as a fraction. -/
def inSteps (i : Interval) (a : Nat) (step : Int) : Nat × Nat :=
  (a * Nat.pow 10 (-step).toNat, i.denominator * Nat.pow 10 step.toNat)

/-- The grid point `t · 10 ^ step` rounds to the number. -/
def holds (i : Interval) (t : Nat) (step : Int) : Bool :=
  let (low, den) := i.inSteps i.low step
  let (high, _) := i.inSteps i.high step
  if i.closed then low ≤ t * den && t * den ≤ high else low < t * den && t * den < high

/-- The decimal exponent of the first digit, searched upward from a bound below it. -/
def leading (i : Interval) : Nat → Int → Int
  | 0, k => k
  | n + 1, k =>
    let (value, den) := i.inSteps i.value (k + 1)
    if den ≤ value then leading i n (k + 1) else k

/-- A bound below the decimal exponent of the first digit, off by a few at most. -/
def leadingBound (i : Interval) : Int :=
  ((i.value.log2 : Int) - i.denominator.log2 - 1) * 30103 / 100000 - 2

/-- The nearer of the two grid points around the number that round to it; the
even one where both are equally near. -/
def onGrid (i : Interval) (step : Int) : Option Nat :=
  let (value, den) := i.inSteps i.value step
  let t := value / den
  let rest := value % den
  match i.holds t step, i.holds (t + 1) step with
  | true, true =>
    if 2 * rest < den then some t
    else if den < 2 * rest then some (t + 1)
    else if t % 2 = 0 then some t else some (t + 1)
  | true, false => some t
  | false, true => some (t + 1)
  | false, false => none

/-- The first grid with a point of the interval, from `count` digits on. -/
def search (i : Interval) (top : Int) : Nat → Int → Scaled
  | 0, count =>
    let (n, d) := i.inSteps i.value (top + 1 - count)
    ⟨n / d, top + 1 - count⟩
  | n + 1, count =>
    match i.onGrid (top + 1 - count) with
    | some t => ⟨t, top + 1 - count⟩
    | none => search i top n (count + 1)

end Interval

def shortest (d : Dyadic) : Scaled :=
  let i := Interval.ofDyadic d.normalize
  i.search (i.leading 8 i.leadingBound) 17 1

end MeowLang.Decimal
