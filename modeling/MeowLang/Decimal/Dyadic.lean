/-! Finite binary64 numbers taken apart as a sign, a whole significand and a
power of two. On these parts truncation, flooring and the remainder of a division
are exact whole-number arithmetic. -/
namespace MeowLang

/-- The number `± significand · 2 ^ exponent`. -/
structure Dyadic where
  negative : Bool
  significand : Nat
  exponent : Int
  deriving DecidableEq, Repr

namespace Dyadic

/-- The exponent of the least subnormal number. -/
def minExponent : Int := -1074

/-- The parts of a finite number; `none` for an infinity or a NaN. -/
def ofFloat? (x : Float) : Option Dyadic :=
  let bits : Nat := x.toBits.toNat
  let negative := bits / Nat.pow 2 63 % 2 == 1
  let biased : Nat := bits / Nat.pow 2 52 % Nat.pow 2 11
  let fraction : Nat := bits % Nat.pow 2 52
  if biased = 2047 then none
  else if biased = 0 then some ⟨negative, fraction, minExponent⟩
  else some ⟨negative, fraction + Nat.pow 2 52, (biased : Int) - 1075⟩

/-- The same number with a significand of 53 bits, or with the least exponent if
that comes first. -/
def normalize (d : Dyadic) : Dyadic :=
  let width : Int := d.significand.log2 + 1
  let exponent := max (d.exponent + width - 53) minExponent
  { d with
    significand :=
      if d.exponent ≤ exponent then d.significand / Nat.pow 2 (exponent - d.exponent).toNat
      else d.significand * Nat.pow 2 (d.exponent - exponent).toNat
    exponent := exponent }

/-- The binary64 number of these parts, which must need no more than 53 bits; a
number beyond the largest finite one becomes an infinity. -/
def toFloat (d : Dyadic) : Float :=
  let sign := if d.negative then Nat.pow 2 63 else 0
  let n := d.normalize
  let magnitude :=
    if d.significand = 0 then 0
    else if n.significand < Nat.pow 2 52 then n.significand
    else if n.exponent + 1075 < 2047 then
      (n.exponent + 1075).toNat * Nat.pow 2 52 + (n.significand - Nat.pow 2 52)
    else 2047 * Nat.pow 2 52
  Float.ofBits (UInt64.ofNat (sign + magnitude))

def wholePart (d : Dyadic) : Nat :=
  if 0 ≤ d.exponent then d.significand * Nat.pow 2 d.exponent.toNat
  else d.significand / Nat.pow 2 (-d.exponent).toNat

def isWhole (d : Dyadic) : Bool :=
  0 ≤ d.exponent || d.significand % Nat.pow 2 (-d.exponent).toNat == 0

/-- Rounding toward zero. -/
def truncate (d : Dyadic) : Int :=
  if d.negative then -(d.wholePart : Int) else d.wholePart

def floor (d : Dyadic) : Int :=
  if d.negative && !d.isWhole then d.truncate - 1 else d.truncate

def ceil (d : Dyadic) : Int :=
  if !d.negative && !d.isWhole then d.truncate + 1 else d.truncate

/-- What a division toward zero leaves over; it has the sign of the dividend. -/
def remainder (a b : Dyadic) : Dyadic :=
  let exponent := min a.exponent b.exponent
  let scaled (d : Dyadic) := d.significand * Nat.pow 2 (d.exponent - exponent).toNat
  ⟨a.negative, scaled a % scaled b, exponent⟩

end Dyadic

end MeowLang
