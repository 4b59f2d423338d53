import MeowLang.Decimal.Layout

/-! Numbers of the language: binary64, with a text of their own, a remainder that keeps
the sign of the dividend, and bit operations on 64-bit words. -/
namespace MeowLang.Number

def nan : Float := 0.0 / 0.0

def infinity : Float := 1.0 / 0.0

/-- A whole number is written without a fraction, all others with the fewest digits. -/
def display (x : Float) : String :=
  match Dyadic.ofFloat? x with
  | some d => if d.isWhole then Decimal.ofInt d.truncate else Decimal.Layout.plain.write x
  | none => if x.isNaN then "NaN" else Decimal.Layout.plain.write x

/-- What a division toward zero leaves over. Nothing remains of a number that is less
than the divisor, and there is no remainder of an infinity or by zero. -/
def remainder (x y : Float) : Float :=
  match Dyadic.ofFloat? x, Dyadic.ofFloat? y with
  | some a, some b => if b.significand = 0 then nan else (a.remainder b).toFloat
  | some _, none => if y.isNaN then nan else x
  | none, _ => nan

/-- The remainder that is never negative for a positive divisor. -/
def modulo (x y : Float) : Float :=
  if y == 0 then nan else remainder (remainder x y + y) y

/-! ### Words -/

def minWord : Int := -Int.pow 2 63

def maxWord : Int := Int.pow 2 63 - 1

/-- A number as a 64-bit word: the whole part, or the nearer end of the range; zero for NaN. -/
def toWord (x : Float) : Int :=
  match Dyadic.ofFloat? x with
  | some d => max minWord (min maxWord d.truncate)
  | none => if x.isNaN then 0 else if x < 0 then minWord else maxWord

/-- The word that is congruent to an integer. -/
def wrap (n : Int) : Int := (n - minWord) % Int.pow 2 64 + minWord

/-- The bits of an integer without its sign; those of a negative one are flipped. -/
def magnitude : Int → Nat
  | .ofNat n => n
  | .negSucc n => n

/-- Two integers combined bit by bit. In two's complement the sign goes on without end, so the
sign of the result is what `f` makes of the two signs. -/
def bitwise (f : Bool → Bool → Bool) (a b : Int) : Int :=
  let g (p q : Bool) : Bool := f (p ^^ decide (a < 0)) (q ^^ decide (b < 0))
  if g false false then .negSucc (Nat.bitwise (fun p q => !g p q) (magnitude a) (magnitude b))
  else .ofNat (Nat.bitwise g (magnitude a) (magnitude b))

/-- How far a shift goes: the last six bits. -/
def shiftCount (n : Int) : Nat := (bitwise and n 63).toNat

def andWord (a b : Int) : Int := wrap (bitwise and a b)

def orWord (a b : Int) : Int := wrap (bitwise or a b)

def xorWord (a b : Int) : Int := wrap (bitwise xor a b)

def shiftLeftWord (a b : Int) : Int := wrap (a * Int.pow 2 (shiftCount b))

def shiftRightWord (a b : Int) : Int := wrap (a / Int.pow 2 (shiftCount b))

def onWords (f : Int → Int → Int) (x y : Float) : Float :=
  Float.ofInt (f (toWord x) (toWord y))

/-! ### Functions -/

/-- A function that leaves infinities and NaN as they are. -/
def onFinite (f : Dyadic → Int) (x : Float) : Float :=
  match Dyadic.ofFloat? x with
  | some d => Float.ofInt (f d)
  | none => x

/-- The nearest whole number, a half going away from zero; a zero keeps its sign. -/
def round (x : Float) : Float :=
  match Dyadic.ofFloat? x with
  | some d =>
    let y := onFinite Dyadic.floor (x.abs + 0.5)
    if d.negative then -y else y
  | none => x

/-- A logarithm exists for positive numbers only. -/
def logarithm (log : Float → Float) (x : Float) : Float :=
  if x > 0 then log x else nan

/-- A power. Zero has no negative power, and a power too large is infinite, whatever the
sign of its base. -/
def power (x y : Float) : Float :=
  let z := Float.pow x y
  if x.isFinite && y.isFinite && z.isInf then if x == 0 then nan else infinity else z

end MeowLang.Number
