import MeowLang.Native.Collections
import MeowLang.World

/-! Calling native functions. -/
namespace MeowLang.Native

abbrev Reply : Type := Outcome Value × World

def fault (w : World) (cause : Cause) : Reply := (.ofExcept (.error cause), w)

def give (w : World) (v : Value) : Reply := (.value v, w)

/-! ### Console -/

/-- Writes the texts of the arguments on a line of their own. -/
def callLog (start : String) (args : List Value) (w : World) : Reply :=
  if args.isEmpty then fault w (.argumentsMissing 0 1)
  else give (w.writeLine (start ++ " ".intercalate (args.map Value.display))) .null

/-- What a program gets for a line of input. -/
def ofLine : InputLine → Outcome Value
  | .text line => .value (.string line)
  | .ended => .value .null
  | .noText fault => .halted (.undecodable fault)
  | .interrupt => .halted .interrupted

/-- Reads a line, with the text of the argument as a prompt. -/
def callKibble (args : List Value) (w : World) : Reply :=
  let read (prompt : String) : Reply :=
    let (line, w) := w.ask prompt
    (ofLine line, w)
  match args with
  | [] => read ""
  | [v] => read v.display
  | args => fault w (.argumentCount args.length 1)

/-- Sleeps for some milliseconds, or not at all if they are negative, if the clock lets it. -/
def callNap (args : List Value) (w : World) : Reply :=
  match args with
  | [.number x] =>
    if x.isFinite then
      let seconds := (if x < 0 then 0 else x) / 1000
      match w.clock seconds with
      | none => give { w with naps := w.naps ++ [seconds] } .null
      | some fault => (.halted (.sleepless fault), w)
    else fault w (.endlessNap x)
  | [v] => fault w (.argument .first .number v)
  | args => fault w (.argumentCount args.length 1)

/-! ### Files -/

def callReadText (args : List Value) (w : World) : Reply :=
  match args with
  | [.string path] =>
    match w.readText path with
    | .ok text => give w (.string text)
    | .error (.unopened path reason) => fault w (.cannotOpen path reason)
    | .error h => (.halted h, w)
  | [v] => fault w (.argument .first .string v)
  | args => fault w (.argumentCount args.length 1)

/-- Replaces the text of a file by that of a value. -/
def callWriteText (args : List Value) (w : World) : Reply :=
  match args with
  | [.string path, v] =>
    match w.writeText path v.display with
    | .ok w => give w .null
    | .error (.unopened path reason) => fault w (.cannotWrite path reason)
    | .error h => (.halted h, w)
  | [v, _] => fault w (.argument .first .string v)
  | args => fault w (.argumentCount args.length 2)

def callFileExists (args : List Value) (w : World) : Reply :=
  match args with
  | [.string path] => give w (.bool (w.files.pathExists path))
  | [v] => fault w (.argument .first .string v)
  | args => fault w (.argumentCount args.length 1)

/-! ### Chance -/

def callBetween (args : List Value) (w : World) : Reply :=
  match twoNumbers args with
  | .error cause => fault w cause
  | .ok (low, high) =>
    let (unit, w) := w.drawUnit
    give w (.number (low + (high - low) * unit))

def callRandom (args : List Value) (w : World) : Reply :=
  if args.isEmpty then
    let (unit, w) := w.drawUnit
    give w (.number unit)
  else fault w (.argumentCount args.length 0)

/-- A whole number between two others, both ends included. -/
def callRandint (args : List Value) (w : World) : Reply :=
  match twoNumbers args with
  | .error cause => fault w cause
  | .ok (x, y) =>
    match Dyadic.ofFloat? x, Dyadic.ofFloat? y with
    | some a, some b =>
      let low := a.ceil
      let high := b.floor
      if high < low then fault w (.emptyRange low high)
      else
        let (n, w) := w.drawBelow (high - low + 1).toNat
        give w (.number (Float.ofInt (low + n)))
    | _, _ => fault w .endlessBounds

def callChoice (args : List Value) (w : World) : Reply :=
  match args with
  | [.array items] =>
    let (i, after) := w.drawBelow items.length
    match items[i]? with
    | some v => give after v
    | none => fault w .emptyChoice
  | [v] => fault w (.argument .first .array v)
  | args => fault w (.argumentCount args.length 1)

def callShuffle (args : List Value) (w : World) : Reply :=
  match args with
  | [.array items] =>
    let (items, w) := w.shuffle items.length items
    give w (.array items)
  | [v] => fault w (.argument .first .array v)
  | args => fault w (.argumentCount args.length 1)

/-! ### All functions -/

/-- What a function gives that looks at its arguments only. -/
def pure? : Native → Option (List Value → Except Cause Value)
  | length => some callLength
  | push => some callPush
  | pounce => some callPounce
  | top => some callTop
  | bottom => some callBottom
  | includes => some callIncludes
  | replace => some callReplace
  | inWhiskers => some callInWhiskers
  | split => some callSplit
  | join => some callJoin
  | round => some (onNumber Number.round)
  | ceil => some (onNumber (Number.onFinite Dyadic.ceil))
  | floor => some (onNumber (Number.onFinite Dyadic.floor))
  | abs => some (onNumber Float.abs)
  | sqrt => some (onNumber Float.sqrt)
  | sin => some (onNumber Float.sin)
  | cos => some (onNumber Float.cos)
  | tan => some (onNumber Float.tan)
  | pow => some (onNumbers Number.power)
  | logBase2 | logTwo => some (onNumber (Number.logarithm Float.log2))
  | logBase10 | logTen => some (onNumber (Number.logarithm Float.log10))
  | modulo => some (onNumbers Number.modulo)
  | host _ => some fun _ => .ok .null
  | log | meow | kibble | nap | readText | writeText | fileExists | randomBetween | random
  | uniform | randint | choice | shuffle => none

/-- Calls a function. A failure has no place yet. -/
def call (f : Native) (args : List Value) (w : World) : Reply :=
  match f with
  | log => callLog "" args w
  | meow => callLog "Meow! " args w
  | kibble => callKibble args w
  | nap => callNap args w
  | readText => callReadText args w
  | writeText => callWriteText args w
  | fileExists => callFileExists args w
  | randomBetween | uniform => callBetween args w
  | random => callRandom args w
  | randint => callRandint args w
  | choice => callChoice args w
  | shuffle => callShuffle args w
  | f =>
    match f.pure? with
    | some g => (.ofExcept (g args), w)
    | none => give w .null

end MeowLang.Native
