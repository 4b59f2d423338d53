import MeowLang.Failure
import MeowLang.Text.Lines

/-! What programs can reach outside themselves: files, a console, a clock to sleep by and
a source of chance. Texts hold no halves of characters, so each has octets, and both the files
and the console take every text; what comes from them need not be one. -/
namespace MeowLang

/-- The text of a file, with its line ends unified. -/
def FileTree.readText (t : FileTree) (path : String) : Except Halt String :=
  if Path.hasNul path then .error .nulInPath
  else
    match t.read path with
    | .error fault => .error (.unopened path fault)
    | .ok octets =>
      match Text.Utf8.decode octets with
      | .error fault => .error (.undecodable fault)
      | .ok s => .ok (String.ofList (Text.unifyNewlines s.toList))

inductive InputLine where
  | text (s : String)
  /-- The octets of the line are no text. -/
  | noText (fault : Text.Utf8.Fault)
  | interrupt
  | ended

structure World where
  files : FileTree
  /-- What the next lines of input are; behind them the input has ended. -/
  input : List InputLine
  /-- Everything written so far. -/
  output : String
  /-- The seconds of every sleep, in order. -/
  naps : List Float
  /-- What the clock has against sleeping for some seconds. -/
  clock : Float → Option NapFault
  /-- What chance brings, draw by draw. -/
  draws : Nat → Nat
  /-- How many draws have been made. -/
  drawn : Nat

namespace World

/-- A fresh world with these files and this input, in which nothing is too long to sleep. -/
def start (files : FileTree) (input : List InputLine) : World :=
  ⟨files, input, "", [], fun _ => none, fun _ => 0, 0⟩

/-- The octets of the lines of an input, which only line feeds end; `line` is what has been read
of the current one, last octet first. -/
def cutLines : List UInt8 → List UInt8 → List (List UInt8)
  | [], [] => []
  | [], line => [line.reverse]
  | 10 :: rest, line => line.reverse :: cutLines rest []
  | b :: rest, line => cutLines rest (b :: line)

def linesOf (octets : List UInt8) : List InputLine :=
  (cutLines octets []).map fun line =>
    match Text.Utf8.decode line with
    | .ok line => .text line
    | .error fault => .noText fault

/-- A clock that counts nanoseconds with 63 bits. -/
def clockOfNanoseconds (seconds : Float) : Option NapFault :=
  if seconds * 1000000000 < 9223372036854775808 then none else some .tooLong

def write (w : World) (s : String) : World := { w with output := w.output ++ s }

def writeLine (w : World) (s : String) : World := w.write (s ++ "\n")

def ask (w : World) (prompt : String) : InputLine × World :=
  let w := w.write prompt
  match w.input with
  | [] => (.ended, w)
  | line :: rest => (line, { w with input := rest })

/-- The directory that relative paths start from. -/
def workingDirectory (w : World) : String := FileTree.pathTo w.files.workingDirectory

def readText (w : World) (path : String) : Except Halt String := w.files.readText path

def writeText (w : World) (path text : String) : Except Halt World :=
  if Path.hasNul path then .error .nulInPath
  else
    match w.files.write path (Text.Utf8.encode text) with
    | .error fault => .error (.unopened path fault)
    | .ok files => .ok { w with files := files }

/-! ### Chance -/

def draw (w : World) : Nat × World := (w.draws w.drawn, { w with drawn := w.drawn + 1 })

/-- A number between zero and one, without its upper end. -/
def drawUnit (w : World) : Float × World :=
  let (n, w) := w.draw
  (Float.ofNat (n % Nat.pow 2 53) / 9007199254740992.0, w)

def drawBelow (w : World) (bound : Nat) : Nat × World :=
  let (n, w) := w.draw
  (n % bound, w)

/-- The items in an order that chance brings. -/
def shuffle {α : Type} (w : World) : Nat → List α → List α × World
  | 0, items => (items, w)
  | n + 1, items =>
    let (i, w) := w.drawBelow items.length
    match items[i]? with
    | none => (items, w)
    | some item =>
      let (rest, w) := shuffle w n (items.eraseIdx i)
      (item :: rest, w)

end World

end MeowLang
