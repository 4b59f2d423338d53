import MeowLang.Value

/-! The built-in libraries. Each has native functions and constants, and may have a part
written in the language that runs on top of them. -/
namespace MeowLang

/-- What a library or the prelude gives a name to. -/
inductive Export where
  | native (f : Native)
  | number (x : Float)

structure Library where
  name : String
  nickname : String
  exports : List (String × Export)
  source : Option String

namespace Library

def natives (fs : List Native) : List (String × Export) :=
  fs.map fun f => (f.name, .native f)

/-- The names that every program sees. -/
def prelude : List (String × Export) := natives [.log, .meow]

def clawtility : Library where
  name := "clawtility"
  nickname := "util"
  exports := natives [.length, .kibble, .nap]
  source := none

/-- The part of the array library that is written in the language. -/
def furrballSource : String :=
  "
include \"nya:clawtility\";

set map = function(arr, f) \x7b
    set res = [];
    set iter = function(array) \x7b
        if (length(array) == 0) \x7b
            return;
        \x7d
        anew res = push(res, f(array[0]));
        iter(bottom(array));
    \x7d;
    iter(arr);
    return res;
\x7d;
"

def furrball : Library where
  name := "furrball"
  nickname := "array"
  exports := natives [.push, .pounce, .top, .bottom, .includes]
  source := some furrballSource

def whiskers : Library where
  name := "whiskers"
  nickname := "string"
  exports := natives [.replace, .inWhiskers, .split, .join]
  source := none

def scratchpad : Library where
  name := "scratchpad"
  nickname := "fs"
  exports := natives [.readText, .writeText, .fileExists]
  source := none

def catculator : Library where
  name := "catculator"
  nickname := "math"
  exports :=
    natives [.randomBetween, .round, .ceil, .floor, .abs, .sqrt, .sin, .cos, .tan, .pow,
      .logBase2, .logBase10, .logTwo, .logTen, .modulo] ++
    [("PI", .number 3.141592653589793), ("E", .number 2.718281828459045),
      ("MAX_INT", .number 1.7976931348623157e308),
      ("MIN_INT", .number (-1.7976931348623157e308))]
  source := none

def yarnball : Library where
  name := "yarnball"
  nickname := "random"
  exports := natives [.random, .uniform, .randint, .choice, .shuffle]
  source := none

def all : List Library := [clawtility, furrball, whiskers, scratchpad, catculator, yarnball]

/-- How built-in libraries are told from files. -/
def prefixes : List String := ["nya:", "std:"]

def isBuiltIn (name : String) : Bool := prefixes.any (name.startsWith ·)

/-- The name that a library is known by. -/
def fullName (l : Library) : String := "nya:" ++ l.name

/-- The built-in library of a name, by its own name or by its nickname. -/
def find? (name : String) : Option Library :=
  if isBuiltIn name then
    let bare := String.ofList ((name.toList.dropWhile (· != ':')).drop 1)
    all.find? fun l => l.name == bare || l.nickname == bare
  else none

/-- The bindings of exports. Every use of a library makes its functions anew, so each of
them takes the next free identity. -/
def instantiate (identity : Nat) : List (String × Export) → List (String × Value)
  | [] => []
  | (name, .native f) :: rest => (name, .native f identity) :: instantiate (identity + 1) rest
  | (name, .number x) :: rest => (name, .number x) :: instantiate (identity + 1) rest

end Library

end MeowLang
