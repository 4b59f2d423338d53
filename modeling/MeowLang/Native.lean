/-! The functions that are not written in the language itself. -/
namespace MeowLang

inductive Native where
  -- prelude
  | log | meow
  -- utilities
  | length | kibble | nap
  -- arrays
  | push | pounce | top | bottom | includes
  -- texts
  | replace | inWhiskers | split | join
  -- files
  | readText | writeText | fileExists
  -- mathematics
  | randomBetween | round | ceil | floor | abs | sqrt | sin | cos | tan | pow
  | logBase2 | logBase10 | logTwo | logTen | modulo
  -- chance
  | random | uniform | randint | choice | shuffle
  /-- A function that an embedding program supplies under a name of its own; it takes any
  arguments and gives null. -/
  | host (name : String)
  deriving DecidableEq, Repr

def Native.name : Native → String
  | log => "log" | meow => "meow"
  | length => "length" | kibble => "kibble" | nap => "nap"
  | push => "push" | pounce => "pounce" | top => "top" | bottom => "bottom"
  | includes => "includes"
  | replace => "replace" | inWhiskers => "in_whiskers" | split => "split" | join => "join"
  | readText => "readFile" | writeText => "writeFile" | fileExists => "exists"
  | randomBetween => "random" | round => "round" | ceil => "ceil" | floor => "floor"
  | abs => "abs" | sqrt => "sqrt" | sin => "sin" | cos => "cos" | tan => "tan" | pow => "pow"
  | logBase2 => "log2" | logBase10 => "log10" | logTwo => "log_two" | logTen => "log_ten"
  | modulo => "modulo"
  | random => "random" | uniform => "uniform" | randint => "randint" | choice => "choice"
  | shuffle => "shuffle"
  | host name => name

end MeowLang
