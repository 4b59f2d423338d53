import MeowLang.Eval

/-! Sessions: programs run one after another on one machine, under one name and with one
directory for their libraries. -/
namespace MeowLang

def parseStrict (source file : String) : Except Halt Program :=
  match Parsed.ofSource source with
  | .error e => .error (.malformedNumber e)
  | .ok parsed =>
    if parsed.errors.isEmpty then .ok parsed.program
    else .error (.syntaxErrors file parsed.errors)

structure Session where
  site : Site
  machine : Machine

namespace Session

def start (file baseDirectory : String) (world : World) : Session :=
  ⟨⟨file, baseDirectory⟩, .start world⟩

def run (s : Session) (program : Program) : Outcome Value × Session :=
  match runProgram s.site ampleBound program .null s.machine with
  | (r, machine) => (r, { s with machine := machine })

def interpret (s : Session) (source : String) : Outcome Value × Session :=
  match parseStrict source s.site.file with
  | .error h => (.halted h, s)
  | .ok program => s.run program

def write (s : Session) (text : String) : Session :=
  { s with machine := { s.machine with world := s.machine.world.write text } }

/-- The scopes that names are looked up in, innermost first, without the prelude. -/
def visibleScopes (s : Session) : List (List (String × Value)) :=
  ((s.machine.scopes.chain s.machine.current).filter (· != 0)).map s.machine.scopes.bindings

end Session

end MeowLang
