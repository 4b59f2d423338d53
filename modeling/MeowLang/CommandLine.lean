import MeowLang.CommandLine.Repl

/-! The command line: a script to run, a request for help, or nothing for an interactive
session. -/
namespace MeowLang.CommandLine

def usage : String :=
  "
MeowScript Interpreter

Usage:
    meow [run] <script.meow>

Arguments:
    <script.meow>
        Path to a MeowScript source file to execute. The file must
        have the extension .meow.

Example:
    meow run hello.meow

Or run with no arguments to enter interactive mode (REPL).

Options:
    -h, --help
        Show this help message and exit.

Environment:
    MEOWDEBUG
        When set, print the tokens and AST before evaluating.
"

/-- An exit code, or a halt that nothing has caught. -/
abbrev Exit : Type := Except Halt Nat

/-- The directory that the libraries of a script are looked for in. -/
def scriptDirectory (w : World) (script : String) : String :=
  Path.parent (Path.normalize (Path.join w.workingDirectory script))

/-- Runs a program that was read from a script and writes its result. -/
def runProgramOf (script : String) (program : Program) (w : World) : Exit × World :=
  let (r, s) := (Session.start script (scriptDirectory w script) w).run program
  let w := s.machine.world
  match r with
  | .value v => (.ok 0, w.write (Report.value false v))
  | .signal (.failed f) => (.ok 1, w.write (Report.errors [f.describe]))
  | .halted .interrupted => (.error .interrupted, w)
  | .halted h => (.ok 1, w.write (Report.halt h))
  | _ => (.ok 1, w)

def runScript (debug : Bool) (script : String) (w : World) : Exit × World :=
  if !script.endsWith Path.sourceSuffix then
    (.ok 1, w.writeLine ("File must have the extension " ++ Path.sourceSuffix))
  else
    match w.readText script with
    | .error h => (.ok 1, w.write (Report.halt h))
    | .ok source =>
      match Parsed.ofSource source with
      | .error e => (.ok 1, w.write (Report.halt (.malformedNumber e)))
      | .ok parsed =>
        let w := if debug then w.write (Report.dump source parsed.program) else w
        if parsed.errors.isEmpty then runProgramOf script parsed.program w
        else (.ok 1, w.write (Report.errors (parsed.errors.map SyntaxError.message)))

def run (debug : Bool) (args : List String) (w : World) : Exit × World :=
  match args with
  | [] =>
    let (exit, w) := Repl.run debug w
    (exit.map fun _ => 0, w)
  | ["-h"] | ["--help"] => (.ok 0, w.write usage)
  | ["run", script] => runScript debug script w
  | [script] => if script.startsWith "-" then (.ok 1, w.write usage) else runScript debug script w
  | _ => (.ok 1, w.write usage)

end MeowLang.CommandLine
