import MeowLang.CommandLine.Report

/-! The interactive session. Lines are gathered into a chunk until the chunk reads as a
program or fails for another reason than the end of the text; then it is run. -/
namespace MeowLang.Repl

/-- A session and the lines of the chunk that is being gathered. -/
structure State where
  session : Session
  chunk : List String

/-- What becomes of a session after a line: it goes on, or it is over, perhaps by what nothing
catches. -/
inductive Next where
  | goOn (s : State)
  | stop (exit : Except Halt Unit) (s : Session)

def prompt : String := ">> "

def continuationPrompt : String := ".. "

def runChunk (debug : Bool) (s : Session) (source : String) (program : Program) : Next :=
  let s := if debug then s.write (Report.dump source program) else s
  match s.run program with
  | (.value v, s) => .goOn ⟨s.write (Report.value true v), []⟩
  | (.signal (.failed f), s) => .goOn ⟨s.write (Report.errors [f.describe]), []⟩
  | (.halted .interrupted, s) => .stop (.ok ()) (s.write "\nInterrupted.\n")
  | (.halted h, s) => .goOn ⟨s.write (Report.halt h), []⟩
  | (_, s) => .goOn ⟨s, []⟩

/-- Takes in a line that does not end the session. -/
def takeLine (debug : Bool) (s : State) (line : String) : Next :=
  let chunk := s.chunk ++ [line]
  let source := "\n".intercalate chunk
  match Parsed.ofSource source with
  | .error e => .goOn ⟨s.session.write (Report.halt (.malformedNumber e)), []⟩
  | .ok parsed =>
    if parsed.errors.isEmpty then runChunk debug s.session source parsed.program
    else if parsed.errors.any SyntaxError.mentionsEnd then .goOn ⟨s.session, chunk⟩
    else .goOn ⟨s.session.write (Report.errors (parsed.errors.map SyntaxError.message)), []⟩

/-- The words that end a session, at the start of a chunk. -/
def endsSession (s : State) (line : String) : Bool :=
  s.chunk.isEmpty && (Text.trim line == "exit" || Text.trim line == "quit")

def step (debug : Bool) (s : State) : Next :=
  let m := s.session.machine
  let (line, world) := m.world.ask (if s.chunk.isEmpty then prompt else continuationPrompt)
  let session := { s.session with machine := { m with world := world } }
  match line with
  | .interrupt => .stop (.ok ()) (session.write "\nInterrupted.\n")
  | .ended => .stop (.ok ()) (session.write "\n")
  | .noText fault => .stop (.error (.undecodable fault)) session
  | .text line =>
    if endsSession s line then .stop (.ok ()) session
    else takeLine debug { s with session := session } line

def steps (debug : Bool) : Nat → State → Except Halt Unit × Session
  | 0, s => (.ok (), s.session)
  | n + 1, s =>
    match step debug s with
    | .goOn s => steps debug n s
    | .stop exit session => (exit, session)

/-- A whole session. Every step but the last reads a line, so the lines bound the steps. -/
def run (debug : Bool) (w : World) : Except Halt Unit × World :=
  let w := w.write "MeowScript Interpreter - REPL\nType `exit` or `quit` to leave.\n"
  let session := Session.start "<stdin>" w.workingDirectory w
  let (exit, session) := steps debug (w.input.length + 1) ⟨session, []⟩
  (exit, session.machine.world)

end MeowLang.Repl
