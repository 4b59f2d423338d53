import MeowLang.Program.Dump
import MeowLang.Session
import MeowLang.Text.Blank

/-! What the command line writes about a program and its result. -/
namespace MeowLang.Report

def errors (messages : List String) : String :=
  String.join (messages.map fun message =>
    String.join ((Text.lines message).map fun line => "\t" ++ Text.trimLeft line ++ "\n"))

def halt (h : Halt) : String := h.title ++ ": " ++ h.message ++ "\n"

/-- A value on a line of its own; null is left out where it says nothing. -/
def value (showNull : Bool) : Value → String
  | .null => if showNull then Value.null.display ++ "\n" else ""
  | v => v.display ++ "\n"

def dump (source : String) (program : Program) : String :=
  match tokenize source with
  | .ok tokens => dumpText tokens program
  | .error _ => ""

end MeowLang.Report
