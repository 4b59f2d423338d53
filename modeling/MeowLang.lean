import MeowLang.Editor.Server
import MeowLang.Main
import MeowLang.Value.Inspect
import MeowLang.Value.Shared
import MeowLang.Proofs.Evaluation.Discipline
import MeowLang.Proofs.Signals
import MeowLang.Proofs.Frame
import MeowLang.Proofs.Program.RoundTrip
import MeowLang.Proofs.Program.Bound
import MeowLang.Proofs.Program.Chain
import MeowLang.Proofs.Program.Content
import MeowLang.Proofs.Understood
import MeowLang.Proofs.Isolation
import MeowLang.Proofs.Natives
import MeowLang.Proofs.Placement
import MeowLang.Proofs.Includes
import MeowLang.Proofs.LoopControl
import MeowLang.Proofs.Evaluation.Settle
import MeowLang.Proofs.File.Tree
import MeowLang.Proofs.IncludeGraph
import MeowLang.Proofs.Editor.Index
import MeowLang.Proofs.Evaluation.Resume
import MeowLang.Proofs.Evaluation.Seal
import MeowLang.Proofs.ListMap
import MeowLang.Proofs.Editor.Views
import MeowLang.Proofs.Editor.Requests
import MeowLang.Proofs.Locations
import MeowLang.Proofs.Exports
import MeowLang.Proofs.CommandLine.Repl
import MeowLang.Proofs.Program.Shift
import MeowLang.Proofs.Program.Below
import MeowLang.Proofs.LexicalScope
import MeowLang.Proofs.ShortCircuit
import MeowLang.Proofs.Value.Shared
import MeowLang.Proofs.Scope.Resolution
import MeowLang.Proofs.Words
import MeowLang.Proofs.Token.Readings
import MeowLang.Proofs.Program.Alike
import MeowLang.Proofs.Native.Texts
import MeowLang.Proofs.Editor.Definitions
import MeowLang.Proofs.Scope.Grounded
import MeowLang.Proofs.File.Spelling
