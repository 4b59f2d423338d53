import MeowLang.Eval.Machine
import MeowLang.Program.Grammar
import MeowLang.Value.Operation

/-! The evaluation of programs. Parts are evaluated from left to right, and whatever is no
value stops the constructs around it. Each evaluation takes a bound on the nesting of
further evaluations and on the repetitions of loops; it is exhausted where the bound is too
small, and otherwise the bound does not matter. -/
namespace MeowLang

mutual

def evalExpr (site : Site) : Nat → Expr → Eval Value
  | 0, _ => Eval.exhausted
  | n + 1, e =>
    match e with
    | .number x _ => pure (.number x)
    | .string s _ => pure (.string s)
    | .bool b _ => pure (.bool b)
    | .ident name line => do
      match ← Eval.lookup name with
      | some v => pure v
      | none => Eval.fail site line (.unboundName name)
    | .array items _ => do
      let items ← evalAll site n items
      pure (.array items)
    | .object entries line => do
      let entries ← evalEntries site n line entries []
      pure (.map entries)
    | .prefixed op operand line => do
      let v ← evalExpr site n operand
      Eval.ofExcept site line (v.unary op)
    | .between op left right line => do
      let l ← evalExpr site n left
      let r ← evalExpr site n right
      Eval.ofExcept site line (l.binary op r)
    | .cond test yes no _ => do
      let c ← evalExpr site n test
      if c.isTruthy then Eval.nested (execAll site n yes .null)
      else
        match no with
        | some no => Eval.nested (execAll site n no .null)
        | none => pure .null
    | .function params body _ => Eval.makeClosure params body
    | .call callee args line => do
      let f ← evalExpr site n callee
      let args ← evalAll site n args
      apply site n f args line
    | .index collection position line => do
      let c ← evalExpr site n collection
      let i ← evalExpr site n position
      Eval.ofExcept site line (c.index i)
    | .kindOf operand _ => fun m =>
      match evalExpr site n operand m with
      | (.value v, m) => (.value (.string v.kind.name), m)
      | (.signal (.failed _), m) => (.value (.string ValueKind.undefined.name), m)
      | r => r
    | .loop body _ => repeatLoop site n body
    | .foreign node => Eval.halt (.unknownExpression node)
termination_by structural n => n

def evalAll (site : Site) : Nat → List Expr → Eval (List Value)
  | 0, _ => Eval.exhausted
  | _ + 1, [] => pure []
  | n + 1, e :: rest => do
    let v ← evalExpr site n e
    let vs ← evalAll site n rest
    pure (v :: vs)
termination_by structural n => n

/-- Evaluates keys and values in turn; `done` holds the entries before them. -/
def evalEntries (site : Site) : Nat → Int → List (Expr × Expr) → List (Key × Value) →
    Eval (List (Key × Value))
  | 0, _, _, _ => Eval.exhausted
  | _ + 1, _, [], done => pure done
  | n + 1, line, (key, value) :: rest, done => do
    let k ← evalExpr site n key
    match k.key? with
    | none => Eval.fail site line (.unusableKey k)
    | some k =>
      let v ← evalExpr site n value
      evalEntries site n line rest (Assoc.insert k v done)
termination_by structural n => n

/-- Repeats the body, each time in a new scope, until it is left. -/
def repeatLoop (site : Site) : Nat → List Stmt → Eval Value
  | 0, _ => Eval.exhausted
  | n + 1, body => fun m =>
    match Eval.nested (execAll site n body .null) m with
    | (.value _, m) => repeatLoop site n body m
    | (.signal (.control .again), m) => repeatLoop site n body m
    | (.signal (.control .leave), m) => (.value .null, m)
    | r => r
termination_by structural n => n

def apply (site : Site) : Nat → Value → List Value → Int → Eval Value
  | 0, _, _, _ => Eval.exhausted
  | n + 1, callee, args, line =>
    match callee with
    | .native f _ => Eval.callNative site line f args
    | .function f =>
      if args.length = f.params.length then
        let bindings := Assoc.insertAll (f.params.zip args) []
        fun m =>
          match Eval.within ⟨bindings, some f.scope⟩ (execAll site n f.body .null) m with
          | (.signal (.returned v), m) => (.value v, m)
          | (.signal (.control c), m) => Eval.fail site line (.strayControl c) m
          | r => r
      else Eval.fail site line (.callArity f.params.length args.length)
    | v => Eval.fail site line (.notFunction v)
termination_by structural n => n

/-- Executes statements in turn. The value is that of the last one, or `last` if there is
none. -/
def execAll (site : Site) : Nat → List Stmt → Value → Eval Value
  | 0, _, _ => Eval.exhausted
  | _ + 1, [], last => pure last
  | n + 1, s :: rest, _ => do
    let v ← exec site n s
    execAll site n rest v
termination_by structural n => n

def exec (site : Site) : Nat → Stmt → Eval Value
  | 0, _ => Eval.exhausted
  | n + 1, s =>
    match s with
    | .expr e _ => evalExpr site n e
    | .bind name e _ => do
      let v ← evalExpr site n e
      Eval.bindName name v
      pure .null
    | .rebind name e line => do
      let v ← evalExpr site n e
      if ← Eval.rebindName name v then pure .null
      else Eval.fail site line (.unboundName name)
    | .giveBack none _ => Eval.signal (.returned .null)
    | .giveBack (some e) _ => do
      let v ← evalExpr site n e
      Eval.signal (.returned v)
    | .load name line => fun m =>
      match load site n name m with
      | (.value exports, m) => (do Eval.layer exports; pure .null : Eval Value) m
      | (.signal (.failed fault), m) =>
        (.signal (.failed (fault.locate (some line) (some site.file))), m)
      | (.signal s, m) => (.signal s, m)
      | (.halted h, m) => (.halted h, m)
      | (.exhausted, m) => (.exhausted, m)
    | .leave _ => Eval.signal (.control .leave)
    | .again _ => Eval.signal (.control .again)
    | .foreign node => Eval.halt (.unknownStatement node site.file)
termination_by structural n => n

/-- The bindings that a library exports. -/
def load (site : Site) : Nat → String → Eval (List (String × Value))
  | 0, _ => Eval.exhausted
  | n + 1, name => fun m =>
    match m.plan site name with
    | .fault cause => Eval.failUnlocated cause m
    | .halt h => (.halted h, m)
    | .hand exports =>
      let (natives, m) := m.instantiate exports
      (.value natives, m)
    | .run key source exports =>
      let (natives, m) := m.instantiate exports
      runLibrary site n key name source natives m
termination_by structural n => n

/-- Runs the text of a library under the key `key`, on top of native bindings, in scopes of
its own. The key counts as being loaded until the run ends, whatever the outcome. -/
def runLibrary (site : Site) :
    Nat → String → String → String → List (String × Value) → Eval (List (String × Value))
  | 0, _, _, _, _ => Eval.exhausted
  | n + 1, key, name, source, natives => fun m =>
    if m.loading.contains key then Eval.failUnlocated (.recursiveInclude key) m
    else
      match Parsed.ofSource source with
      | .error e => (.halted (.malformedNumber e), m)
      | .ok parsed =>
        if !parsed.errors.isEmpty then Eval.failUnlocated (.badLibrary name parsed.errors) m
        else
          let present := m.current
          let (globals, m) := m.addRoots natives
          let m := { m with current := globals, loading := key :: m.loading }
          match runProgram { site with file := key } n parsed.program .null m with
          | (r, m) =>
            let exports := m.scopes.exports m.current globals
            let m := { m with current := present, loading := m.loading.erase key }
            match r with
            | .value _ => (.value exports, m)
            | .signal s => (.signal s, m)
            | .halted h => (.halted h, m)
            | .exhausted => (.exhausted, m)
termination_by structural n => n

/-- Executes the statements of a program in turn. A return ends it, and there is no loop
to leave. -/
def runProgram (site : Site) : Nat → List Stmt → Value → Eval Value
  | 0, _, _ => Eval.exhausted
  | _ + 1, [], last => pure last
  | n + 1, s :: rest, _ => fun m =>
    match exec site n s m with
    | (.value v, m) => runProgram site n rest v m
    | (.signal (.returned v), m) => (.value v, m)
    | (.signal (.control c), m) => Eval.fail site s.line (.strayControl c) m
    | r => r
termination_by structural n => n

end

/-- A bound that no run in practice exhausts. -/
def ampleBound : Nat := Nat.pow 2 62

end MeowLang
