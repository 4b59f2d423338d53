import MeowLang.Proofs.Evaluation.Step

/-! The evaluations inside an evaluation. A task with bound `n + 1` starts tasks with bound `n`,
each in the state that those before it have left; the states of a run are the ones that the
tasks inside it begin and end in. -/
namespace MeowLang

inductive Task where
  | expr (e : Expr)
  | all (es : List Expr)
  | entries (line : Int) (es : List (Expr × Expr)) (done : List (Key × Value))
  | loop (body : List Stmt)
  | call (callee : Value) (args : List Value) (line : Int)
  | block (ss : List Stmt) (last : Value)
  | stmt (s : Stmt)
  | library (name : String)
  | text (key name source : String) (natives : List (String × Value))
  | program (ss : List Stmt) (last : Value)

/-- A task at a site, in the state it begins in. -/
structure Job where
  site : Site
  task : Task
  machine : Machine

/-- The state that a job leaves behind, whatever its outcome. -/
def Job.final (n : Nat) : Job → Machine
  | ⟨site, .expr e, m⟩ => (evalExpr site n e m).2
  | ⟨site, .all es, m⟩ => (evalAll site n es m).2
  | ⟨site, .entries line es done, m⟩ => (evalEntries site n line es done m).2
  | ⟨site, .loop body, m⟩ => (repeatLoop site n body m).2
  | ⟨site, .call callee args line, m⟩ => (apply site n callee args line m).2
  | ⟨site, .block ss last, m⟩ => (execAll site n ss last m).2
  | ⟨site, .stmt s, m⟩ => (exec site n s m).2
  | ⟨site, .library name, m⟩ => (load site n name m).2
  | ⟨site, .text key name source natives, m⟩ => (runLibrary site n key name source natives m).2
  | ⟨site, .program ss last, m⟩ => (runProgram site n ss last m).2

def Machine.enter (m : Machine) (scope : Scope) : Machine :=
  { m with scopes := m.scopes.push scope, current := m.scopes.size }

def Machine.nest (m : Machine) : Machine := m.enter ⟨[], some m.current⟩

/-- The first job, with bound `n + 1`, evaluates the second one, with bound `n`, as a part. -/
inductive Starts (n : Nat) : Job → Job → Prop
  -- expressions
  | items {site items line m} :
      Starts n ⟨site, .expr (.array items line), m⟩ ⟨site, .all items, m⟩
  | entries {site entries line m} :
      Starts n ⟨site, .expr (.object entries line), m⟩ ⟨site, .entries line entries [], m⟩
  | operand {site op e line m} :
      Starts n ⟨site, .expr (.prefixed op e line), m⟩ ⟨site, .expr e, m⟩
  | left {site op l r line m} :
      Starts n ⟨site, .expr (.between op l r line), m⟩ ⟨site, .expr l, m⟩
  | right {site op l r line m v m'} (done : evalExpr site n l m = (.value v, m')) :
      Starts n ⟨site, .expr (.between op l r line), m⟩ ⟨site, .expr r, m'⟩
  | test {site test yes no line m} :
      Starts n ⟨site, .expr (.cond test yes no line), m⟩ ⟨site, .expr test, m⟩
  | yes {site test yes no line m v m'} (done : evalExpr site n test m = (.value v, m'))
      (holds : v.isTruthy = true) :
      Starts n ⟨site, .expr (.cond test yes no line), m⟩ ⟨site, .block yes .null, m'.nest⟩
  | no {site test yes no line m v m'} (done : evalExpr site n test m = (.value v, m'))
      (fails : v.isTruthy = false) :
      Starts n ⟨site, .expr (.cond test yes (some no) line), m⟩ ⟨site, .block no .null, m'.nest⟩
  | callee {site callee args line m} :
      Starts n ⟨site, .expr (.call callee args line), m⟩ ⟨site, .expr callee, m⟩
  | arguments {site callee args line m f m'} (done : evalExpr site n callee m = (.value f, m')) :
      Starts n ⟨site, .expr (.call callee args line), m⟩ ⟨site, .all args, m'⟩
  | call {site callee args line m f m' vs m''}
      (done : evalExpr site n callee m = (.value f, m'))
      (done' : evalAll site n args m' = (.value vs, m'')) :
      Starts n ⟨site, .expr (.call callee args line), m⟩ ⟨site, .call f vs line, m''⟩
  | collection {site c i line m} :
      Starts n ⟨site, .expr (.index c i line), m⟩ ⟨site, .expr c, m⟩
  | position {site c i line m v m'} (done : evalExpr site n c m = (.value v, m')) :
      Starts n ⟨site, .expr (.index c i line), m⟩ ⟨site, .expr i, m'⟩
  | measured {site e line m} : Starts n ⟨site, .expr (.kindOf e line), m⟩ ⟨site, .expr e, m⟩
  | loop {site body line m} : Starts n ⟨site, .expr (.loop body line), m⟩ ⟨site, .loop body, m⟩
  -- sequences of expressions
  | head {site e es m} : Starts n ⟨site, .all (e :: es), m⟩ ⟨site, .expr e, m⟩
  | tail {site e es m v m'} (done : evalExpr site n e m = (.value v, m')) :
      Starts n ⟨site, .all (e :: es), m⟩ ⟨site, .all es, m'⟩
  | key {site line k e es done m} :
      Starts n ⟨site, .entries line ((k, e) :: es) done, m⟩ ⟨site, .expr k, m⟩
  | entry {site line k e es done m v m'} (keyed : evalExpr site n k m = (.value v, m'))
      (usable : v.key?.isSome) :
      Starts n ⟨site, .entries line ((k, e) :: es) done, m⟩ ⟨site, .expr e, m'⟩
  | rest {site line k e es done m v m' key w m''}
      (keyed : evalExpr site n k m = (.value v, m')) (usable : v.key? = some key)
      (valued : evalExpr site n e m' = (.value w, m'')) :
      Starts n ⟨site, .entries line ((k, e) :: es) done, m⟩
        ⟨site, .entries line es (Assoc.insert key w done), m''⟩
  -- loops and calls
  | round {site body m} : Starts n ⟨site, .loop body, m⟩ ⟨site, .block body .null, m.nest⟩
  | again {site body m r m'} (done : Eval.nested (execAll site n body .null) m = (r, m'))
      (goesOn : (∃ v, r = .value v) ∨ r = .signal (.control .again)) :
      Starts n ⟨site, .loop body, m⟩ ⟨site, .loop body, m'⟩
  | body {site f args line m} (arity : args.length = f.params.length) :
      Starts n ⟨site, .call (.function f) args line, m⟩
        ⟨site, .block f.body .null, m.enter ⟨Assoc.insertAll (f.params.zip args) [], some f.scope⟩⟩
  -- statements
  | first {site s ss last m} : Starts n ⟨site, .block (s :: ss) last, m⟩ ⟨site, .stmt s, m⟩
  | next {site s ss last m v m'} (done : exec site n s m = (.value v, m')) :
      Starts n ⟨site, .block (s :: ss) last, m⟩ ⟨site, .block ss v, m'⟩
  | value {site e line m} : Starts n ⟨site, .stmt (.expr e line), m⟩ ⟨site, .expr e, m⟩
  | bound {site x e line m} : Starts n ⟨site, .stmt (.bind x e line), m⟩ ⟨site, .expr e, m⟩
  | rebound {site x e line m} : Starts n ⟨site, .stmt (.rebind x e line), m⟩ ⟨site, .expr e, m⟩
  | given {site e line m} :
      Starts n ⟨site, .stmt (.giveBack (some e) line), m⟩ ⟨site, .expr e, m⟩
  | load {site name line m} : Starts n ⟨site, .stmt (.load name line), m⟩ ⟨site, .library name, m⟩
  -- libraries and programs
  | text {site name m key source exports} (plan : m.plan site name = .run key source exports) :
      Starts n ⟨site, .library name, m⟩
        ⟨site, .text key name source (m.instantiate exports).1, (m.instantiate exports).2⟩
  | run {site key name source natives m parsed} (read : Parsed.ofSource source = .ok parsed)
      (clean : parsed.errors = []) (unused : key ∉ m.loading) :
      Starts n ⟨site, .text key name source natives, m⟩
        ⟨{ site with file := key }, .program parsed.program .null, m.beginLibrary key natives⟩
  | opening {site s ss last m} : Starts n ⟨site, .program (s :: ss) last, m⟩ ⟨site, .stmt s, m⟩
  | onward {site s ss last m v m'} (done : exec site n s m = (.value v, m')) :
      Starts n ⟨site, .program (s :: ss) last, m⟩ ⟨site, .program ss v, m'⟩

/-- `j'` with bound `n'` is evaluated in the course of `j` with bound `n`, or is `j` itself. -/
inductive Nested : Nat → Job → Nat → Job → Prop
  | refl (n : Nat) (j : Job) : Nested n j n j
  | step {n n' : Nat} {j j' j'' : Job} (starts : Starts n j j') (rest : Nested n j' n' j'') :
      Nested (n + 1) j n' j''

theorem Nested.trans {n n' n'' : Nat} {j j' j'' : Job} (h : Nested n j n' j')
    (h' : Nested n' j' n'' j'') : Nested n j n'' j'' := by
  induction h with
  | refl => exact h'
  | step starts _ ih => exact .step starts (ih h')

theorem Nested.snoc {n n' : Nat} {j j' j'' : Job} (h : Nested n j (n' + 1) j')
    (hs : Starts n' j' j'') : Nested n j n' j'' :=
  h.trans (.step hs (.refl _ _))

/-- The states between the programs of a session, which may be run at any site, with any bound
and to any outcome, and between which the world may change. -/
inductive Machine.Rests : Machine → Prop
  | start (world : World) : Rests (.start world)
  | run {m : Machine} (rests : Rests m) (site : Site) (n : Nat) (program : Program) :
      Rests (runProgram site n program .null m).2
  | wait {m : Machine} (rests : Rests m) (world : World) : Rests { m with world := world }

/-- A state that some job in the course of a program begins or ends in. -/
def Machine.Reached (m : Machine) : Prop :=
  ∃ rest : Machine, rest.Rests ∧ ∃ site n program n' j,
    Nested n ⟨site, .program program .null, rest⟩ n' j ∧ (m = j.machine ∨ m = j.final n')

theorem Machine.Rests.reached {m : Machine} (h : m.Rests) : m.Reached :=
  ⟨m, h, ⟨"", ""⟩, 0, [], 0, _, .refl _ _, .inl rfl⟩

end MeowLang
