import MeowLang.Proofs.Evaluation.Guarded

/-! Where faults and halts come from. Either goes through every evaluation that it stops, so what
stops a job has stopped a job that it has started, unless the job itself has raised it. A fault is
placed where it is raised, at a line of the job's own code and in the file of the text that is being
run; only loads leave the place open, and the statement that loads fills it in. A node that is none
of the language is met by the job that is to evaluate this node, and a loop is missing where a call
or a program runs code that leaves one. -/
namespace MeowLang

open Eval

/-- What ends an evaluation and those around it. -/
inductive Stop where
  | fault (fault : Fault)
  | halt (h : Halt)

/-- Nothing is left to be said about where it was. -/
def Stop.IsPlaced : Stop → Prop
  | fault f => f.line ≠ none
  | halt _ => True

inductive Outcome.Stopped {α : Type} : Outcome α → Stop → Prop
  | fault (fault : Fault) : Stopped (.signal (.failed fault)) (.fault fault)
  | halt (h : Halt) : Stopped (.halted h) (.halt h)

def Job.Stops (n : Nat) (stop : Stop) : Job → Prop
  | ⟨site, .expr e, m⟩ => (evalExpr site n e m).1.Stopped stop
  | ⟨site, .all es, m⟩ => (evalAll site n es m).1.Stopped stop
  | ⟨site, .entries line es done, m⟩ => (evalEntries site n line es done m).1.Stopped stop
  | ⟨site, .loop body, m⟩ => (repeatLoop site n body m).1.Stopped stop
  | ⟨site, .call callee args line, m⟩ => (apply site n callee args line m).1.Stopped stop
  | ⟨site, .block ss last, m⟩ => (execAll site n ss last m).1.Stopped stop
  | ⟨site, .stmt s, m⟩ => (exec site n s m).1.Stopped stop
  | ⟨site, .library name, m⟩ => (load site n name m).1.Stopped stop
  | ⟨site, .text key name source natives, m⟩ =>
    (runLibrary site n key name source natives m).1.Stopped stop
  | ⟨site, .program ss last, m⟩ => (runProgram site n ss last m).1.Stopped stop

def Job.Halts (n : Nat) (h : Halt) : Job → Prop
  | ⟨site, .expr e, m⟩ => (evalExpr site n e m).1 = .halted h
  | ⟨site, .all es, m⟩ => (evalAll site n es m).1 = .halted h
  | ⟨site, .entries line es done, m⟩ => (evalEntries site n line es done m).1 = .halted h
  | ⟨site, .loop body, m⟩ => (repeatLoop site n body m).1 = .halted h
  | ⟨site, .call callee args line, m⟩ => (apply site n callee args line m).1 = .halted h
  | ⟨site, .block ss last, m⟩ => (execAll site n ss last m).1 = .halted h
  | ⟨site, .stmt s, m⟩ => (exec site n s m).1 = .halted h
  | ⟨site, .library name, m⟩ => (load site n name m).1 = .halted h
  | ⟨site, .text key name source natives, m⟩ =>
    (runLibrary site n key name source natives m).1 = .halted h
  | ⟨site, .program ss last, m⟩ => (runProgram site n ss last m).1 = .halted h

/-! ### What a job raises -/

/-- The lines at which a task itself can fail. -/
def Task.lines : Task → List Int
  | .expr e => [e.line]
  | .entries line _ _ | .call _ _ line => [line]
  | .stmt s => [s.line]
  | .program ss _ => ss.map Stmt.line
  | _ => []

def Task.isLoad : Task → Bool
  | .library _ | .text _ _ _ _ => true
  | _ => false

def Task.isForeign : Task → Bool
  | .expr (.foreign _) | .stmt (.foreign _) => true
  | _ => false

/-- What a job can be stopped by of itself. -/
inductive Job.Raises (j : Job) : Stop → Prop
  | fault {line : Int} (own : line ∈ j.task.lines) (cause : Cause) :
      Raises j (.fault ⟨cause, some line, some j.site.file⟩)
  | unplaced (load : j.task.isLoad = true) (cause : Cause) : Raises j (.fault ⟨cause, none, none⟩)
  | foreign (node : j.task.isForeign = true) (h : Halt) : Raises j (.halt h)
  | halt {h : Halt} (known : h.isUnknown = false) : Raises j (.halt h)

/-- Where the cause of a fault with which a job ends comes from: an operation, a job that it has
started, or code that leaves a loop it is not in. -/
inductive Job.Blames (n : Nat) : Job → Cause → Prop
  | ordinary {j : Job} {cause : Cause} (h : cause.isOrdinary = true) : Blames n j cause
  | started {j j' : Job} {fault : Fault} (starts : Starts n j j')
      (stops : j'.Stops n (.fault fault)) : Blames n j fault.cause
  | call {site f args line m c} (arity : args.length = f.params.length)
      (leaves : (execAll site n f.body .null
        (m.enter ⟨Assoc.insertAll (f.params.zip args) [], some f.scope⟩)).1 =
          .signal (.control c)) :
      Blames n ⟨site, .call (.function f) args line, m⟩ (.strayControl c)
  | program {site s ss last m c} (leaves : (exec site n s m).1 = .signal (.control c)) :
      Blames n ⟨site, .program (s :: ss) last, m⟩ (.strayControl c)

/-- Who has stopped a job: the job itself, or one that it has started. A fault that a load has left
open does not get out of the statement that loads. -/
inductive Job.Passes (n : Nat) (stop : Stop) (j : Job) : Prop
  | here (raises : j.Raises stop) (blames : ∀ fault, stop = .fault fault → j.Blames n fault.cause)
  | started {j' : Job} (starts : Starts n j j') (stops : j'.Stops n stop)
      (placed : j'.task.isLoad = true → j.task.isLoad = true ∨ stop.IsPlaced)

section

variable {α β : Type} {m : Machine} {stop : Stop} {site : Site} {line : Int}

theorem stopped_bind {p : Eval α} {f : α → Eval β} (hs : ((p >>= f) m).1.Stopped stop) :
    (p m).1.Stopped stop ∨ ∃ a m', p m = (.value a, m') ∧ (f a m').1.Stopped stop := by
  rw [bind_apply] at hs
  rcases hp : p m with ⟨r, m'⟩
  rw [hp] at hs
  cases r with
  | value a => exact .inr ⟨a, m', rfl, hs⟩
  | signal s =>
    cases hs
    exact .inl (.fault _)
  | halted h =>
    cases hs
    exact .inl (.halt h)
  | exhausted => cases hs

theorem stopped_ofExcept {r : Except Cause α} (hs : (ofExcept site line r m).1.Stopped stop) :
    ∃ cause, r = .error cause ∧ stop = .fault ⟨cause, some line, some site.file⟩ := by
  cases r with
  | ok a => cases hs
  | error cause =>
    cases hs
    exact ⟨cause, rfl, rfl⟩

theorem stopped_callNative {f : Native} {args : List Value}
    (hs : (callNative site line f args m).1.Stopped stop) :
    (∃ cause : Cause, cause.isOrdinary = true ∧
      stop = .fault ⟨cause, some line, some site.file⟩) ∨
      ∃ h : Halt, stop = .halt h ∧ h.isUnknown = false := by
  have hans := Native.answers_call f args m.world
  simp only [callNative] at hs
  split at hs
  · rename_i heq
    rw [heq] at hans
    cases hans with
    | fault cause ordinary =>
      cases hs
      exact .inl ⟨cause, ordinary, rfl⟩
  · rename_i r w hr heq
    rw [heq] at hans
    cases hans with
    | value made => cases hs
    | fault cause => exact absurd rfl (hr _)
    | halt known =>
      cases hs
      exact .inr ⟨_, rfl, known⟩

theorem Machine.isOrdinary_of_plan {cause : Cause} {name : String}
    (hplan : m.plan site name = .fault cause) : cause.isOrdinary = true := by
  unfold plan at hplan
  split at hplan
  · cases hfound : Library.find? name with
    | none =>
      simp only [hfound, LoadPlan.fault.injEq] at hplan
      exact hplan ▸ rfl
    | some library => cases hs : library.source <;> simp [hfound, hs] at hplan
  · dsimp only at hplan
    split at hplan
    · cases hplan
      rfl
    split at hplan
    · cases hplan
    split at hplan <;> cases hplan

theorem Machine.isUnknown_of_plan {h : Halt} {name : String}
    (hplan : m.plan site name = .halt h) : h.isUnknown = false := by
  unfold plan at hplan
  split at hplan
  · cases hfound : Library.find? name with
    | none => simp [hfound] at hplan
    | some library => cases hs : library.source <;> simp [hfound, hs] at hplan
  · dsimp only at hplan
    split at hplan
    · cases hplan
    split at hplan
    · cases hplan
      rfl
    split at hplan
    · rename_i hread
      cases hplan
      exact World.isUnknown_of_readText hread
    · cases hplan

end

/-! ### Each job -/

namespace Job

variable {n : Nat} {site : Site} {m : Machine} {stop : Stop}

/-- A job that is started and is no load. -/
theorem Passes.inner {j j' : Job} (hs : Starts n j j') (hl : j'.task.isLoad = false)
    (hf : j'.Stops n stop) : j.Passes n stop :=
  .started hs hf fun h => by rw [hl] at h; cases h

/-- A job that fails of itself at one of its lines. -/
theorem Passes.fail {task : Task} {line : Int} {cause : Cause} (own : line ∈ task.lines)
    (blames : Blames n ⟨site, task, m⟩ cause) :
    Passes n (.fault ⟨cause, some line, some site.file⟩) ⟨site, task, m⟩ :=
  .here (.fault own cause) fun _ hf => by
    cases hf
    exact blames

/-- A load that fails of itself. -/
theorem Passes.unplaced {j : Job} {cause : Cause} (load : j.task.isLoad = true)
    (ordinary : cause.isOrdinary = true) : j.Passes n (.fault ⟨cause, none, none⟩) :=
  .here (.unplaced load cause) fun _ hf => by
    cases hf
    exact .ordinary ordinary

/-- A job that halts of itself. -/
theorem Passes.halt {j : Job} {h : Halt} (raises : j.Raises (.halt h)) :
    j.Passes n (.halt h) :=
  .here raises fun _ hf => nomatch hf

theorem passes_expr (e : Expr) (hs : (evalExpr site (n + 1) e m).1.Stopped stop) :
    Passes n stop ⟨site, .expr e, m⟩ := by
  have own : e.line ∈ (Task.expr e).lines := List.mem_singleton_self _
  cases e with
  | number x line | string s line | bool b line => cases hs
  | ident x line =>
    rcases stopped_bind hs with hs | ⟨found, m', -, hs⟩
    · cases hs
    · cases found <;> cases hs
      exact .fail own (.ordinary rfl)
  | array items line =>
    rcases stopped_bind hs with hs | ⟨vs, m', -, hs⟩
    · exact .inner .items rfl hs
    · cases hs
  | object entries line =>
    rcases stopped_bind hs with hs | ⟨es, m', -, hs⟩
    · exact .inner .entries rfl hs
    · cases hs
  | prefixed op e line =>
    rcases stopped_bind hs with hs | ⟨v, m', -, hs⟩
    · exact .inner .operand rfl hs
    · obtain ⟨cause, hc, rfl⟩ := stopped_ofExcept hs
      exact .fail own (.ordinary (Value.isOrdinary_unary hc))
  | between op l r line =>
    rcases stopped_bind hs with hs | ⟨v, m', done, hs⟩
    · exact .inner .left rfl hs
    rcases stopped_bind hs with hs | ⟨w, m'', -, hs⟩
    · exact .inner (.right done) rfl hs
    · obtain ⟨cause, hc, rfl⟩ := stopped_ofExcept hs
      exact .fail own (.ordinary (Value.isOrdinary_binary hc))
  | cond test yes no line =>
    rcases stopped_bind hs with hs | ⟨c, m', done, hs⟩
    · exact .inner .test rfl hs
    cases hc : c.isTruthy with
    | true =>
      rw [hc, if_pos rfl] at hs
      exact .inner (.yes done hc) rfl hs
    | false =>
      rw [hc, if_neg (by simp)] at hs
      cases no with
      | none => cases hs
      | some no => exact .inner (.no done hc) rfl hs
  | function params body line => cases hs
  | call callee args line =>
    rcases stopped_bind hs with hs | ⟨f, m', done, hs⟩
    · exact .inner .callee rfl hs
    rcases stopped_bind hs with hs | ⟨vs, m'', done', hs⟩
    · exact .inner (.arguments done) rfl hs
    · exact .inner (.call done done') rfl hs
  | index c i line =>
    rcases stopped_bind hs with hs | ⟨v, m', done, hs⟩
    · exact .inner .collection rfl hs
    rcases stopped_bind hs with hs | ⟨w, m'', -, hs⟩
    · exact .inner (.position done) rfl hs
    · obtain ⟨cause, hc, rfl⟩ := stopped_ofExcept hs
      exact .fail own (.ordinary (Value.isOrdinary_index hc))
  | kindOf e line =>
    simp only [evalExpr] at hs
    split at hs
    · cases hs
    · cases hs
    · exact .inner .measured rfl hs
  | loop body line => exact .inner .loop rfl hs
  | foreign node =>
    cases hs
    exact .halt (.foreign rfl _)

theorem passes_all (es : List Expr) (hs : (evalAll site (n + 1) es m).1.Stopped stop) :
    Passes n stop ⟨site, .all es, m⟩ := by
  cases es with
  | nil => cases hs
  | cons e es =>
    rcases stopped_bind hs with hs | ⟨v, m', done, hs⟩
    · exact .inner .head rfl hs
    rcases stopped_bind hs with hs | ⟨vs, m'', -, hs⟩
    · exact .inner (.tail done) rfl hs
    · cases hs

theorem passes_entries (line : Int) (es : List (Expr × Expr)) (before : List (Key × Value))
    (hs : (evalEntries site (n + 1) line es before m).1.Stopped stop) :
    Passes n stop ⟨site, .entries line es before, m⟩ := by
  cases es with
  | nil => cases hs
  | cons p es =>
    rcases stopped_bind hs with hs | ⟨k, m', keyed, hs⟩
    · exact .inner .key rfl hs
    cases hk : k.key? with
    | none =>
      rw [hk] at hs
      cases hs
      exact .fail (List.mem_singleton_self _) (.ordinary rfl)
    | some key =>
      rw [hk] at hs
      rcases stopped_bind hs with hs | ⟨v, m'', valued, hs⟩
      · exact .inner (.entry keyed (by simp [hk])) rfl hs
      · exact .inner (.rest keyed hk valued) rfl hs

theorem passes_loop (body : List Stmt) (hs : (repeatLoop site (n + 1) body m).1.Stopped stop) :
    Passes n stop ⟨site, .loop body, m⟩ := by
  simp only [repeatLoop] at hs
  split at hs
  · rename_i heq
    exact .inner (.again heq (.inl ⟨_, rfl⟩)) rfl hs
  · rename_i heq
    exact .inner (.again heq (.inr rfl)) rfl hs
  · cases hs
  · exact .inner .round rfl hs

theorem passes_call (f : Value) (args : List Value) (line : Int)
    (hs : (apply site (n + 1) f args line m).1.Stopped stop) :
    Passes n stop ⟨site, .call f args line, m⟩ := by
  have own : line ∈ (Task.call f args line).lines := List.mem_singleton_self _
  cases f with
  | native f identity =>
    rcases stopped_callNative hs with ⟨cause, ordinary, rfl⟩ | ⟨h, rfl, known⟩
    · exact .fail own (.ordinary ordinary)
    · exact .halt (.halt known)
  | function f =>
    by_cases hlen : args.length = f.params.length
    · rw [apply_function_of_eq site n f args line m hlen] at hs
      split at hs
      · cases hs
      · rename_i c m' heq
        cases hs
        exact .fail own (.call hlen (congrArg Prod.fst heq))
      · exact .inner (.body hlen) rfl hs
    · rw [apply_function_of_ne site n f args line m hlen] at hs
      cases hs
      exact .fail own (.ordinary rfl)
  | _ =>
    cases hs
    exact .fail own (.ordinary rfl)

theorem passes_block (ss : List Stmt) (last : Value)
    (hs : (execAll site (n + 1) ss last m).1.Stopped stop) :
    Passes n stop ⟨site, .block ss last, m⟩ := by
  cases ss with
  | nil => cases hs
  | cons t ts =>
    rcases stopped_bind hs with hs | ⟨v, m', done, hs⟩
    · exact .inner .first rfl hs
    · exact .inner (.next done) rfl hs

/-- A fault that a load has left without a place is placed at the statement that loads. -/
theorem passes_load (name : String) (line : Int)
    (hs : (exec site (n + 1) (.load name line) m).1.Stopped stop) :
    Passes n stop ⟨site, .stmt (.load name line), m⟩ := by
  have own : line ∈ (Task.stmt (.load name line)).lines := List.mem_singleton_self _
  have loaded {r : Outcome (List (String × Value))} {m' : Machine} {found : Stop}
      (heq : load site n name m = (r, m')) (hr : r.Stopped found) :
      Job.Stops n found ⟨site, .library name, m⟩ := by
    rw [Job.Stops, heq]
    exact hr
  simp only [exec] at hs
  split at hs
  · cases hs
  · rename_i inner m' heq
    cases hs
    obtain ⟨cause, place, file⟩ := inner
    cases place with
    | none => exact .fail own (.started .load (loaded heq (.fault _)))
    | some l =>
      exact .started .load (loaded heq (.fault _)) fun _ => .inr (Option.some_ne_none l)
  · rename_i s m' hf heq
    cases hs
    exact absurd rfl (hf _)
  · rename_i h m' heq
    cases hs
    exact .started .load (loaded heq (.halt h)) fun _ => .inr trivial
  · cases hs

theorem passes_stmt (t : Stmt) (hs : (exec site (n + 1) t m).1.Stopped stop) :
    Passes n stop ⟨site, .stmt t, m⟩ := by
  have own : t.line ∈ (Task.stmt t).lines := List.mem_singleton_self _
  cases t with
  | expr e line => exact .inner .value rfl hs
  | bind x e line =>
    rcases stopped_bind hs with hs | ⟨v, m', -, hs⟩
    · exact .inner .bound rfl hs
    · cases hs
  | rebind x e line =>
    rcases stopped_bind hs with hs | ⟨v, m', -, hs⟩
    · exact .inner .rebound rfl hs
    rcases stopped_bind hs with hs | ⟨found, m'', -, hs⟩
    · simp only [rebindName] at hs
      split at hs <;> cases hs
    · split at hs <;> cases hs
      exact .fail own (.ordinary rfl)
  | giveBack e line =>
    cases e with
    | none => cases hs
    | some e =>
      rcases stopped_bind hs with hs | ⟨v, m', -, hs⟩
      · exact .inner .given rfl hs
      · cases hs
  | load name line => exact passes_load name line hs
  | leave line => cases hs
  | again line => cases hs
  | foreign node =>
    cases hs
    exact .halt (.foreign rfl _)

theorem passes_library (name : String) (hs : (load site (n + 1) name m).1.Stopped stop) :
    Passes n stop ⟨site, .library name, m⟩ := by
  rw [load_succ] at hs
  cases hplan : m.plan site name with
  | fault cause =>
    rw [hplan] at hs
    cases hs
    exact .unplaced rfl (Machine.isOrdinary_of_plan hplan)
  | halt h =>
    rw [hplan] at hs
    cases hs
    exact .halt (.halt (Machine.isUnknown_of_plan hplan))
  | hand exports =>
    rw [hplan] at hs
    cases hs
  | run key source exports =>
    rw [hplan] at hs
    exact .started (.text hplan) hs fun _ => .inl rfl

theorem passes_text (key name source : String) (natives : List (String × Value))
    (hs : (runLibrary site (n + 1) key name source natives m).1.Stopped stop) :
    Passes n stop ⟨site, .text key name source natives, m⟩ := by
  obtain ⟨r, hr, heq⟩ | ⟨parsed, r, m', read, clean, unused, hrun, heq⟩ :=
    runLibrary_cases site n key name source natives m
  · rw [heq] at hs
    cases hr with
    | fault cause ordinary =>
      cases hs
      exact .unplaced rfl ordinary
    | halt e =>
      cases hs
      exact .halt (.halt rfl)
  · rw [heq] at hs
    have hr : r.Stopped stop := by
      cases r with
      | signal s =>
        cases hs
        exact .fault _
      | halted h =>
        cases hs
        exact .halt h
      | _ => cases hs
    apply Passes.inner (.run read clean unused) rfl
    rw [Job.Stops, hrun]
    exact hr

theorem passes_program (ss : List Stmt) (last : Value)
    (hs : (runProgram site (n + 1) ss last m).1.Stopped stop) :
    Passes n stop ⟨site, .program ss last, m⟩ := by
  cases ss with
  | nil => cases hs
  | cons t ts =>
    simp only [runProgram] at hs
    split at hs
    · rename_i heq
      exact .inner (.onward heq) rfl hs
    · cases hs
    · rename_i c m' heq
      cases hs
      exact .fail List.mem_cons_self (.program (congrArg Prod.fst heq))
    · exact .inner .opening rfl hs

theorem Stops.passes {j : Job} (hs : j.Stops (n + 1) stop) : j.Passes n stop := by
  obtain ⟨site, task, m⟩ := j
  cases task with
  | expr e => exact passes_expr e hs
  | all es => exact passes_all es hs
  | entries line es before => exact passes_entries line es before hs
  | loop body => exact passes_loop body hs
  | call f args line => exact passes_call f args line hs
  | block ss last => exact passes_block ss last hs
  | stmt t => exact passes_stmt t hs
  | library name => exact passes_library name hs
  | text key name source natives => exact passes_text key name source natives hs
  | program ss last => exact passes_program ss last hs

theorem Stops.blames {j : Job} {fault : Fault} (hs : j.Stops (n + 1) (.fault fault)) :
    j.Blames n fault.cause := by
  cases hs.passes with
  | here raises blames => exact blames fault rfl
  | started starts stops placed => exact .started starts stops

/-! ### Whole runs -/

theorem not_stops_zero {j : Job} : ¬ j.Stops 0 stop := by
  obtain ⟨site, task, m⟩ := j
  cases task <;> exact nofun

/-- What stops a job was raised in its course, and has its place unless the job is a load. -/
theorem Stops.raised {j : Job} (hs : j.Stops n stop) :
    (∃ n' j', Nested n j n' j' ∧ j'.Raises stop) ∧ (j.task.isLoad = true ∨ stop.IsPlaced) := by
  induction n generalizing j with
  | zero => exact absurd hs not_stops_zero
  | succ n ih =>
    cases hs.passes with
    | here raises =>
      refine ⟨⟨n + 1, j, .refl _ _, raises⟩, ?_⟩
      cases raises with
      | fault own cause => exact .inr (Option.some_ne_none _)
      | unplaced load cause => exact .inl load
      | foreign node h => exact .inr trivial
      | halt known => exact .inr trivial
    | started starts stops placed =>
      obtain ⟨⟨n', j', nested, raises⟩, hplaced⟩ := ih stops
      refine ⟨⟨n', j', .step starts nested, raises⟩, ?_⟩
      rcases hplaced with hload | hplaced
      · exact placed hload
      · exact .inr hplaced

theorem Halts.stops {j : Job} {h : Halt} (hh : j.Halts n h) : j.Stops n (.halt h) := by
  obtain ⟨site, task, m⟩ := j
  cases task <;> simp only [Halts] at hh <;> simp only [Stops, hh] <;> exact .halt h

end Job

end MeowLang
