import MeowLang.Proofs.Evaluation.Stops
import MeowLang.Proofs.Signals

/-! The places of errors. Whatever a program, a statement or an expression reports as an error has
a line and a file, and the place that a fault gets first is the one it keeps: a fault that has a
line stops every evaluation around the one that it has stopped, and stays the same fault. Only
`typeof` looks at a fault and goes on. A fault of a native function is placed at its call. -/
namespace MeowLang

open Eval

/-- The task is to tell the kind of a value; a failure has a kind as well. -/
def Task.isMeasure : Task → Bool
  | .expr (.kindOf _ _) => true
  | _ => false

/-- `j'` with bound `n'` is evaluated in the course of `j` with bound `n`, and there is no `typeof`
between the two that would catch what stops `j'`. -/
inductive Encloses : Nat → Job → Nat → Job → Prop
  | refl (n : Nat) (j : Job) : Encloses n j n j
  | step {n n' : Nat} {j j' j'' : Job} (starts : Starts n j j') (passes : j.task.isMeasure = false)
      (rest : Encloses n j' n' j'') : Encloses (n + 1) j n' j''

/-- What an outcome tells of an error: it is one that stops the evaluations around it, or the mark
of one that stands for a value. -/
inductive Outcome.Reports : Outcome Value → String → Option Int → Option String → Prop
  | failed (fault : Fault) : Reports (.signal (.failed fault)) fault.message fault.line fault.file
  | held (message : String) (line : Option Int) (file : Option String) :
      Reports (.value (.failure message line file)) message line file

/-! ### Stops go outward -/

section
variable {α β : Type} {m m' : Machine} {stop : Stop} {site : Site} {n : Nat}

theorem stopped_of_bind {p : Eval α} {f : α → Eval β} (h : (p m).1.Stopped stop) :
    ((p >>= f) m).1.Stopped stop := by
  rw [bind_apply]
  rcases hp : p m with ⟨r, m'⟩
  rw [hp] at h
  cases h with
  | fault fault => exact .fault fault
  | halt e => exact .halt e

theorem stopped_after {p : Eval α} {f : α → Eval β} {a : α} (done : p m = (.value a, m'))
    (h : (f a m').1.Stopped stop) : ((p >>= f) m).1.Stopped stop := by
  rw [bind_apply, done]
  exact h

theorem stopped_repeatLoop {body : List Stmt}
    (h : (nested (execAll site n body .null) m).1.Stopped stop) :
    (repeatLoop site (n + 1) body m).1.Stopped stop := by
  simp only [repeatLoop]
  rcases hb : nested (execAll site n body .null) m with ⟨r, m'⟩
  rw [hb] at h
  cases h with
  | fault fault => exact .fault fault
  | halt e => exact .halt e

theorem stopped_apply {f : Closure} {args : List Value} {line : Int}
    (arity : args.length = f.params.length)
    (h : (within ⟨Assoc.insertAll (f.params.zip args) [], some f.scope⟩
      (execAll site n f.body .null) m).1.Stopped stop) :
    (apply site (n + 1) (.function f) args line m).1.Stopped stop := by
  rw [apply_function_of_eq site n f args line m arity]
  generalize within ⟨Assoc.insertAll (f.params.zip args) [], some f.scope⟩
    (execAll site n f.body .null) m = ended at h ⊢
  obtain ⟨r, m'⟩ := ended
  cases h with
  | fault fault => exact .fault fault
  | halt e => exact .halt e

/-- A fault that has its place goes through the statement that loads as it is. -/
theorem stopped_load {name : String} {line : Int} (placed : stop.IsPlaced)
    (h : (load site n name m).1.Stopped stop) :
    (exec site (n + 1) (.load name line) m).1.Stopped stop := by
  simp only [exec]
  rcases hl : load site n name m with ⟨r, m'⟩
  rw [hl] at h
  cases h with
  | fault fault =>
    obtain ⟨cause, _ | place, file⟩ := fault
    · exact absurd rfl placed
    · exact .fault _
  | halt e => exact .halt e

theorem stopped_runProgram {t : Stmt} {ts : List Stmt} {last : Value}
    (h : (exec site n t m).1.Stopped stop) :
    (runProgram site (n + 1) (t :: ts) last m).1.Stopped stop := by
  simp only [runProgram]
  rcases ht : exec site n t m with ⟨r, m'⟩
  rw [ht] at h
  cases h with
  | fault fault => exact .fault fault
  | halt e => exact .halt e

theorem stopped_runLibrary {key name source : String} {natives : List (String × Value)}
    {parsed : Parsed} (read : Parsed.ofSource source = .ok parsed) (clean : parsed.errors = [])
    (unused : key ∉ m.loading)
    (h : (runProgram { site with file := key } n parsed.program .null
      (m.beginLibrary key natives)).1.Stopped stop) :
    (runLibrary site (n + 1) key name source natives m).1.Stopped stop := by
  rw [runLibrary_of_clean site n name natives read clean unused]
  generalize runProgram { site with file := key } n parsed.program .null
    (m.beginLibrary key natives) = ended at h ⊢
  obtain ⟨r, m'⟩ := ended
  cases h with
  | fault fault => exact .fault fault
  | halt e => exact .halt e

end

section
variable {n n' : Nat} {j j' : Job} {stop : Stop}

/-- A part that is stopped stops the job that has started it, unless this is a `typeof`. -/
theorem Starts.stops (hs : Starts n j j') (passes : j.task.isMeasure = false)
    (placed : stop.IsPlaced) (h : j'.Stops n stop) : j.Stops (n + 1) stop := by
  cases hs with
  | items | entries | operand | left | test | callee | collection | head | key | first | bound
  | rebound | given => exact stopped_of_bind h
  | right done | position done | arguments done | tail done =>
    exact stopped_after done (stopped_of_bind h)
  | yes done holds =>
    refine stopped_after done ?_
    rw [if_pos holds]
    exact h
  | no done fails =>
    refine stopped_after done ?_
    rw [if_neg (by simp [fails])]
    exact h
  | call done done' => exact stopped_after done (stopped_after done' h)
  | measured => cases passes
  | entry keyed usable =>
    obtain ⟨key, hkey⟩ := Option.isSome_iff_exists.mp usable
    refine stopped_after keyed ?_
    rw [hkey]
    exact stopped_of_bind h
  | rest keyed usable valued =>
    refine stopped_after keyed ?_
    rw [usable]
    exact stopped_after valued h
  | round => exact stopped_repeatLoop h
  | @again site body m r m' done goesOn =>
    have heq : repeatLoop site (n + 1) body m = repeatLoop site n body m' := by
      rcases goesOn with ⟨v, rfl⟩ | rfl <;> simp only [repeatLoop, done]
    rw [Job.Stops, heq]
    exact h
  | body arity => exact stopped_apply arity h
  | next done => exact stopped_after done h
  | loop | value => exact h
  | load => exact stopped_load placed h
  | text plan =>
    rw [Job.Stops, load_succ, plan]
    exact h
  | run read clean unused => exact stopped_runLibrary read clean unused h
  | opening => exact stopped_runProgram h
  | onward done =>
    rw [Job.Stops]
    simp only [runProgram, done]
    exact h

/-- What stops a job stops every job around it, and is still the same. -/
theorem Encloses.stops (he : Encloses n j n' j') (placed : stop.IsPlaced)
    (h : j'.Stops n' stop) : j.Stops n stop := by
  induction he with
  | refl => exact h
  | step starts passes _ ih => exact starts.stops passes placed (ih h)

end

/-! ### Places -/

section
variable {m : Machine} {site : Site} {n : Nat}

theorem Job.Raises.file_ne_none {j : Job} {fault : Fault} (h : j.Raises (.fault fault))
    (placed : fault.line ≠ none) : fault.file ≠ none := by
  cases h with
  | fault own cause => exact Option.some_ne_none _
  | unplaced load cause => exact absurd rfl placed

/-- A job that is no load ends with no fault but one that has a place. -/
theorem Job.Stops.located {j : Job} {fault : Fault} (hs : j.Stops n (.fault fault))
    (hl : j.task.isLoad = false) : fault.line ≠ none ∧ fault.file ≠ none := by
  obtain ⟨⟨n', j', -, hraises⟩, hload | hplaced⟩ := hs.raised
  · rw [hl] at hload
    cases hload
  · exact ⟨hplaced, hraises.file_ne_none hplaced⟩

/-- An error that is told is a fault that stops, where marks are never values. -/
theorem Outcome.Reports.exists_fault {r : Outcome Value} {message : String} {line : Option Int}
    {file : Option String} {s : Scopes} (h : r.Reports message line file)
    (hf : Guard.plain.Fine Guard.plain.Held s r) :
    ∃ fault : Fault, r.Stopped (.fault fault) ∧ fault.line = line ∧ fault.file = file := by
  cases h with
  | failed fault => exact ⟨fault, .fault fault, rfl, rfl⟩
  | held message line file => cases hf _ (.refl _)

theorem callNative_of_fault {f : Native} {args : List Value} {fault : Fault} {world : World}
    (h : f.call args m.world = (.signal (.failed fault), world)) (line : Int) :
    callNative site line f args m =
      (.signal (.failed ⟨fault.cause, some line, some site.file⟩), { m with world := world }) := by
  have hans := Native.answers_call f args m.world
  rw [h] at hans
  cases hans with
  | fault cause => simp only [callNative, h, Fault.locate]

/-- In every state of every session, an error that a statement, an expression or a program ends
with has a line and a file. Whatever part of a program is stopped by a fault that has a line, all
that encloses it is stopped by this fault with its message, line and file. A fault of a native
function has the line of the call. -/
theorem errors_keep_their_first_place (hm : m.Reached) :
    (∀ site n message line file,
      (∀ s, (exec site n s m).1.Reports message line file → line ≠ none ∧ file ≠ none) ∧
      (∀ e, (evalExpr site n e m).1.Reports message line file → line ≠ none ∧ file ≠ none) ∧
      ∀ program, (runProgram site n program .null m).1.Reports message line file →
        line ≠ none ∧ file ≠ none) ∧
    (∀ n j n' j' fault, Encloses n j n' j' → fault.line ≠ none → j'.Stops n' (.fault fault) →
      j.Stops n (.fault fault)) ∧
    ∀ site n callee args line f identity m₁ vs m₂ fault world,
      evalExpr site n callee m = (.value (.native f identity), m₁) →
      evalAll site n args m₁ = (.value vs, m₂) →
      f.call vs m₂.world = (.signal (.failed fault), world) →
      evalExpr site (n + 1) (.call callee args line) m =
        (.signal (.failed ⟨fault.cause, some line, some site.file⟩),
          { m₂ with world := world }) := by
  have hi := Guard.plain_inv_iff.mpr hm.plain
  refine ⟨fun site n message line file => ⟨fun s hr => ?_, fun e hr => ?_, fun program hr => ?_⟩,
    fun n j n' j' fault he hline hs => he.stops hline hs, ?_⟩
  · have hpost := (Guard.plain.guarded n).stmt site s m ⟨hi, trivial, trivial⟩
    obtain ⟨fault, hstops, rfl, rfl⟩ := hr.exists_fault hpost.fine
    exact Job.Stops.located (j := ⟨site, .stmt s, m⟩) hstops rfl
  · have hpost := (Guard.plain.guarded n).expr site e m ⟨hi, trivial⟩
    obtain ⟨fault, hstops, rfl, rfl⟩ := hr.exists_fault hpost.fine
    exact Job.Stops.located (j := ⟨site, .expr e, m⟩) hstops rfl
  · have hpost := (Guard.plain.guarded n).program site program .null m
      (hm.plain.program site program)
    obtain ⟨fault, hstops, rfl, rfl⟩ := hr.exists_fault hpost.fine
    exact Job.Stops.located (j := ⟨site, .program program .null, m⟩) hstops rfl
  · intro site n callee args line f identity m₁ vs m₂ fault world hcallee hargs hcall
    cases n with
    | zero => cases hcallee
    | succ n =>
      simp only [evalExpr.eq_def site (n + 1 + 1), bind_apply, hcallee, hargs]
      exact callNative_of_fault hcall line

def loopedCall : Program := [.expr (.loop [.expr (.call (.ident "log" 2) [] 2) 2] 1) 1]

/-- The call fails at its own line, and so do the loop and the program around it. -/
theorem errors_keep_their_first_place_in_a_loop :
    let m : Machine := .start (.start ⟨[], []⟩ [])
    let site : Site := ⟨"main", "/"⟩
    let fault : Fault := ⟨.argumentsMissing 0 1, some 2, some "main"⟩
    (evalExpr site 3 (.call (.ident "log" 2) [] 2) m.nest).1.Stopped (.fault fault) ∧
      (runProgram site 9 loopedCall .null m).1.Stopped (.fault fault) ∧
      fault.line ≠ none ∧ fault.file ≠ none := by
  intro m site fault
  obtain ⟨hplaced, houtward, -⟩ :=
    errors_keep_their_first_place (Machine.Rests.start m.world).reached
  have hcall : (evalExpr site 3 (.call (.ident "log" 2) [] 2) m.nest).1.Stopped (.fault fault) :=
    .fault _
  have hprogram := houtward 9 ⟨site, .program loopedCall .null, m⟩ 3
    ⟨site, .expr (.call (.ident "log" 2) [] 2), m.nest⟩ fault
    (.step .opening rfl (.step .value rfl (.step .loop rfl (.step .round rfl
      (.step .first rfl (.step .value rfl (.refl _ _))))))) (Option.some_ne_none _) hcall
  have hreports : (runProgram site 9 loopedCall .null m).1.Reports fault.message fault.line
      fault.file := .failed fault
  exact ⟨hcall, hprogram, (hplaced site 9 _ _ _).2.2 loopedCall hreports⟩

end

end MeowLang
