import MeowLang.Proofs.Evaluation.Plan
import MeowLang.Proofs.Evaluation.Stops
import MeowLang.Proofs.Program.Equality
import MeowLang.Proofs.Signals

/-! Leaving a loop that is not there. Whether a statement that leaves or repeats a loop stands in
one can be seen in the text, function by function. Where it always does, in the program and in the
libraries it loads, no evaluation ever finds that a loop is missing. -/
namespace MeowLang

open Eval

/-! ### The check -/

mutual

/-- Whatever leaves or repeats a loop stands in a loop of the expression, or may do without one
since the expression itself stands in a loop. The code of a function is on its own. -/
def Expr.isLoopSafe (inLoop : Bool) : Expr → Bool
  | .array items _ => exprsLoopSafe inLoop items
  | .object entries _ => entriesLoopSafe inLoop entries
  | .prefixed _ e _ => e.isLoopSafe inLoop
  | .kindOf e _ => e.isLoopSafe inLoop
  | .between _ l r _ => l.isLoopSafe inLoop && r.isLoopSafe inLoop
  | .index c i _ => c.isLoopSafe inLoop && i.isLoopSafe inLoop
  | .cond test yes no _ =>
    test.isLoopSafe inLoop && (stmtsLoopSafe inLoop yes && branchLoopSafe inLoop no)
  | .function _ body _ => stmtsLoopSafe false body
  | .call callee args _ => callee.isLoopSafe inLoop && exprsLoopSafe inLoop args
  | .loop body _ => stmtsLoopSafe true body
  | .ident _ _ | .number _ _ | .string _ _ | .bool _ _ | .foreign _ => true
termination_by structural e => e

def Stmt.isLoopSafe (inLoop : Bool) : Stmt → Bool
  | .bind _ e _ => e.isLoopSafe inLoop
  | .rebind _ e _ => e.isLoopSafe inLoop
  | .expr e _ => e.isLoopSafe inLoop
  | .giveBack e _ => resultLoopSafe inLoop e
  | .leave _ | .again _ => inLoop
  | .load _ _ | .foreign _ => true
termination_by structural s => s

def exprsLoopSafe (inLoop : Bool) : List Expr → Bool
  | [] => true
  | e :: rest => e.isLoopSafe inLoop && exprsLoopSafe inLoop rest
termination_by structural es => es

def entriesLoopSafe (inLoop : Bool) : List (Expr × Expr) → Bool
  | [] => true
  | (k, v) :: rest => (k.isLoopSafe inLoop && v.isLoopSafe inLoop) && entriesLoopSafe inLoop rest
termination_by structural es => es

def stmtsLoopSafe (inLoop : Bool) : List Stmt → Bool
  | [] => true
  | s :: rest => s.isLoopSafe inLoop && stmtsLoopSafe inLoop rest
termination_by structural ss => ss

def branchLoopSafe (inLoop : Bool) : Option (List Stmt) → Bool
  | none => true
  | some body => stmtsLoopSafe inLoop body
termination_by structural b => b

def resultLoopSafe (inLoop : Bool) : Option Expr → Bool
  | none => true
  | some e => e.isLoopSafe inLoop
termination_by structural e => e

end

/-- A program that leaves and repeats only loops of its own, as do the functions in it. -/
def Program.isLoopSafe (program : Program) : Bool := stmtsLoopSafe false program

/-- What is run of a text is loop-safe. -/
def LoopSafeText (source : String) : Prop :=
  ∀ parsed, Parsed.ofSource source = .ok parsed → parsed.errors = [] →
    parsed.program.isLoopSafe = true

section
variable {inLoop : Bool}

theorem exprsLoopSafe_iff {es : List Expr} :
    exprsLoopSafe inLoop es = true ↔ ∀ e ∈ es, e.isLoopSafe inLoop = true := by
  induction es with
  | nil => simp [exprsLoopSafe]
  | cons e es ih => simp [exprsLoopSafe, ih]

theorem entriesLoopSafe_iff {es : List (Expr × Expr)} :
    entriesLoopSafe inLoop es = true ↔
      ∀ p ∈ es, p.1.isLoopSafe inLoop = true ∧ p.2.isLoopSafe inLoop = true := by
  induction es with
  | nil => simp [entriesLoopSafe]
  | cons p es ih =>
    obtain ⟨k, v⟩ := p
    simp [entriesLoopSafe, ih]

theorem stmtsLoopSafe_iff {ss : List Stmt} :
    stmtsLoopSafe inLoop ss = true ↔ ∀ s ∈ ss, s.isLoopSafe inLoop = true := by
  induction ss with
  | nil => simp [stmtsLoopSafe]
  | cons s ss ih => simp [stmtsLoopSafe, ih]

theorem Expr.isLoopSafe_part {e d : Expr} (h : e.isLoopSafe inLoop = true) (hd : d ∈ e.parts) :
    d.isLoopSafe inLoop = true := by
  cases e <;> simp only [parts, List.mem_cons, List.not_mem_nil, or_false] at hd
  case array items line => exact exprsLoopSafe_iff.mp h d hd
  case object entries line =>
    obtain ⟨p, hp, hd⟩ := List.mem_flatMap.mp hd
    have hsafe := entriesLoopSafe_iff.mp h p hp
    simp only [List.mem_cons, List.not_mem_nil, or_false] at hd
    rcases hd with rfl | rfl
    · exact hsafe.1
    · exact hsafe.2
  case prefixed op e line | kindOf e line => exact hd ▸ h
  all_goals simp only [isLoopSafe, Bool.and_eq_true] at h
  case between op l r line | index l r line =>
    rcases hd with rfl | rfl
    · exact h.1
    · exact h.2
  case cond test yes no line => exact hd ▸ h.1
  case call callee args line =>
    rcases hd with rfl | hd
    · exact h.1
    · exact exprsLoopSafe_iff.mp h.2 d hd

/-- The blocks of an expression are as safe as the expression, unless it makes them a loop. -/
theorem Expr.isLoopSafe_block {e : Expr} {b : List Stmt} {t : Stmt}
    (h : e.isLoopSafe inLoop = true) (hb : b ∈ e.blocks) (ht : t ∈ b) :
    ∃ flag, t.isLoopSafe flag = true := by
  cases e <;> simp only [blocks, List.mem_cons, List.not_mem_nil, or_false] at hb
  case cond test yes no line =>
    simp only [isLoopSafe, Bool.and_eq_true] at h
    rcases hb with rfl | hb
    · exact ⟨inLoop, stmtsLoopSafe_iff.mp h.2.1 t ht⟩
    · cases no with
      | none => cases hb
      | some body =>
        cases List.mem_singleton.mp hb
        exact ⟨inLoop, stmtsLoopSafe_iff.mp h.2.2 t ht⟩
  case loop body line =>
    cases hb
    exact ⟨true, stmtsLoopSafe_iff.mp h t ht⟩

theorem Stmt.isLoopSafe_part {t : Stmt} {e : Expr} (h : t.isLoopSafe inLoop = true)
    (he : e ∈ t.parts) : e.isLoopSafe inLoop = true := by
  cases t <;> simp only [parts, List.mem_cons, List.not_mem_nil, or_false] at he
  case giveBack v line =>
    cases v with
    | none => cases he
    | some v =>
      cases List.mem_singleton.mp he
      exact h
  all_goals exact he ▸ h

end

/-! ### Safe code is not left -/

/-- No statement that leaves or repeats a loop gets out. -/
def Outcome.Stays {α : Type} (r : Outcome α) : Prop := ∀ c, r ≠ .signal (.control c)

section
variable {α β : Type} {m : Machine} {site : Site} {line : Int}

theorem stays_bind {p : Eval α} {f : α → Eval β} (hp : (p m).1.Stays)
    (hf : ∀ a m', p m = (.value a, m') → (f a m').1.Stays) : ((p >>= f) m).1.Stays := by
  rw [bind_apply]
  rcases hpm : p m with ⟨r, m'⟩
  rw [hpm] at hp
  cases r with
  | value a => exact hf a m' hpm
  | signal s =>
    intro c hc
    cases hc
    exact hp c rfl
  | halted h => exact nofun
  | exhausted => exact nofun

theorem stays_ofExcept (r : Except Cause α) : (ofExcept site line r m).1.Stays := by
  cases r <;> exact nofun

theorem stays_of_failed {r : Outcome α} (h : ∀ t, r = .signal t → ∃ fault, t = .failed fault) :
    r.Stays := by
  intro c hc
  obtain ⟨fault, hfault⟩ := h _ hc
  cases hfault

theorem repeatLoop_stays (n : Nat) (body : List Stmt) : (repeatLoop site n body m).1.Stays := by
  induction n generalizing m with
  | zero => exact fun _ hc => by cases hc
  | succ n ih =>
    simp only [repeatLoop]
    split
    · exact ih
    · exact ih
    · exact fun _ hc => by cases hc
    · rename_i hagain hleave
      intro c hc
      cases c with
      | again => exact hagain _ (Prod.ext hc rfl)
      | leave => exact hleave _ (Prod.ext hc rfl)

theorem load_stays (site : Site) (n : Nat) (name : String) (m : Machine) :
    (load site n name m).1.Stays := by
  cases n with
  | zero => exact nofun
  | succ n =>
    rw [load_succ]
    cases m.plan site name with
    | fault cause => exact nofun
    | halt h => exact nofun
    | hand exports => exact nofun
    | run key source exports =>
      cases n with
      | zero => exact nofun
      | succ n =>
        obtain ⟨r, hr, heq⟩ | ⟨parsed, r, m', -, -, -, hrun, heq⟩ :=
          runLibrary_cases site n key name source (m.instantiate exports).1
            (m.instantiate exports).2
        · simp only [heq]
          cases hr <;> exact nofun
        · simp only [heq]
          have hs : r.Stays := stays_of_failed fun t ht => by
            apply runProgram_signal
            rw [hrun]
            exact ht
          cases r with
          | signal s =>
            intro c hc
            cases hc
            exact hs c rfl
          | _ => exact nofun

end

/-- Code that is safe on its own, with bound `n`, is never left. -/
structure Contained (n : Nat) : Prop where
  expr : ∀ site e m, e.isLoopSafe false = true → (evalExpr site n e m).1.Stays
  all : ∀ site es m, exprsLoopSafe false es = true → (evalAll site n es m).1.Stays
  entries : ∀ site line es done m, entriesLoopSafe false es = true →
    (evalEntries site n line es done m).1.Stays
  block : ∀ site ss last m, stmtsLoopSafe false ss = true → (execAll site n ss last m).1.Stays
  stmt : ∀ site t m, t.isLoopSafe false = true → (exec site n t m).1.Stays

namespace Contained

variable {n : Nat} (h : Contained n) {site : Site} {m : Machine}

include h

theorem expr_succ (e : Expr) (he : e.isLoopSafe false = true) :
    (evalExpr site (n + 1) e m).1.Stays := by
  cases e with
  | number x line | string s line | bool b line | function params body line | foreign node =>
    exact fun _ hc => by cases hc
  | ident x line =>
    refine stays_bind (fun _ hc => by cases hc) fun found m' _ => ?_
    cases found <;> exact fun _ hc => by cases hc
  | array items line => exact stays_bind (h.all site items m he) fun _ _ _ _ hc => by cases hc
  | object entries line =>
    exact stays_bind (h.entries site line entries [] m he) fun _ _ _ _ hc => by cases hc
  | prefixed op e line => exact stays_bind (h.expr site e m he) fun _ _ _ => stays_ofExcept _
  | between op l r line =>
    simp only [Expr.isLoopSafe, Bool.and_eq_true] at he
    exact stays_bind (h.expr site l m he.1) fun _ m' _ =>
      stays_bind (h.expr site r m' he.2) fun _ _ _ => stays_ofExcept _
  | index c i line =>
    simp only [Expr.isLoopSafe, Bool.and_eq_true] at he
    exact stays_bind (h.expr site c m he.1) fun _ m' _ =>
      stays_bind (h.expr site i m' he.2) fun _ _ _ => stays_ofExcept _
  | cond test yes no line =>
    simp only [Expr.isLoopSafe, Bool.and_eq_true] at he
    refine stays_bind (h.expr site test m he.1) fun c m' _ => ?_
    cases c.isTruthy with
    | true => exact h.block site yes .null m'.nest he.2.1
    | false =>
      cases no with
      | none => exact fun _ hc => by cases hc
      | some no => exact h.block site no .null m'.nest he.2.2
  | call callee args line =>
    simp only [Expr.isLoopSafe, Bool.and_eq_true] at he
    exact stays_bind (h.expr site callee m he.1) fun _ m' _ =>
      stays_bind (h.all site args m' he.2) fun _ _ _ => stays_of_failed fun _ => apply_signal
  | kindOf e line =>
    simp only [evalExpr]
    split
    · exact fun _ hc => by cases hc
    · exact fun _ hc => by cases hc
    · exact h.expr site e m he
  | loop body line => exact repeatLoop_stays n body

theorem all_succ (es : List Expr) (hes : exprsLoopSafe false es = true) :
    (evalAll site (n + 1) es m).1.Stays := by
  cases es with
  | nil => exact nofun
  | cons e es =>
    simp only [exprsLoopSafe, Bool.and_eq_true] at hes
    exact stays_bind (h.expr site e m hes.1) fun _ m' _ =>
      stays_bind (h.all site es m' hes.2) fun _ _ _ => nofun

theorem entries_succ (line : Int) (es : List (Expr × Expr)) (done : List (Key × Value))
    (hes : entriesLoopSafe false es = true) :
    (evalEntries site (n + 1) line es done m).1.Stays := by
  cases es with
  | nil => exact nofun
  | cons p es =>
    obtain ⟨k, e⟩ := p
    simp only [entriesLoopSafe, Bool.and_eq_true] at hes
    refine stays_bind (h.expr site k m hes.1.1) fun key m' _ => ?_
    cases key.key? with
    | none => exact nofun
    | some key =>
      exact stays_bind (h.expr site e m' hes.1.2) fun _ m'' _ =>
        h.entries site line es _ m'' hes.2

theorem block_succ (ss : List Stmt) (last : Value) (hss : stmtsLoopSafe false ss = true) :
    (execAll site (n + 1) ss last m).1.Stays := by
  cases ss with
  | nil => exact nofun
  | cons t ts =>
    simp only [stmtsLoopSafe, Bool.and_eq_true] at hss
    exact stays_bind (h.stmt site t m hss.1) fun v m' _ => h.block site ts v m' hss.2

theorem stmt_succ (t : Stmt) (ht : t.isLoopSafe false = true) :
    (exec site (n + 1) t m).1.Stays := by
  cases t with
  | expr e line => exact h.expr site e m ht
  | bind x e line => exact stays_bind (h.expr site e m ht) fun _ _ _ _ hc => by cases hc
  | rebind x e line =>
    refine stays_bind (h.expr site e m ht) fun v m' _ => stays_bind ?_ fun found m'' _ => ?_
    · simp only [rebindName]
      split <;> exact fun _ hc => by cases hc
    · cases found <;> exact fun _ hc => by cases hc
  | giveBack e line =>
    cases e with
    | none => exact fun _ hc => by cases hc
    | some e => exact stays_bind (h.expr site e m ht) fun _ _ _ _ hc => by cases hc
  | load name line =>
    have hload := load_stays site n name m
    simp only [exec]
    split
    · exact fun _ hc => by cases hc
    · exact fun _ hc => by cases hc
    · rename_i s m' hf heq
      rw [heq] at hload
      intro c hc
      cases hc
      exact hload c rfl
    · exact fun _ hc => by cases hc
    · exact fun _ hc => by cases hc
  | leave line | again line => cases ht
  | foreign node => exact fun _ hc => by cases hc

end Contained

theorem contained (n : Nat) : Contained n := by
  induction n with
  | zero => exact ⟨nofun, nofun, nofun, nofun, nofun⟩
  | succ n ih =>
    exact ⟨fun _ e _ => ih.expr_succ e, fun _ es _ => ih.all_succ es,
      fun _ line es done _ => ih.entries_succ line es done,
      fun _ ss last _ => ih.block_succ ss last, fun _ t _ => ih.stmt_succ t⟩

/-! ### Whole runs -/

/-- All code is safe, and that of functions is so on its own. -/
def Guard.loopSafe : Guard where
  state _ := True
  place _ _ := True
  own _ := True
  region _ := True
  node _ v := ∀ f, v = .function f → stmtsLoopSafe false f.body = true
  expr _ _ e := ∃ inLoop, e.isLoopSafe inLoop = true
  stmt _ _ t := ∃ inLoop, t.isLoopSafe inLoop = true
  node_of_isData h f hf := by
    subst hf
    cases h
  node_of_grows _ h := h
  place_of_grows _ h := h
  expr_of_grows _ h := h
  stmt_of_grows _ h := h
  region_of_mem_chain _ _ := trivial
  expr_part := fun ⟨inLoop, h⟩ hd => ⟨inLoop, Expr.isLoopSafe_part h hd⟩
  expr_block := fun ⟨_, h⟩ hb ht => Expr.isLoopSafe_block h hb ht
  stmt_part := fun ⟨inLoop, h⟩ he => ⟨inLoop, Stmt.isLoopSafe_part h he⟩
  stmt_inner h _ _ := h
  closure := fun _ ⟨_, h⟩ _ f hf => by
    cases hf
    exact h
  place_of_closure _ := trivial
  stmt_of_closure h ht := ⟨false, stmtsLoopSafe_iff.mp (h _ rfl) _ ht⟩
  state_push _ _ _ := trivial
  place_push _ _ := trivial
  own_size _ := trivial
  state_bind _ _ _ := trivial
  state_rebind _ _ _ := trivial

theorem LoopSafeText.admits {source : String} (h : LoopSafeText source) :
    Guard.loopSafe.Admits source :=
  fun _ read clean ht => ⟨false, stmtsLoopSafe_iff.mp (h _ read clean) _ ht⟩

/-- The check has been made of all the code that a job is going to run. -/
structure Checked (n : Nat) (j : Job) : Prop where
  pre : Guard.loopSafe.Pre j
  texts : ∀ source, j.Loads n source → LoopSafeText source
  program : ∀ ss last, j.task = .program ss last → stmtsLoopSafe false ss = true

namespace Checked

variable {n n' : Nat} {j j' : Job}

theorem starts (h : Checked (n + 1) j) (hs : Starts n j j') : Checked n j' where
  pre := by
    have ready : Guard.loopSafe.Ready (n + 1) j :=
      ⟨h.pre, fun source hl => (h.texts source hl).admits⟩
    exact ((Guard.loopSafe.guarded_ready n).starts hs ready).toPre
  texts source hl := h.texts source (hl.step hs)
  program ss last htask := by
    cases hs <;> cases htask
    case run read clean unused =>
      exact h.texts _ ⟨_, _, _, _, _, _, .refl _ _, unused⟩ _ read clean
    case onward done =>
      have hsafe := h.program _ _ rfl
      simp only [stmtsLoopSafe, Bool.and_eq_true] at hsafe
      exact hsafe.2

theorem nested (h : Checked n j) (hn : Nested n j n' j') : Checked n' j' := by
  induction hn with
  | refl => exact h
  | step hs _ ih => exact ih (h.starts hs)

theorem start {site : Site} {program : Program} {world : World}
    (safe : program.isLoopSafe = true)
    (libraries : ∀ source, Job.Loads n ⟨site, .program program .null, .start world⟩ source →
      LoopSafeText source) : Checked n ⟨site, .program program .null, .start world⟩ where
  pre := by
    have empty : Guard.loopSafe.Inv ⟨.empty, 0, 0, [], world⟩ :=
      ⟨trivial, trivial, fun _ _ _ hp => nomatch hp⟩
    have roots : Guard.loopSafe.Inv (Machine.beginLibrary ⟨.empty, 0, 0, [], world⟩ "" []) :=
      empty.beginLibrary fun _ hp => nomatch hp
    exact ⟨⟨trivial, trivial, roots.held⟩, trivial,
      fun t ht => ⟨false, stmtsLoopSafe_iff.mp safe t ht⟩, Guard.held_of_data Value.madeOf_null⟩
  texts := libraries
  program ss last htask := by
    cases htask
    exact safe

/-- Whatever fails in the course of a job that was checked, it is not for a loop. -/
theorem isOrdinary {fault : Fault} (h : Checked n j) (hs : j.Stops n (.fault fault)) :
    fault.cause.isOrdinary = true := by
  induction n generalizing j fault with
  | zero => exact absurd hs Job.not_stops_zero
  | succ n ih =>
    have hblames := hs.blames
    generalize fault.cause = cause at hblames
    cases hblames with
    | ordinary hc => exact hc
    | started starts stops => exact ih (h.starts starts) stops
    | call arity leaves =>
      have hbody := h.pre.allowed.1 _ (.refl _) _ rfl
      exact absurd leaves ((contained n).block _ _ _ _ hbody _)
    | program leaves =>
      have hsafe := h.program _ _ rfl
      simp only [stmtsLoopSafe, Bool.and_eq_true] at hsafe
      exact absurd leaves ((contained n).stmt _ _ _ hsafe.1 _)

end Checked

/-- A text that starts otherwise than the words for leaving and for repeating a loop. -/
def Text.StartsOtherwise (s : String) : Prop := s.toList.head? ∉ [none, some 'b', some 'c']

instance (s : String) : Decidable (Text.StartsOtherwise s) :=
  inferInstanceAs (Decidable (s.toList.head? ∉ [none, some 'b', some 'c']))

theorem Text.StartsOtherwise.append {s : String} (h : StartsOtherwise s) (t : String) :
    StartsOtherwise (s ++ t) := by
  cases hs : s.toList.head? with
  | none => exact absurd (by simp [hs]) h
  | some x =>
    rw [StartsOtherwise, String.toList_append, List.head?_append, hs, Option.some_or]
    rwa [StartsOtherwise, hs] at h

theorem Cause.message_startsOtherwise {cause : Cause} (h : cause.isOrdinary = true) :
    Text.StartsOtherwise cause.message := by
  cases cause with
  | strayControl c | host message => cases h
  | argument position wanted got =>
    have hp : Text.StartsOtherwise position.word := by cases position <;> decide
    exact (((hp.append _).append _).append _).append _
  | badLibrary name errors =>
    have hlib : Text.StartsOtherwise ("Could not load lib: " ++ name) :=
      .append (by decide) _
    have hlines : (badLibrary name errors).message =
        "\n".intercalate (("Could not load lib: " ++ name) :: errors.map ("\t" ++ ·.message)) := rfl
    rw [hlines]
    cases errors with
    | nil =>
      rw [List.map_nil, String.intercalate_singleton]
      exact hlib
    | cons e errors =>
      rw [List.map_cons, String.intercalate_cons_cons]
      exact (hlib.append _).append _
  | endlessBounds | emptyChoice => decide
  | unboundName name | unusableKey key | notIndexed c | notFunction f | unknownLibrary name
  | noLength v | endlessNap x => exact .append (by decide) _
  | unknownUnary op v | recursiveInclude path => exact .append (.append (by decide) _) _
  | callArity expected given | cannotOpen path fault | cannotWrite path fault
  | emptyRange low high => exact .append (.append (.append (by decide) _) _) _
  | badPosition c i | argumentCount got expected | argumentsMissing got least =>
    exact .append (.append (.append (.append (by decide) _) _) _) _
  | typeMismatch l op r | unknownBinary l op r =>
    exact .append (.append (.append (.append (.append (by decide) _) _) _) _) _

/-- The message for a loop that is missing is no other cause's. -/
theorem Cause.message_ne_of_isOrdinary {cause : Cause} (h : cause.isOrdinary = true)
    (c : Control) : cause.message ≠ (Cause.strayControl c).message := by
  intro heq
  have hstart := message_startsOtherwise h
  rw [heq] at hstart
  apply hstart
  cases c <;> decide

/-! ### A library with a loop -/

def loopingLibrary : String := "loop\x7bbreak;\x7d"

def userOfLoop : Program := [.load "lib" 1, .expr (.ident "x" 2) 2]

theorem ofSource_loopingLibrary :
    Parsed.ofSource (String.ofList (Text.unifyNewlines loopingLibrary.toList)) =
      .ok ⟨[.expr (.loop [.leave 1] 1) 1], []⟩ := by decide +kernel

theorem not_loads_loop {n : Nat} {site : Site} {m : Machine} {source : String} :
    ¬ Job.Loads n ⟨site, .program [.expr (.loop [.leave 1] 1) 1] .null, m⟩ source := by
  intro h
  obtain ⟨n, _, rfl, hs, h⟩ := h.starts nofun
  cases hs with
  | onward done =>
    obtain ⟨n, _, rfl, hs, h⟩ := h.starts nofun
    cases hs
  | opening =>
    obtain ⟨n, _, rfl, hs, h⟩ := h.starts nofun
    cases hs
    obtain ⟨n, _, rfl, hs, h⟩ := h.starts nofun
    cases hs
    obtain ⟨n, _, rfl, hs, h⟩ := h.starts nofun
    cases hs with
    | round =>
      obtain ⟨n, _, rfl, hs, h⟩ := h.starts nofun
      cases hs with
      | next done => rcases n with _ | n <;> cases done
      | first =>
        obtain ⟨n, _, rfl, hs, h⟩ := h.starts nofun
        cases hs
    | again done goesOn =>
      rcases n with _ | _ | n <;> cases done <;> rcases goesOn with ⟨v, hv⟩ | hv <;> cases hv

theorem source_of_userOfLoop {n : Nat} {source : String}
    (h : Job.Loads n ⟨⟨"main", "/"⟩, .program userOfLoop .null,
      .start (.start (.ofText loopingLibrary) [])⟩ source) :
    source = String.ofList (Text.unifyNewlines loopingLibrary.toList) := by
  have hplan :=
    Machine.plan_ofText (m := .start (.start (.ofText loopingLibrary) [])) "main" rfl rfl
  obtain ⟨n, _, rfl, hs, h⟩ := h.starts nofun
  cases hs with
  | onward done =>
    obtain ⟨n, _, rfl, hs, h⟩ := h.starts nofun
    cases hs with
    | onward done =>
      obtain ⟨n, _, rfl, hs, h⟩ := h.starts nofun
      cases hs
    | opening =>
      obtain ⟨n, _, rfl, hs, h⟩ := h.starts nofun
      cases hs
      obtain ⟨n, _, rfl, hs, h⟩ := h.starts nofun
      cases hs
  | opening =>
    obtain ⟨n, _, rfl, hs, h⟩ := h.starts nofun
    cases hs
    obtain ⟨n, _, rfl, hs, h⟩ := h.starts nofun
    cases hs with
    | text plan =>
      cases hplan.symm.trans plan
      obtain ⟨n', site, key, name, natives, m, hn, hkey⟩ := h
      cases hn with
      | refl => rfl
      | step hs hn =>
        cases hs with
        | run read clean unused =>
          cases ofSource_loopingLibrary.symm.trans read
          exact absurd ⟨n', site, key, name, natives, m, hn, hkey⟩ not_loads_loop

theorem runProgram_userOfLoop :
    (runProgram ⟨"main", "/"⟩ 12 userOfLoop .null
        (.start (.start (.ofText loopingLibrary) []))).1 =
      .signal (.failed ⟨.unboundName "x", some 2, some "main"⟩) := by
  have hplan :=
    Machine.plan_ofText (m := .start (.start (.ofText loopingLibrary) [])) "main" rfl rfl
  simp only [userOfLoop, runProgram, exec, load, hplan, runLibrary, ofSource_loopingLibrary]
  rfl

/-- A program that leaves and repeats only its own loops never finds that a loop is missing, at
any depth, if the same holds of every library it loads. -/
theorem loops_are_never_missing {site : Site} {n n' : Nat} {program : Program} {world : World}
    {j : Job} {fault : Fault} (safe : program.isLoopSafe = true)
    (libraries : ∀ source, Job.Loads n ⟨site, .program program .null, .start world⟩ source →
      LoopSafeText source)
    (nested : Nested n ⟨site, .program program .null, .start world⟩ n' j)
    (stops : j.Stops n' (.fault fault)) :
    fault.message ≠ "break outside of loop" ∧ fault.message ≠ "continue outside of loop" := by
  have hc := ((Checked.start safe libraries).nested nested).isOrdinary stops
  exact ⟨Cause.message_ne_of_isOrdinary hc .leave, Cause.message_ne_of_isOrdinary hc .again⟩

theorem loops_are_never_missing_beside_a_library :
    let root : Job := ⟨⟨"main", "/"⟩, .program userOfLoop .null,
      .start (.start (.ofText loopingLibrary) [])⟩
    let fault : Fault := ⟨.unboundName "x", some 2, some "main"⟩
    (∀ source, root.Loads 12 source → LoopSafeText source) ∧ root.Stops 12 (.fault fault) ∧
      fault.message ≠ "break outside of loop" ∧ fault.message ≠ "continue outside of loop" := by
  intro root fault
  have libraries : ∀ source, root.Loads 12 source → LoopSafeText source := by
    intro source hl parsed read clean
    rw [source_of_userOfLoop hl] at read
    cases ofSource_loopingLibrary.symm.trans read
    rfl
  have stops : root.Stops 12 (.fault fault) := by
    rw [Job.Stops, runProgram_userOfLoop]
    exact .fault fault
  exact ⟨libraries, stops, loops_are_never_missing rfl libraries (.refl _ _) stops⟩

/-- A function that leaves the loop it is called in. -/
example : (runProgram ⟨"main", "/"⟩ 12
    [.expr (.loop [.expr (.call (.function [] [.leave 1] 1) [] 1) 1] 1) 1] .null
    (.start (.start ⟨[], []⟩ []))).1 =
      .signal (.failed ⟨.strayControl .leave, some 1, some "main"⟩) := rfl

end MeowLang
