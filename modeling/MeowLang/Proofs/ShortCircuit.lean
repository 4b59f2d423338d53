import MeowLang.Proofs.Evaluation.Bound

/-! Constructs stop at the first signal. The parts of a construct are evaluated in order, each in
the state that the one before it leaves, and the first of them that gives a signal is the last one
that is evaluated: the construct gives the signal on and ends in the state that the part has left,
whatever stands behind it. -/
namespace MeowLang

/-! ### Parts -/

/-- A part of a construct. Some parts ask something of their value before the part behind them is
evaluated. -/
inductive Part where
  | operand (e : Expr)
  /-- The value has to be usable as a key. -/
  | key (e : Expr)
  /-- The value has to choose the branch behind it. -/
  | test (e : Expr) (holds : Bool)
  | branch (ss : List Stmt)
  | stmt (s : Stmt)

namespace Part

def eval (site : Site) (n : Nat) : Part → Eval Value
  | operand e | key e | test e _ => evalExpr site n e
  | branch ss => Eval.nested (execAll site n ss .null)
  | stmt s => exec site n s

/-- The evaluation goes on to the next part with this value. -/
def goesOn : Part → Value → Bool
  | key _, v => v.key?.isSome
  | test _ holds, v => v.isTruthy == holds
  | _, _ => true

/-- What a part comes to with some bound, it comes to. -/
theorem settles {site : Site} {n : Nat} {p : Part} {m m' : Machine} {r : Outcome Value}
    (h : p.eval site n m = (r, m')) (hr : r ≠ .exhausted) :
    Settles (fun n => p.eval site n m) (r, m') := by
  refine settles_of_extends (fun n => ?_) h hr
  cases p with
  | operand e => exact (suffices_all n).expr site e
  | key e => exact (suffices_all n).expr site e
  | test e holds => exact (suffices_all n).expr site e
  | branch ss => exact ((suffices_all n).block site ss .null).nested
  | stmt s => exact (suffices_all n).stmt site s

end Part

/-- Parts that are evaluated one after the other from `m` to `m'`, each with some bound, and that
all have values with which the evaluation goes on. -/
inductive Threads (site : Site) : List Part → Machine → Machine → Prop
  | nil (m : Machine) : Threads site [] m m
  | cons {p : Part} {ps : List Part} {n : Nat} {v : Value} {m m' m'' : Machine}
      (done : p.eval site n m = (.value v, m')) (goesOn : p.goesOn v = true)
      (rest : Threads site ps m' m'') : Threads site (p :: ps) m m''

/-! ### Constructs -/

/-- A construct whose parts are evaluated in order. -/
inductive Construct where
  | expr (e : Expr)
  /-- Statements in a new scope. -/
  | block (scope : Scope) (ss : List Stmt)
  | program (ss : List Stmt)

namespace Construct

def eval (site : Site) (n : Nat) : Construct → Eval Value
  | expr e => evalExpr site n e
  | block scope ss => Eval.within scope (execAll site n ss .null)
  | program ss => runProgram site n ss .null

/-- The parts of a construct in the order of their evaluation. Which parts a condition has depends
on what its test comes to. -/
inductive HasParts : Construct → List Part → Prop
  | unary {op : Op} {e : Expr} {line : Int} :
      HasParts (.expr (.prefixed op e line)) [.operand e]
  | binary {op : Op} {l r : Expr} {line : Int} :
      HasParts (.expr (.between op l r line)) [.operand l, .operand r]
  | call {callee : Expr} {args : List Expr} {line : Int} :
      HasParts (.expr (.call callee args line)) (.operand callee :: args.map .operand)
  | array {items : List Expr} {line : Int} :
      HasParts (.expr (.array items line)) (items.map .operand)
  | object {entries : List (Expr × Expr)} {line : Int} :
      HasParts (.expr (.object entries line))
        (entries.flatMap fun entry => [.key entry.1, .operand entry.2])
  | index {collection position : Expr} {line : Int} :
      HasParts (.expr (.index collection position line)) [.operand collection, .operand position]
  | yes {test : Expr} {yes : List Stmt} {no : Option (List Stmt)} {line : Int} :
      HasParts (.expr (.cond test yes no line)) [.test test true, .branch yes]
  | no {test : Expr} {yes no : List Stmt} {line : Int} :
      HasParts (.expr (.cond test yes (some no) line)) [.test test false, .branch no]
  | block {scope : Scope} {ss : List Stmt} : HasParts (.block scope ss) (ss.map .stmt)
  | program {ss : List Stmt} : HasParts (.program ss) (ss.map .stmt)

/-- The state in which the first part is evaluated. -/
def enter : Construct → Machine → Machine
  | block scope _, m => m.enter scope
  | _, m => m

/-- The state after the last part, seen from the state before the construct. -/
def leave : Construct → Machine → Machine → Machine
  | block _ _, m, m' => { m' with current := m.current }
  | _, _, m' => m'

/-- What a construct makes of a signal from one of its parts. A program ends with the value that is
returned, and it has no loop that could be left. -/
def answer (site : Site) : Construct → Part → Signal → Outcome Value
  | program _, _, .returned v => .value v
  | program _, .stmt s, .control c =>
    .signal (.failed ⟨.strayControl c, some s.line, some site.file⟩)
  | _, _, g => .signal g

end Construct

/-! ### The evaluations of several parts -/

section
variable {site : Site} {before after : List Part} {p : Part} {g : Signal} {m m' m'' : Machine}

theorem settles_all_signal {es : List Expr} (hparts : es.map .operand = before ++ p :: after)
    (hbefore : Threads site before m m')
    (hp : Settles (fun n => p.eval site n m') (.signal g, m'')) :
    Settles (fun n => evalAll site n es m) (.signal g, m'') := by
  induction hbefore generalizing es with
  | nil m =>
    obtain _ | ⟨e, es⟩ := es
    · cases hparts
    · cases hparts
      exact .succ hp.bind_signal
  | cons done goesOn rest ih =>
    obtain _ | ⟨e, es⟩ := es
    · cases hparts
    · obtain ⟨rfl, hrest⟩ := List.cons.inj hparts
      exact .succ ((Part.settles done (by simp)).bind (ih hrest hp).bind_signal)

/-- Two expressions, and something that is done with their values. -/
theorem settles_two_signal {l r : Expr} {f : Value → Value → Eval Value}
    (hparts : [.operand l, .operand r] = before ++ p :: after)
    (hbefore : Threads site before m m')
    (hp : Settles (fun n => p.eval site n m') (.signal g, m'')) :
    Settles (fun n => (do
      let a ← evalExpr site n l
      let b ← evalExpr site n r
      f a b : Eval Value) m) (.signal g, m'') := by
  cases hbefore with
  | nil =>
    cases hparts
    exact hp.bind_signal
  | cons done _ rest =>
    obtain ⟨rfl, hrest⟩ := List.cons.inj hparts
    refine (Part.settles done (by simp)).bind ?_
    cases rest with
    | nil =>
      cases hrest
      exact hp.bind_signal
    | cons _ _ rest => cases rest <;> cases hrest

/-- Keys and values alternate. -/
theorem settles_entries_signal {entries : List (Expr × Expr)} {line : Int}
    {done : List (Key × Value)}
    (hparts : (entries.flatMap fun entry => [Part.key entry.1, .operand entry.2]) =
      before ++ p :: after)
    (hbefore : Threads site before m m')
    (hp : Settles (fun n => p.eval site n m') (.signal g, m'')) :
    Settles (fun n => evalEntries site n line entries done m) (.signal g, m'') := by
  induction entries generalizing before m done with
  | nil => cases before <;> cases hparts
  | cons entry entries ih =>
    rw [List.flatMap_cons] at hparts
    cases hbefore with
    | nil =>
      cases hparts
      exact .succ hp.bind_signal
    | cons keyed goesOn rest =>
      obtain ⟨rfl, hrest⟩ := List.cons.inj hparts
      refine .succ ((Part.settles keyed (by simp)).bind ?_)
      obtain ⟨k, hk⟩ := Option.isSome_iff_exists.mp goesOn
      simp only [hk]
      cases rest with
      | nil =>
        cases hrest
        exact hp.bind_signal
      | cons valued _ rest =>
        obtain ⟨rfl, htail⟩ := List.cons.inj hrest
        exact (Part.settles valued (by simp)).bind (ih htail rest)

theorem settles_block_signal {ss : List Stmt} {last : Value}
    (hparts : ss.map .stmt = before ++ p :: after) (hbefore : Threads site before m m')
    (hp : Settles (fun n => p.eval site n m') (.signal g, m'')) :
    Settles (fun n => execAll site n ss last m) (.signal g, m'') := by
  induction hbefore generalizing ss last with
  | nil m =>
    obtain _ | ⟨s, ss⟩ := ss
    · cases hparts
    · cases hparts
      exact .succ hp.bind_signal
  | cons done goesOn rest ih =>
    obtain _ | ⟨s, ss⟩ := ss
    · cases hparts
    · obtain ⟨rfl, hrest⟩ := List.cons.inj hparts
      exact settles_block_cons (Part.settles done (by simp)) (ih hrest hp)

theorem settles_program_signal {program ss : List Stmt} {last : Value}
    (hparts : ss.map .stmt = before ++ p :: after) (hbefore : Threads site before m m')
    (hp : Settles (fun n => p.eval site n m') (.signal g, m'')) :
    Settles (fun n => runProgram site n ss last m)
      ((Construct.program program).answer site p g, m'') := by
  induction hbefore generalizing ss last with
  | nil m =>
    obtain _ | ⟨s, ss⟩ := ss
    · cases hparts
    · cases hparts
      refine hp.last fun n hn => ?_
      have hs : exec site n s m = (.signal g, m'') := hn
      rw [runProgram_cons, hs]
      cases g <;> rfl
  | @cons _ _ _ v m m₁ _ done goesOn rest ih =>
    obtain _ | ⟨s, ss⟩ := ss
    · cases hparts
    · obtain ⟨rfl, hrest⟩ := List.cons.inj hparts
      refine (Part.settles done (by simp)).step (g := fun n => runProgram site n ss v m₁)
        (fun n hn => ?_) (ih hrest hp)
      have hs : exec site n s m = (.value v, m₁) := hn
      rw [runProgram_cons, hs]

/-- A condition and the branch that its test chooses. -/
theorem settles_cond_signal {test : Expr} {yes ss : List Stmt} {no : Option (List Stmt)}
    {holds : Bool} {line : Int} (hchosen : (if holds then some yes else no) = some ss)
    (hparts : [.test test holds, .branch ss] = before ++ p :: after)
    (hbefore : Threads site before m m')
    (hp : Settles (fun n => p.eval site n m') (.signal g, m'')) :
    Settles (fun n => evalExpr site n (.cond test yes no line) m) (.signal g, m'') := by
  cases hbefore with
  | nil =>
    cases hparts
    exact .succ hp.bind_signal
  | cons done goesOn rest =>
    obtain ⟨rfl, hrest⟩ := List.cons.inj hparts
    refine .succ ((Part.settles done (by simp)).bind ?_)
    have htest := beq_iff_eq.mp goesOn
    cases rest with
    | nil =>
      cases hrest
      cases holds with
      | true =>
        cases hchosen
        simp only [htest, if_true]
        exact hp
      | false =>
        simp only [Bool.false_eq_true, if_false] at hchosen
        simp only [htest, Bool.false_eq_true, if_false, hchosen]
        exact hp
    | cons _ _ rest => cases rest <;> cases hrest

end

/-! ### The first signal -/

/-- The step from the parts to each construct. -/
theorem settles_first_signal {site : Site} {c : Construct} {before after : List Part}
    {p : Part} {g : Signal} {m m' m'' : Machine}
    (hparts : c.HasParts (before ++ p :: after)) (hbefore : Threads site before (c.enter m) m')
    (hp : Settles (fun n => p.eval site n m') (.signal g, m'')) :
    Settles (fun n => c.eval site n m) (c.answer site p g, c.leave m m'') := by
  generalize hps : before ++ p :: after = ps at hparts
  cases hparts with
  | unary =>
    cases hbefore with
    | nil =>
      cases hps
      exact .succ hp.bind_signal
    | cons _ _ rest => cases rest <;> cases hps
  | binary => exact .succ (settles_two_signal hps.symm hbefore hp)
  | call =>
    cases hbefore with
    | nil =>
      cases hps
      exact .succ hp.bind_signal
    | cons done _ rest =>
      obtain ⟨rfl, hrest⟩ := List.cons.inj hps
      exact .succ ((Part.settles done (by simp)).bind
        (settles_all_signal hrest.symm rest hp).bind_signal)
  | array => exact .succ (settles_all_signal hps.symm hbefore hp).bind_signal
  | object => exact .succ (settles_entries_signal hps.symm hbefore hp).bind_signal
  | index => exact .succ (settles_two_signal hps.symm hbefore hp)
  | yes => exact settles_cond_signal rfl hps.symm hbefore hp
  | no => exact settles_cond_signal rfl hps.symm hbefore hp
  | block => exact (settles_block_signal hps.symm hbefore hp).within
  | program => exact settles_program_signal hps.symm hbefore hp

/-- For every construct with parts in order: once the parts before it have been evaluated from left
to right, each to a value with which the evaluation goes on, the first part that gives a signal is
the last one that is evaluated, whatever the parts behind it are. The construct ends in the state
that this part leaves, back in the scope it began in unless it is a program, and gives the signal
on. -/
theorem first_signal_ends_the_construct {site : Site} {c : Construct} {before after : List Part}
    {p : Part} {n : Nat} {g : Signal} {m m' m'' : Machine}
    (hparts : c.HasParts (before ++ p :: after)) (hbefore : Threads site before (c.enter m) m')
    (hsignal : p.eval site n m' = (.signal g, m'')) :
    Settles (fun n => c.eval site n m) (c.answer site p g, c.leave m m'') ∧
      ((∀ ss, c ≠ .program ss) → (c.leave m m'').current = m.current) := by
  have hends := settles_first_signal hparts hbefore (Part.settles hsignal (by simp))
  refine ⟨hends, fun hc => ?_⟩
  cases c with
  | expr e =>
    obtain ⟨k, hk⟩ := hends.exists_eq
    have hreturns := (brackets k).expr site e m
    have hfinal : (evalExpr site k e m).2 = m'' := congrArg Prod.snd hk
    rw [hfinal] at hreturns
    exact hreturns.current_eq
  | block scope ss => rfl
  | program ss => exact absurd rfl (hc ss)

/-- A block that gives a name a value, returns it, and would go on with a loop to leave. -/
theorem first_signal_ends_the_construct_in_a_block :
    let site : Site := ⟨"main", "/"⟩
    let m : Machine := .start (.start ⟨[], []⟩ [])
    let scope : Scope := ⟨[], some m.current⟩
    let ss : List Stmt := [.bind "x" (.bool true 1) 1, .giveBack (some (.ident "x" 2)) 2, .leave 3]
    let c : Construct := .block scope ss
    let m' : Machine := { m.enter scope with
      scopes := (m.enter scope).scopes.set m.scopes.size "x" (.bool true) }
    Threads site [.stmt (.bind "x" (.bool true 1) 1)] (c.enter m) m' ∧
      (Part.stmt (.giveBack (some (.ident "x" 2)) 2)).eval site 2 m' =
        (.signal (.returned (.bool true)), m') ∧
      Settles (fun n => c.eval site n m)
        (.signal (.returned (.bool true)), { m' with current := m.current }) := by
  intro site m scope ss c m'
  have hbefore : Threads site [.stmt (.bind "x" (.bool true 1) 1)] (c.enter m) m' :=
    .cons (n := 2) (v := .null) rfl rfl (.nil m')
  have hsignal : (Part.stmt (.giveBack (some (.ident "x" 2)) 2)).eval site 2 m' =
      (.signal (.returned (.bool true)), m') := rfl
  have hparts : c.HasParts ([.stmt (.bind "x" (.bool true 1) 1)] ++
      .stmt (.giveBack (some (.ident "x" 2)) 2) :: [.stmt (.leave 3)]) := .block
  exact ⟨hbefore, hsignal, (first_signal_ends_the_construct hparts hbefore hsignal).1⟩

end MeowLang
