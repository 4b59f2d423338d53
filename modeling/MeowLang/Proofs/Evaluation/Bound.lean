import MeowLang.Proofs.Evaluation.Settle

/-! The bound does not matter. An evaluation that is not exhausted has the same outcome and leaves
the same state with every larger bound, so what it comes to with some bound is what it comes to; and
the evaluations inside one that comes to an end come to an end too. -/
namespace MeowLang

variable {α β : Type}

namespace Eval

/-- Wherever `p` is not exhausted, `q` does the same. -/
def Extends (q p : Eval α) : Prop := ∀ m, (p m).1 ≠ .exhausted → q m = p m

theorem Extends.refl (p : Eval α) : p.Extends p := fun _ _ => rfl

theorem extends_exhausted (q : Eval α) : q.Extends exhausted := fun _ h => absurd rfl h

theorem Extends.eq_of_ne {p q : Eval α} (h : q.Extends p) {m : Machine}
    (hm : ∀ m', p m ≠ (.exhausted, m')) : q m = p m :=
  h m fun hexhausted => hm (p m).2 (Prod.ext hexhausted rfl)

theorem Extends.bind {p q : Eval α} {f g : α → Eval β} (h : q.Extends p)
    (hf : ∀ a, (g a).Extends (f a)) : Extends (q >>= g) (p >>= f) := by
  intro m hm
  rw [bind_apply] at hm ⊢
  rw [bind_apply]
  rw [h.eq_of_ne fun m' hp => hm (by rw [hp])]
  split at hm
  · exact hf _ _ hm
  all_goals rfl

theorem Extends.within {p q : Eval α} (h : q.Extends p) (scope : Scope) :
    Extends (within scope q) (within scope p) := by
  intro m hm
  have hp : q (m.enter scope) = p (m.enter scope) := h (m.enter scope) hm
  exact congrArg (fun z => (z.1, { z.2 with current := m.current })) hp

theorem Extends.nested {p q : Eval α} (h : q.Extends p) : Extends (nested q) (nested p) :=
  fun m hm => h.within ⟨[], some m.current⟩ m hm

end Eval

open Eval

theorem evalExpr_kindOf (site : Site) (n : Nat) (operand : Expr) (line : Int) (m : Machine) :
    evalExpr site (n + 1) (.kindOf operand line) m =
      match evalExpr site n operand m with
      | (.value v, m) => (.value (.string v.kind.name), m)
      | (.signal (.failed _), m) => (.value (.string ValueKind.undefined.name), m)
      | r => r := rfl

theorem repeatLoop_succ (site : Site) (n : Nat) (body : List Stmt) (m : Machine) :
    repeatLoop site (n + 1) body m =
      match Eval.nested (execAll site n body .null) m with
      | (.value _, m) => repeatLoop site n body m
      | (.signal (.control .again), m) => repeatLoop site n body m
      | (.signal (.control .leave), m) => (.value .null, m)
      | r => r := rfl

theorem runProgram_cons (site : Site) (n : Nat) (s : Stmt) (rest : List Stmt) (last : Value)
    (m : Machine) :
    runProgram site (n + 1) (s :: rest) last m =
      match exec site n s m with
      | (.value v, m) => runProgram site n rest v m
      | (.signal (.returned v), m) => (.value v, m)
      | (.signal (.control c), m) => Eval.fail site s.line (.strayControl c) m
      | r => r := rfl

/-- One more than `n` is as good a bound as `n`, wherever `n` suffices. -/
structure Suffices (n : Nat) : Prop where
  expr : ∀ site e, (evalExpr site (n + 1) e).Extends (evalExpr site n e)
  all : ∀ site es, (evalAll site (n + 1) es).Extends (evalAll site n es)
  entries : ∀ site line es done,
    (evalEntries site (n + 1) line es done).Extends (evalEntries site n line es done)
  loop : ∀ site body, (repeatLoop site (n + 1) body).Extends (repeatLoop site n body)
  call : ∀ site f args line, (apply site (n + 1) f args line).Extends (apply site n f args line)
  block : ∀ site ss last, (execAll site (n + 1) ss last).Extends (execAll site n ss last)
  stmt : ∀ site s, (exec site (n + 1) s).Extends (exec site n s)
  library : ∀ site name, (load site (n + 1) name).Extends (load site n name)
  text : ∀ site key name source natives,
    (runLibrary site (n + 1) key name source natives).Extends
      (runLibrary site n key name source natives)
  program : ∀ site ss last, (runProgram site (n + 1) ss last).Extends (runProgram site n ss last)

namespace Suffices

variable {n : Nat} (h : Suffices n) (site : Site)

include h

theorem expr_succ (e : Expr) :
    (evalExpr site (n + 2) e).Extends (evalExpr site (n + 1) e) := by
  cases e with
  | number x line => exact .refl _
  | string s line => exact .refl _
  | bool b line => exact .refl _
  | ident name line => exact .refl _
  | array items line => exact (h.all site items).bind fun _ => .refl _
  | object entries line => exact (h.entries site line entries []).bind fun _ => .refl _
  | prefixed op operand line => exact (h.expr site operand).bind fun _ => .refl _
  | between op left right line =>
    exact (h.expr site left).bind fun _ => (h.expr site right).bind fun _ => .refl _
  | cond test yes no line =>
    refine (h.expr site test).bind fun c => ?_
    split
    · exact (h.block site yes .null).nested
    · cases no with
      | some no => exact (h.block site no .null).nested
      | none => exact .refl _
  | function params body line => exact .refl _
  | call callee args line =>
    exact (h.expr site callee).bind fun f =>
      (h.all site args).bind fun args => h.call site f args line
  | index collection position line =>
    exact (h.expr site collection).bind fun _ => (h.expr site position).bind fun _ => .refl _
  | kindOf operand line =>
    intro m hm
    rw [evalExpr_kindOf] at hm ⊢
    rw [evalExpr_kindOf]
    rw [(h.expr site operand).eq_of_ne fun m' hp => hm (by rw [hp])]
  | loop body line => exact h.loop site body
  | foreign node => exact .refl _

theorem all_succ (es : List Expr) :
    (evalAll site (n + 2) es).Extends (evalAll site (n + 1) es) := by
  cases es with
  | nil => exact .refl _
  | cons e rest => exact (h.expr site e).bind fun _ => (h.all site rest).bind fun _ => .refl _

theorem entries_succ (line : Int) (es : List (Expr × Expr)) (done : List (Key × Value)) :
    (evalEntries site (n + 2) line es done).Extends (evalEntries site (n + 1) line es done) := by
  cases es with
  | nil => exact .refl _
  | cons e rest =>
    refine (h.expr site e.1).bind fun k => ?_
    cases k.key? with
    | none => exact .refl _
    | some k => exact (h.expr site e.2).bind fun v => h.entries site line rest _

theorem loop_succ (body : List Stmt) :
    (repeatLoop site (n + 2) body).Extends (repeatLoop site (n + 1) body) := by
  intro m hm
  rw [repeatLoop_succ] at hm ⊢
  rw [repeatLoop_succ]
  rw [(h.block site body .null).nested.eq_of_ne fun m' hp => hm (by rw [hp])]
  split at hm
  · exact h.loop site body _ hm
  · exact h.loop site body _ hm
  all_goals rfl

theorem call_succ (f : Value) (args : List Value) (line : Int) :
    (apply site (n + 2) f args line).Extends (apply site (n + 1) f args line) := by
  cases f with
  | function f =>
    intro m hm
    by_cases hlen : args.length = f.params.length
    · rw [apply_function_of_eq _ _ _ _ _ _ hlen] at hm ⊢
      rw [apply_function_of_eq _ _ _ _ _ _ hlen]
      have hbody := (h.block site f.body .null).within
        ⟨Assoc.insertAll (f.params.zip args) [], some f.scope⟩
      rw [hbody.eq_of_ne fun m' hp => hm (by rw [hp])]
    · rw [apply_function_of_ne _ _ _ _ _ _ hlen, apply_function_of_ne _ _ _ _ _ _ hlen]
  | _ => exact .refl _

theorem block_succ (ss : List Stmt) (last : Value) :
    (execAll site (n + 2) ss last).Extends (execAll site (n + 1) ss last) := by
  cases ss with
  | nil => exact .refl _
  | cons s rest => exact (h.stmt site s).bind fun v => h.block site rest v

theorem stmt_succ (s : Stmt) : (exec site (n + 2) s).Extends (exec site (n + 1) s) := by
  cases s with
  | expr e line => exact h.expr site e
  | bind name e line => exact (h.expr site e).bind fun _ => .refl _
  | rebind name e line => exact (h.expr site e).bind fun _ => .refl _
  | giveBack e line =>
    cases e with
    | none => exact .refl _
    | some e => exact (h.expr site e).bind fun _ => .refl _
  | load name line =>
    intro m hm
    simp only [exec] at hm ⊢
    rw [(h.library site name).eq_of_ne fun m' hp => hm (by rw [hp])]
  | leave line => exact .refl _
  | again line => exact .refl _
  | foreign node => exact .refl _

theorem library_succ (name : String) :
    (load site (n + 2) name).Extends (load site (n + 1) name) := by
  intro m hm
  rw [load_succ] at hm ⊢
  rw [load_succ]
  cases hplan : m.plan site name with
  | fault cause => rfl
  | halt e => rfl
  | hand exports => rfl
  | run key source exports =>
    rw [hplan] at hm
    exact h.text site key name source _ _ hm

theorem text_succ (key name source : String) (natives : List (String × Value)) :
    (runLibrary site (n + 2) key name source natives).Extends
      (runLibrary site (n + 1) key name source natives) := by
  intro m hm
  by_cases hruns : key ∉ m.loading ∧ ∃ parsed, Parsed.ofSource source = .ok parsed ∧
      parsed.errors = []
  · obtain ⟨unused, parsed, read, clean⟩ := hruns
    rw [runLibrary_of_clean site _ name natives read clean unused] at hm ⊢
    rw [runLibrary_of_clean site _ name natives read clean unused]
    have hprogram := h.program { site with file := key } parsed.program .null
    rw [hprogram.eq_of_ne fun m' hp => hm (by rw [hp]; rfl)]
  · -- the text is refused before the bound is looked at
    simp only [runLibrary]
    split
    · rfl
    · rename_i hkey
      split
      · rfl
      · rename_i parsed hread
        split
        · rfl
        · rename_i herrors
          exact absurd ⟨by simpa using hkey, parsed, hread, by simpa using herrors⟩ hruns

theorem program_succ (ss : List Stmt) (last : Value) :
    (runProgram site (n + 2) ss last).Extends (runProgram site (n + 1) ss last) := by
  cases ss with
  | nil => exact .refl _
  | cons s rest =>
    intro m hm
    rw [runProgram_cons] at hm ⊢
    rw [runProgram_cons]
    rw [(h.stmt site s).eq_of_ne fun m' hp => hm (by rw [hp])]
    split at hm
    · exact h.program site rest _ _ hm
    all_goals rfl

end Suffices

theorem suffices_all (n : Nat) : Suffices n := by
  induction n with
  | zero =>
    exact ⟨fun _ _ => extends_exhausted _, fun _ _ => extends_exhausted _,
      fun _ _ _ _ => extends_exhausted _, fun _ _ => extends_exhausted _,
      fun _ _ _ _ => extends_exhausted _, fun _ _ _ => extends_exhausted _,
      fun _ _ => extends_exhausted _, fun _ _ => extends_exhausted _,
      fun _ _ _ _ _ => extends_exhausted _, fun _ _ _ => extends_exhausted _⟩
  | succ n ih =>
    exact ⟨ih.expr_succ, ih.all_succ, ih.entries_succ, ih.loop_succ, ih.call_succ, ih.block_succ,
      ih.stmt_succ, ih.library_succ, ih.text_succ, ih.program_succ⟩

/-- What an evaluation comes to with some bound, it comes to. -/
theorem settles_of_extends {p : Nat → Eval α} (hp : ∀ n, (p (n + 1)).Extends (p n)) {n : Nat}
    {m m' : Machine} {r : Outcome α} (h : p n m = (r, m')) (hr : r ≠ .exhausted) :
    Settles (fun n => p n m) (r, m') := by
  have hadd : ∀ k, p (n + k) m = (r, m') := by
    intro k
    induction k with
    | zero => exact h
    | succ k ih => exact (hp (n + k) m (by rw [ih]; exact hr)).trans ih
  refine ⟨n, fun k hk => ?_⟩
  obtain ⟨d, rfl⟩ := Nat.exists_eq_add_of_le hk
  exact hadd d

theorem eq_of_settles {p : Nat → Eval α} (hp : ∀ n, (p (n + 1)).Extends (p n)) {n : Nat}
    {m : Machine} {z : Outcome α × Machine} (h : Settles (fun n => p n m) z)
    (hn : (p n m).1 ≠ .exhausted) : p n m = z :=
  (settles_of_extends hp rfl hn).unique h

/-! ### Evaluations that come to an end -/

def Job.Ends (n : Nat) : Job → Prop
  | ⟨site, .expr e, m⟩ => (evalExpr site n e m).1 ≠ .exhausted
  | ⟨site, .all es, m⟩ => (evalAll site n es m).1 ≠ .exhausted
  | ⟨site, .entries line es done, m⟩ => (evalEntries site n line es done m).1 ≠ .exhausted
  | ⟨site, .loop body, m⟩ => (repeatLoop site n body m).1 ≠ .exhausted
  | ⟨site, .call callee args line, m⟩ => (apply site n callee args line m).1 ≠ .exhausted
  | ⟨site, .block ss last, m⟩ => (execAll site n ss last m).1 ≠ .exhausted
  | ⟨site, .stmt s, m⟩ => (exec site n s m).1 ≠ .exhausted
  | ⟨site, .library name, m⟩ => (load site n name m).1 ≠ .exhausted
  | ⟨site, .text key name source natives, m⟩ =>
    (runLibrary site n key name source natives m).1 ≠ .exhausted
  | ⟨site, .program ss last, m⟩ => (runProgram site n ss last m).1 ≠ .exhausted

instance (r : Outcome α) : Decidable (r = .exhausted) :=
  match r with
  | .exhausted => isTrue rfl
  | .value _ | .signal _ | .halted _ => isFalse nofun

instance (n : Nat) : (j : Job) → Decidable (j.Ends n)
  | ⟨site, .expr e, m⟩ => inferInstanceAs (Decidable ((evalExpr site n e m).1 ≠ _))
  | ⟨site, .all es, m⟩ => inferInstanceAs (Decidable ((evalAll site n es m).1 ≠ _))
  | ⟨site, .entries line es done, m⟩ =>
    inferInstanceAs (Decidable ((evalEntries site n line es done m).1 ≠ _))
  | ⟨site, .loop body, m⟩ => inferInstanceAs (Decidable ((repeatLoop site n body m).1 ≠ _))
  | ⟨site, .call callee args line, m⟩ =>
    inferInstanceAs (Decidable ((apply site n callee args line m).1 ≠ _))
  | ⟨site, .block ss last, m⟩ => inferInstanceAs (Decidable ((execAll site n ss last m).1 ≠ _))
  | ⟨site, .stmt s, m⟩ => inferInstanceAs (Decidable ((exec site n s m).1 ≠ _))
  | ⟨site, .library name, m⟩ => inferInstanceAs (Decidable ((load site n name m).1 ≠ _))
  | ⟨site, .text key name source natives, m⟩ =>
    inferInstanceAs (Decidable ((runLibrary site n key name source natives m).1 ≠ _))
  | ⟨site, .program ss last, m⟩ => inferInstanceAs (Decidable ((runProgram site n ss last m).1 ≠ _))

section

variable {p : Eval α} {f : α → Eval β} {m m' : Machine} {a : α}

theorem exists_exhausted {z : Outcome α × Machine} (h : z.1 = .exhausted) :
    ∃ m', z = (.exhausted, m') :=
  ⟨z.2, Prod.ext h rfl⟩

theorem Eval.ends_first (h : ((p >>= f) m).1 ≠ .exhausted) : (p m).1 ≠ .exhausted := by
  intro hp
  obtain ⟨m', hp⟩ := exists_exhausted hp
  exact h (by rw [bind_apply, hp])

theorem Eval.ends_next (h : ((p >>= f) m).1 ≠ .exhausted) (hp : p m = (.value a, m')) :
    (f a m').1 ≠ .exhausted := by
  rwa [bind_apply, hp] at h

end

namespace Job.Ends

variable {n n' : Nat} {j j' : Job}

/-- What a job that comes to an end starts comes to an end. -/
theorem starts (h : j.Ends (n + 1)) (hs : Starts n j j') : j'.Ends n := by
  cases hs with
  | items => exact ends_first h
  | entries => exact ends_first h
  | operand => exact ends_first h
  | left => exact ends_first h
  | right done =>
    have hnext := ends_next h done
    exact ends_first hnext
  | test => exact ends_first h
  | yes done holds =>
    have hnext := ends_next h done
    rw [if_pos holds] at hnext
    exact hnext
  | no done fails =>
    have hnext := ends_next h done
    rw [if_neg (by rw [fails]; exact Bool.false_ne_true)] at hnext
    exact hnext
  | callee => exact ends_first h
  | arguments done =>
    have hnext := ends_next h done
    exact ends_first hnext
  | call done done' =>
    have hnext := ends_next h done
    have hcall := ends_next hnext done'
    exact hcall
  | collection => exact ends_first h
  | position done =>
    have hnext := ends_next h done
    exact ends_first hnext
  | @measured site e line m =>
    intro he
    obtain ⟨m', hpart⟩ := exists_exhausted he
    exact h (by rw [evalExpr_kindOf, hpart])
  | loop => exact h
  | head => exact ends_first h
  | tail done =>
    have hnext := ends_next h done
    exact ends_first hnext
  | key => exact ends_first h
  | entry keyed usable =>
    obtain ⟨key, hkey⟩ := Option.isSome_iff_exists.mp usable
    have hnext := ends_next h keyed
    rw [hkey] at hnext
    exact ends_first hnext
  | rest keyed usable valued =>
    have hnext := ends_next h keyed
    rw [usable] at hnext
    have hrest := ends_next hnext valued
    exact hrest
  | @round site body m =>
    intro he
    obtain ⟨m', hround⟩ := exists_exhausted (z := Eval.nested (execAll site n body .null) m) he
    exact h (by rw [repeatLoop_succ, hround])
  | @again site body m r m' done goesOn =>
    have hagain : repeatLoop site (n + 1) body m = repeatLoop site n body m' := by
      rw [repeatLoop_succ, done]
      rcases goesOn with ⟨v, rfl⟩ | rfl <;> rfl
    rw [Job.Ends, hagain] at h
    exact h
  | @body site f args line m arity =>
    intro he
    let scope : Scope := ⟨Assoc.insertAll (f.params.zip args) [], some f.scope⟩
    obtain ⟨m', hbody⟩ :=
      exists_exhausted (z := Eval.within scope (execAll site n f.body .null) m) he
    exact h (by rw [apply_function_of_eq _ _ _ _ _ _ arity, hbody])
  | first => exact ends_first h
  | next done => exact ends_next h done
  | value => exact h
  | bound => exact ends_first h
  | rebound => exact ends_first h
  | given => exact ends_first h
  | @load site name line m =>
    intro he
    obtain ⟨m', hload⟩ := exists_exhausted he
    exact h (by simp only [exec, hload])
  | @text site name m key source exports plan =>
    rw [Job.Ends, load_succ, plan] at h
    exact h
  | @run site key name source natives m parsed read clean unused =>
    intro he
    obtain ⟨m', hrun⟩ := exists_exhausted he
    exact h (by rw [runLibrary_of_clean site _ name natives read clean unused, hrun]; rfl)
  | @opening site s ss last m =>
    intro he
    obtain ⟨m', hfirst⟩ := exists_exhausted he
    exact h (by rw [runProgram_cons, hfirst])
  | onward done =>
    rw [Job.Ends, runProgram_cons, done] at h
    exact h

theorem nested (h : j.Ends n) (hn : Nested n j n' j') : j'.Ends n' := by
  induction hn with
  | refl => exact h
  | step starts _ ih => exact ih (h.starts starts)

theorem succ (h : j.Ends n) : j.Ends (n + 1) := by
  obtain ⟨site, task, m⟩ := j
  have hs := suffices_all n
  cases task with
  | expr e => rwa [Job.Ends, hs.expr site e m h]
  | all es => rwa [Job.Ends, hs.all site es m h]
  | entries line es done => rwa [Job.Ends, hs.entries site line es done m h]
  | loop body => rwa [Job.Ends, hs.loop site body m h]
  | call callee args line => rwa [Job.Ends, hs.call site callee args line m h]
  | block ss last => rwa [Job.Ends, hs.block site ss last m h]
  | stmt s => rwa [Job.Ends, hs.stmt site s m h]
  | library name => rwa [Job.Ends, hs.library site name m h]
  | text key name source natives => rwa [Job.Ends, hs.text site key name source natives m h]
  | program ss last => rwa [Job.Ends, hs.program site ss last m h]

theorem mono (h : j.Ends n) (hle : n ≤ n') : j.Ends n' := by
  induction hle with
  | refl => exact h
  | step _ ih => exact ih.succ

/-- The evaluations inside one that comes to an end do so too. -/
theorem evaluates (h : j.Ends n) (hj : j.Evaluates j') : ∃ k, j'.Ends k := by
  obtain ⟨depth, k, hk⟩ := hj
  have hlarge : n ≤ max n k + depth := by omega
  exact ⟨max n k, (h.mono hlarge).nested (hk _ (Nat.le_max_right n k))⟩

end Job.Ends

end MeowLang
