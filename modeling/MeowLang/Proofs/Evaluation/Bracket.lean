import MeowLang.Proofs.Evaluation.Step
import MeowLang.Proofs.Scope

/-! What every evaluation gives back. An expression leaves the machine in the scope and with
the libraries being loaded that it found, whatever its outcome; a statement leaves the
libraries being loaded, and only a load that succeeds moves to another scope. -/
namespace MeowLang

variable {α β : Type} {m m' m'' : Machine}

/-! ### Relations between the states before and after -/

/-- The libraries being loaded are the same, and the scopes have only grown. -/
structure Machine.Keeps (m m' : Machine) : Prop where
  loading_eq : m'.loading = m.loading
  grows : m.scopes.Grows m'.scopes

/-- Moreover the machine is back in the scope it was in. -/
structure Machine.Returns (m m' : Machine) : Prop extends m.Keeps m' where
  current_eq : m'.current = m.current

namespace Machine

theorem Keeps.refl (m : Machine) : m.Keeps m := ⟨rfl, .refl _⟩

theorem Keeps.trans (h : m.Keeps m') (h' : m'.Keeps m'') : m.Keeps m'' :=
  ⟨h'.loading_eq.trans h.loading_eq, h.grows.trans h'.grows⟩

theorem Returns.refl (m : Machine) : m.Returns m := ⟨.refl m, rfl⟩

theorem Returns.trans (h : m.Returns m') (h' : m'.Returns m'') : m.Returns m'' :=
  ⟨h.toKeeps.trans h'.toKeeps, h'.current_eq.trans h.current_eq⟩

end Machine

namespace Eval

theorem bind_apply (p : Eval α) (f : α → Eval β) (m : Machine) :
    (p >>= f) m =
      match p m with
      | (.value a, m) => f a m
      | (.signal s, m) => (.signal s, m)
      | (.halted h, m) => (.halted h, m)
      | (.exhausted, m) => (.exhausted, m) := rfl

/-- The states before and after an evaluation are related, whatever its outcome. -/
def Moves (R : Machine → Machine → Prop) (p : Eval α) : Prop := ∀ m, R m (p m).2

variable {R : Machine → Machine → Prop}

theorem Moves.of_eq {p : Eval α} {r : Outcome α} (h : Moves R p) (done : p m = (r, m')) :
    R m m' := by
  have hm := h m
  rwa [done] at hm

theorem moves_bind (ht : ∀ a b c, R a b → R b c → R a c) {p : Eval α} {f : α → Eval β}
    (hp : Moves R p) (hf : ∀ a, Moves R (f a)) : Moves R (p >>= f) := by
  intro m
  have h := hp m
  rw [bind_apply]
  split <;> rename_i heq <;> rw [heq] at h
  · exact ht _ _ _ h (hf _ _)
  all_goals exact h

theorem Moves.keeps {p : Eval α} (h : Moves Machine.Returns p) : Moves Machine.Keeps p :=
  fun m => (h m).toKeeps

/-- An evaluation that does not touch the machine. -/
def Still (p : Eval α) : Prop := ∀ m, (p m).2 = m

theorem Still.returns {p : Eval α} (h : Still p) : Moves Machine.Returns p := by
  intro m
  rw [h m]
  exact .refl m

theorem still_pure (a : α) : Still (pure a : Eval α) := fun _ => rfl

theorem still_exhausted : Still (exhausted : Eval α) := fun _ => rfl

theorem still_halt (h : Halt) : Still (halt h : Eval α) := fun _ => rfl

theorem still_signal (s : Signal) : Still (signal s : Eval α) := fun _ => rfl

theorem still_fail (site : Site) (line : Int) (cause : Cause) :
    Still (fail site line cause : Eval α) := fun _ => rfl

theorem still_lookup (name : String) : Still (lookup name) := fun _ => rfl

theorem still_ofExcept (site : Site) (line : Int) (r : Except Cause α) :
    Still (ofExcept site line r) := by
  cases r <;> exact fun _ => rfl

theorem returns_bind {p : Eval α} {f : α → Eval β} (hp : Moves Machine.Returns p)
    (hf : ∀ a, Moves Machine.Returns (f a)) : Moves Machine.Returns (p >>= f) :=
  moves_bind (R := Machine.Returns) (fun _ _ _ => .trans) hp hf

theorem keeps_bind {p : Eval α} {f : α → Eval β} (hp : Moves Machine.Keeps p)
    (hf : ∀ a, Moves Machine.Keeps (f a)) : Moves Machine.Keeps (p >>= f) :=
  moves_bind (R := Machine.Keeps) (fun _ _ _ => .trans) hp hf

theorem returns_bindName (name : String) (v : Value) : Moves Machine.Returns (bindName name v) :=
  fun m => ⟨⟨rfl, m.scopes.grows_set _ _ _⟩, rfl⟩

theorem returns_rebindName (name : String) (v : Value) :
    Moves Machine.Returns (rebindName name v) := by
  intro m
  simp only [rebindName]
  split
  · exact ⟨⟨rfl, m.scopes.grows_set _ _ _⟩, rfl⟩
  · exact .refl m

theorem returns_makeClosure (params : List String) (body : List Stmt) :
    Moves Machine.Returns (makeClosure params body) := fun _ => ⟨⟨rfl, .refl _⟩, rfl⟩

theorem returns_callNative (site : Site) (line : Int) (f : Native) (args : List Value) :
    Moves Machine.Returns (callNative site line f args) := by
  intro m
  simp only [callNative]
  split <;> exact ⟨⟨rfl, .refl _⟩, rfl⟩

/-- A scope of its own brackets what runs in it. -/
theorem returns_within (scope : Scope) {p : Eval α} (hp : Moves Machine.Keeps p) :
    Moves Machine.Returns (within scope p) := by
  intro m
  have h := hp { m with scopes := m.scopes.push scope, current := m.scopes.size }
  exact ⟨⟨h.loading_eq, (m.scopes.grows_push scope).trans h.grows⟩, rfl⟩

theorem returns_nested {p : Eval α} (hp : Moves Machine.Keeps p) :
    Moves Machine.Returns (nested p) :=
  fun m => returns_within ⟨[], some m.current⟩ hp m

theorem keeps_layer (exports : List (String × Value)) : Moves Machine.Keeps (layer exports) :=
  fun m => ⟨rfl, m.scopes.grows_push _⟩

end Eval

open Eval

/-! ### The evaluation of programs -/

/-- What evaluations with bound `n` give back. -/
structure Brackets (n : Nat) : Prop where
  expr : ∀ site e, Moves Machine.Returns (evalExpr site n e)
  all : ∀ site es, Moves Machine.Returns (evalAll site n es)
  entries : ∀ site line es done, Moves Machine.Returns (evalEntries site n line es done)
  loop : ∀ site body, Moves Machine.Returns (repeatLoop site n body)
  call : ∀ site f args line, Moves Machine.Returns (apply site n f args line)
  block : ∀ site ss last, Moves Machine.Keeps (execAll site n ss last)
  stmt : ∀ site s, Moves Machine.Keeps (exec site n s)
  library : ∀ site name, Moves Machine.Returns (load site n name)
  body : ∀ site key name source natives,
    Moves Machine.Returns (runLibrary site n key name source natives)
  program : ∀ site ss last, Moves Machine.Keeps (runProgram site n ss last)

theorem brackets_zero : Brackets 0 where
  expr _ _ := still_exhausted.returns
  all _ _ := still_exhausted.returns
  entries _ _ _ _ := still_exhausted.returns
  loop _ _ := still_exhausted.returns
  call _ _ _ _ := still_exhausted.returns
  block _ _ _ := still_exhausted.returns.keeps
  stmt _ _ := still_exhausted.returns.keeps
  library _ _ := still_exhausted.returns
  body _ _ _ _ _ := still_exhausted.returns
  program _ _ _ := still_exhausted.returns.keeps

namespace Brackets

variable {n : Nat} (h : Brackets n) (site : Site)

include h

theorem expr_succ (e : Expr) : Moves Machine.Returns (evalExpr site (n + 1) e) := by
  cases e with
  | number x line => exact (still_pure _).returns
  | string s line => exact (still_pure _).returns
  | bool b line => exact (still_pure _).returns
  | ident name line =>
    refine returns_bind (still_lookup name).returns fun found => ?_
    cases found with
    | some v => exact (still_pure v).returns
    | none => exact (still_fail _ _ _).returns
  | array items line => exact returns_bind (h.all site items) fun _ => (still_pure _).returns
  | object entries line =>
    exact returns_bind (h.entries site line entries []) fun _ => (still_pure _).returns
  | prefixed op operand line =>
    exact returns_bind (h.expr site operand) fun _ => (still_ofExcept _ _ _).returns
  | between op left right line =>
    exact returns_bind (h.expr site left) fun _ =>
      returns_bind (h.expr site right) fun _ => (still_ofExcept _ _ _).returns
  | cond test yes no line =>
    refine returns_bind (h.expr site test) fun c => ?_
    split
    · exact returns_nested (h.block site yes .null)
    · cases no with
      | some no => exact returns_nested (h.block site no .null)
      | none => exact (still_pure _).returns
  | function params body line => exact returns_makeClosure params body
  | call callee args line =>
    exact returns_bind (h.expr site callee) fun f =>
      returns_bind (h.all site args) fun args => h.call site f args line
  | index collection position line =>
    exact returns_bind (h.expr site collection) fun _ =>
      returns_bind (h.expr site position) fun _ => (still_ofExcept _ _ _).returns
  | kindOf operand line =>
    intro m
    have ho := h.expr site operand m
    simp only [evalExpr]
    split <;> simp_all
  | loop body line => exact h.loop site body
  | foreign node => exact (still_halt _).returns

theorem all_succ (es : List Expr) : Moves Machine.Returns (evalAll site (n + 1) es) := by
  cases es with
  | nil => exact (still_pure _).returns
  | cons e rest =>
    exact returns_bind (h.expr site e) fun _ =>
      returns_bind (h.all site rest) fun _ => (still_pure _).returns

theorem entries_succ (line : Int) (es : List (Expr × Expr)) (done : List (Key × Value)) :
    Moves Machine.Returns (evalEntries site (n + 1) line es done) := by
  cases es with
  | nil => exact (still_pure _).returns
  | cons e rest =>
    refine returns_bind (h.expr site e.1) fun k => ?_
    cases k.key? with
    | none => exact (still_fail _ _ _).returns
    | some k =>
      exact returns_bind (h.expr site e.2) fun v => h.entries site line rest _

theorem loop_succ (body : List Stmt) :
    Moves Machine.Returns (repeatLoop site (n + 1) body) := by
  intro m
  have hb := returns_nested (h.block site body .null) m
  simp only [repeatLoop]
  split
  · rename_i heq
    rw [heq] at hb
    exact hb.trans (h.loop site body _)
  · rename_i heq
    rw [heq] at hb
    exact hb.trans (h.loop site body _)
  · rename_i heq
    rwa [heq] at hb
  · exact hb

theorem call_succ (f : Value) (args : List Value) (line : Int) :
    Moves Machine.Returns (apply site (n + 1) f args line) := by
  cases f with
  | native f identity => exact returns_callNative site line f args
  | function f =>
    intro m
    have hb := returns_within ⟨Assoc.insertAll (f.params.zip args) [], some f.scope⟩
      (h.block site f.body .null) m
    by_cases hlen : args.length = f.params.length
    · rw [apply_function_of_eq site n f args line m hlen]
      split
      · rename_i heq
        rwa [heq] at hb
      · rename_i heq
        rw [heq] at hb
        exact hb
      · exact hb
    · rw [apply_function_of_ne site n f args line m hlen]
      exact .refl m
  | _ => exact (still_fail _ _ _).returns

theorem block_succ (ss : List Stmt) (last : Value) :
    Moves Machine.Keeps (execAll site (n + 1) ss last) := by
  cases ss with
  | nil => exact (still_pure _).returns.keeps
  | cons s rest => exact keeps_bind (h.stmt site s) fun v => h.block site rest v

theorem program_succ (ss : List Stmt) (last : Value) :
    Moves Machine.Keeps (runProgram site (n + 1) ss last) := by
  cases ss with
  | nil => exact (still_pure _).returns.keeps
  | cons s rest =>
    intro m
    have hs := h.stmt site s m
    simp only [runProgram]
    split
    · rename_i heq
      rw [heq] at hs
      exact hs.trans (h.program site rest _ _)
    · rename_i heq
      rwa [heq] at hs
    · rename_i heq
      rw [heq] at hs
      exact hs
    · exact hs

/-- Every statement but a load returns. -/
theorem stmt_returns (s : Stmt) (hs : ∀ name line, s ≠ .load name line) :
    Moves Machine.Returns (exec site (n + 1) s) := by
  cases s with
  | expr e line => exact h.expr site e
  | bind name e line =>
    exact returns_bind (h.expr site e) fun v =>
      returns_bind (returns_bindName name v) fun _ => (still_pure _).returns
  | rebind name e line =>
    refine returns_bind (h.expr site e) fun v =>
      returns_bind (returns_rebindName name v) fun found => ?_
    split
    · exact (still_pure _).returns
    · exact (still_fail _ _ _).returns
  | giveBack e line =>
    cases e with
    | none => exact (still_signal _).returns
    | some e => exact returns_bind (h.expr site e) fun _ => (still_signal _).returns
  | load name line => exact absurd rfl (hs name line)
  | leave line => exact (still_signal _).returns
  | again line => exact (still_signal _).returns
  | foreign node => exact (still_halt _).returns

theorem stmt_succ (s : Stmt) : Moves Machine.Keeps (exec site (n + 1) s) := by
  cases s with
  | load name line =>
    intro m
    have hl := (h.library site name m).toKeeps
    simp only [exec]
    split <;> rename_i heq <;> rw [heq] at hl
    · exact hl.trans (keeps_layer _ _)
    all_goals exact hl
  | _ => exact (h.stmt_returns site _ (by simp)).keeps

theorem library_succ (name : String) : Moves Machine.Returns (load site (n + 1) name) := by
  intro m
  have hi : ∀ exports, m.Returns (m.instantiate exports).2 := fun _ => ⟨⟨rfl, .refl _⟩, rfl⟩
  rw [load_succ]
  cases m.plan site name with
  | fault cause => exact .refl m
  | halt h => exact .refl m
  | hand exports => exact hi exports
  | run key source exports => exact (hi exports).trans (h.body site key name source _ _)

/-- A library is loaded in scopes of its own, and its key is taken away again. -/
theorem body_succ (key name source : String) (natives : List (String × Value)) :
    Moves Machine.Returns (runLibrary site (n + 1) key name source natives) := by
  intro m
  obtain ⟨r, -, heq⟩ | ⟨parsed, r, m', -, -, -, hrun, heq⟩ :=
    runLibrary_cases site n key name source natives m
  · rw [heq]
    exact .refl m
  · have hk := h.program { site with file := key } parsed.program .null (m.beginLibrary key natives)
    have hg : m.scopes.Grows (m.beginLibrary key natives).scopes :=
      (m.scopes.grows_push _).trans (Scopes.grows_push _ _)
    rw [hrun] at hk
    have hl : m'.loading.erase key = m.loading := by
      rw [hk.loading_eq, Machine.beginLibrary_loading, List.erase_cons_head]
    rw [heq]
    exact ⟨⟨hl, hg.trans hk.grows⟩, rfl⟩

end Brackets

theorem brackets (n : Nat) : Brackets n := by
  induction n with
  | zero => exact brackets_zero
  | succ n ih =>
    exact ⟨ih.expr_succ, ih.all_succ, ih.entries_succ, ih.loop_succ, ih.call_succ, ih.block_succ,
      ih.stmt_succ, ih.library_succ, ih.body_succ, ih.program_succ⟩

end MeowLang
