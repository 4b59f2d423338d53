import MeowLang.Proofs.Evaluation.Bracket

/-! The course of the world. An evaluation reaches the world through native functions only, so
whatever holds of the worlds before and after each call of one holds of the worlds before and after
every evaluation. In particular, lines of input are taken from the front and never put back. -/
namespace MeowLang

open Eval

/-- A relation between an earlier world and a later one that native functions keep to. -/
structure World.Course (R : World → World → Prop) : Prop where
  refl : ∀ w, R w w
  trans : ∀ u v w, R u v → R v w → R u w
  call : ∀ (f : Native) (args : List Value) (w : World), R w (f.call args w).2

/-- The worlds of two machines are in a relation. -/
def World.Between (R : World → World → Prop) (m m' : Machine) : Prop := R m.world m'.world

namespace World.Course

variable {α β : Type} {R : World → World → Prop} (h : Course R)

include h

theorem moves_of_world_eq {p : Eval α} (hp : ∀ m, (p m).2.world = m.world) :
    Moves (Between R) p := by
  intro m
  rw [Between, hp m]
  exact h.refl _

theorem bind {p : Eval α} {f : α → Eval β} (hp : Moves (Between R) p)
    (hf : ∀ a, Moves (Between R) (f a)) : Moves (Between R) (p >>= f) :=
  moves_bind (R := Between R) (fun _ _ _ => h.trans _ _ _) hp hf

theorem pure (a : α) : Moves (Between R) (pure a : Eval α) := h.moves_of_world_eq fun _ => rfl

theorem fail (site : Site) (line : Int) (cause : Cause) :
    Moves (Between R) (fail site line cause : Eval α) := h.moves_of_world_eq fun _ => rfl

theorem ofExcept (site : Site) (line : Int) (r : Except Cause α) :
    Moves (Between R) (ofExcept site line r) := by
  cases r with
  | ok a => exact h.pure a
  | error cause => exact h.fail site line cause

theorem callNative (site : Site) (line : Int) (f : Native) (args : List Value) :
    Moves (Between R) (callNative site line f args) := by
  intro m
  have hcall := h.call f args m.world
  simp only [Eval.callNative]
  split <;> rename_i heq <;> rw [heq] at hcall <;> exact hcall

omit h in
theorem within (scope : Scope) {p : Eval α} (hp : Moves (Between R) p) :
    Moves (Between R) (within scope p) :=
  fun m => hp { m with scopes := m.scopes.push scope, current := m.scopes.size }

omit h in
theorem nested {p : Eval α} (hp : Moves (Between R) p) : Moves (Between R) (nested p) :=
  fun m => within ⟨[], some m.current⟩ hp m

end World.Course

/-! ### Evaluations -/

/-- Evaluations with bound `n` keep to a relation between worlds. -/
structure Steered (R : World → World → Prop) (n : Nat) : Prop where
  expr : ∀ site e, Moves (World.Between R) (evalExpr site n e)
  all : ∀ site es, Moves (World.Between R) (evalAll site n es)
  entries : ∀ site line es done, Moves (World.Between R) (evalEntries site n line es done)
  loop : ∀ site body, Moves (World.Between R) (repeatLoop site n body)
  call : ∀ site f args line, Moves (World.Between R) (apply site n f args line)
  block : ∀ site ss last, Moves (World.Between R) (execAll site n ss last)
  stmt : ∀ site s, Moves (World.Between R) (exec site n s)
  library : ∀ site name, Moves (World.Between R) (load site n name)
  text : ∀ site key name source natives,
    Moves (World.Between R) (runLibrary site n key name source natives)
  program : ∀ site ss last, Moves (World.Between R) (runProgram site n ss last)

namespace Steered

variable {R : World → World → Prop} {n : Nat} (h : Steered R n) (hc : World.Course R)
  (site : Site)

include h hc

theorem expr_succ (e : Expr) : Moves (World.Between R) (evalExpr site (n + 1) e) := by
  cases e with
  | number x line => exact hc.pure _
  | string s line => exact hc.pure _
  | bool b line => exact hc.pure _
  | ident name line =>
    refine hc.bind (hc.moves_of_world_eq fun _ => rfl) fun found => ?_
    cases found with
    | some v => exact hc.pure v
    | none => exact hc.fail _ _ _
  | array items line => exact hc.bind (h.all site items) fun _ => hc.pure _
  | object entries line => exact hc.bind (h.entries site line entries []) fun _ => hc.pure _
  | prefixed op operand line =>
    exact hc.bind (h.expr site operand) fun _ => hc.ofExcept _ _ _
  | between op left right line =>
    exact hc.bind (h.expr site left) fun _ =>
      hc.bind (h.expr site right) fun _ => hc.ofExcept _ _ _
  | cond test yes no line =>
    refine hc.bind (h.expr site test) fun c => ?_
    split
    · exact World.Course.nested (h.block site yes .null)
    · cases no with
      | some no => exact World.Course.nested (h.block site no .null)
      | none => exact hc.pure _
  | function params body line => exact hc.moves_of_world_eq fun _ => rfl
  | call callee args line =>
    exact hc.bind (h.expr site callee) fun f =>
      hc.bind (h.all site args) fun args => h.call site f args line
  | index collection position line =>
    exact hc.bind (h.expr site collection) fun _ =>
      hc.bind (h.expr site position) fun _ => hc.ofExcept _ _ _
  | kindOf operand line =>
    intro m
    have ho := h.expr site operand m
    simp only [evalExpr]
    split <;> rename_i heq
    · rw [heq] at ho
      exact ho
    · rw [heq] at ho
      exact ho
    · exact ho
  | loop body line => exact h.loop site body
  | foreign node => exact hc.moves_of_world_eq fun _ => rfl

theorem all_succ (es : List Expr) : Moves (World.Between R) (evalAll site (n + 1) es) := by
  cases es with
  | nil => exact hc.pure _
  | cons e rest =>
    exact hc.bind (h.expr site e) fun _ => hc.bind (h.all site rest) fun _ => hc.pure _

theorem entries_succ (line : Int) (es : List (Expr × Expr)) (done : List (Key × Value)) :
    Moves (World.Between R) (evalEntries site (n + 1) line es done) := by
  cases es with
  | nil => exact hc.pure _
  | cons e rest =>
    refine hc.bind (h.expr site e.1) fun k => ?_
    cases k.key? with
    | none => exact hc.fail _ _ _
    | some k => exact hc.bind (h.expr site e.2) fun v => h.entries site line rest _

theorem loop_succ (body : List Stmt) :
    Moves (World.Between R) (repeatLoop site (n + 1) body) := by
  intro m
  have hb := World.Course.nested (h.block site body .null) m
  simp only [repeatLoop]
  split
  · rename_i heq
    rw [heq] at hb
    exact hc.trans _ _ _ hb (h.loop site body _)
  · rename_i heq
    rw [heq] at hb
    exact hc.trans _ _ _ hb (h.loop site body _)
  · rename_i heq
    rwa [heq] at hb
  · exact hb

theorem call_succ (f : Value) (args : List Value) (line : Int) :
    Moves (World.Between R) (apply site (n + 1) f args line) := by
  cases f with
  | native f identity => exact hc.callNative site line f args
  | function f =>
    intro m
    have hb := World.Course.within ⟨Assoc.insertAll (f.params.zip args) [], some f.scope⟩
      (h.block site f.body .null) m
    by_cases hlen : args.length = f.params.length
    · rw [apply_function_of_eq site n f args line m hlen]
      split
      · rename_i heq
        rwa [heq] at hb
      · rename_i heq
        rw [heq] at hb
        exact hb
      · exact hb
    · rw [apply_function_of_ne site n f args line m hlen]
      exact hc.refl _
  | _ => exact hc.fail _ _ _

theorem block_succ (ss : List Stmt) (last : Value) :
    Moves (World.Between R) (execAll site (n + 1) ss last) := by
  cases ss with
  | nil => exact hc.pure _
  | cons s rest => exact hc.bind (h.stmt site s) fun v => h.block site rest v

theorem stmt_succ (s : Stmt) : Moves (World.Between R) (exec site (n + 1) s) := by
  cases s with
  | expr e line => exact h.expr site e
  | bind name e line =>
    exact hc.bind (h.expr site e) fun v =>
      hc.bind (hc.moves_of_world_eq fun _ => rfl) fun _ => hc.pure _
  | rebind name e line =>
    refine hc.bind (h.expr site e) fun v =>
      hc.bind (hc.moves_of_world_eq fun m => ?_) fun found => ?_
    · simp only [rebindName]
      split <;> rfl
    · split
      · exact hc.pure _
      · exact hc.fail _ _ _
  | giveBack e line =>
    cases e with
    | none => exact hc.moves_of_world_eq fun _ => rfl
    | some e => exact hc.bind (h.expr site e) fun _ => hc.moves_of_world_eq fun _ => rfl
  | load name line =>
    intro m
    have hl := h.library site name m
    simp only [exec]
    split <;> rename_i heq <;> rw [heq] at hl <;> exact hl
  | leave line => exact hc.moves_of_world_eq fun _ => rfl
  | again line => exact hc.moves_of_world_eq fun _ => rfl
  | foreign node => exact hc.moves_of_world_eq fun _ => rfl

theorem library_succ (name : String) : Moves (World.Between R) (load site (n + 1) name) := by
  intro m
  rw [load_succ]
  cases m.plan site name with
  | fault cause => exact hc.refl _
  | halt e => exact hc.refl _
  | hand exports => exact hc.refl _
  | run key source exports => exact h.text site key name source _ (m.instantiate exports).2

theorem text_succ (key name source : String) (natives : List (String × Value)) :
    Moves (World.Between R) (runLibrary site (n + 1) key name source natives) := by
  intro m
  obtain ⟨r, -, heq⟩ | ⟨parsed, r, m', -, -, -, hrun, heq⟩ :=
    runLibrary_cases site n key name source natives m
  · rw [heq]
    exact hc.refl _
  · have hp := h.program { site with file := key } parsed.program .null (m.beginLibrary key natives)
    rw [hrun] at hp
    rw [heq]
    exact hp

theorem program_succ (ss : List Stmt) (last : Value) :
    Moves (World.Between R) (runProgram site (n + 1) ss last) := by
  cases ss with
  | nil => exact hc.pure _
  | cons s rest =>
    intro m
    have hs := h.stmt site s m
    simp only [runProgram]
    split
    · rename_i heq
      rw [heq] at hs
      exact hc.trans _ _ _ hs (h.program site rest _ _)
    · rename_i heq
      rwa [heq] at hs
    · rename_i heq
      rw [heq] at hs
      exact hs
    · exact hs

end Steered

theorem World.Course.steered {R : World → World → Prop} (hc : Course R) (n : Nat) :
    Steered R n := by
  induction n with
  | zero =>
    have hx {α : Type} : Moves (Between R) (exhausted : Eval α) :=
      hc.moves_of_world_eq fun _ => rfl
    exact ⟨fun _ _ => hx, fun _ _ => hx, fun _ _ _ _ => hx, fun _ _ => hx, fun _ _ _ _ => hx,
      fun _ _ _ => hx, fun _ _ => hx, fun _ _ => hx, fun _ _ _ _ _ => hx, fun _ _ _ => hx⟩
  | succ n ih =>
    exact ⟨ih.expr_succ hc, ih.all_succ hc, ih.entries_succ hc, ih.loop_succ hc, ih.call_succ hc,
      ih.block_succ hc, ih.stmt_succ hc, ih.library_succ hc, ih.text_succ hc, ih.program_succ hc⟩

/-! ### Input -/

/-- The lines that are still to be read are the last ones of those that were. -/
def World.Reads (w w' : World) : Prop := w'.input <:+ w.input

namespace World

theorem reads_ask (w : World) (prompt : String) : w.Reads (w.ask prompt).2 := by
  have hinput : (w.write prompt).input = w.input := rfl
  simp only [ask, Reads]
  split
  · exact List.suffix_refl _
  · rename_i line rest hline
    rw [← hinput, hline]
    exact List.suffix_cons line rest

theorem input_draw (w : World) : w.draw.2.input = w.input := rfl

theorem input_shuffle {α : Type} (w : World) (n : Nat) (items : List α) :
    (w.shuffle n items).2.input = w.input := by
  induction n generalizing w items with
  | zero => rfl
  | succ n ih =>
    simp only [shuffle, drawBelow]
    split
    · exact input_draw w
    · exact (ih _ _).trans (input_draw w)

theorem input_writeText {w w' : World} {path text : String} (h : w.writeText path text = .ok w') :
    w'.input = w.input := by
  unfold writeText at h
  split at h
  · cases h
  split at h
  · cases h
  · cases h
    rfl

/-- Only one function takes from the input. -/
theorem input_call {f : Native} (hf : f ≠ .kibble) (args : List Value) (w : World) :
    (f.call args w).2.input = w.input := by
  cases hp : f.pure? with
  | some g => rw [Native.call_of_pure hp]
  | none =>
    cases f <;> try contradiction
    case log | meow =>
      simp only [Native.call, Native.callLog]
      split <;> rfl
    case nap =>
      simp only [Native.call, Native.callNap]
      split
      · split
        · split <;> rfl
        · rfl
      · rfl
      · rfl
    case readText =>
      simp only [Native.call, Native.callReadText]
      split
      · split <;> rfl
      · rfl
      · rfl
    case writeText =>
      simp only [Native.call, Native.callWriteText]
      split
      · split
        · rename_i hw
          exact input_writeText hw
        · rfl
        · rfl
      · rfl
      · rfl
    case fileExists =>
      simp only [Native.call, Native.callFileExists]
      split <;> rfl
    case randomBetween | uniform =>
      simp only [Native.call, Native.callBetween, drawUnit]
      split
      · rfl
      · exact input_draw w
    case random =>
      simp only [Native.call, Native.callRandom, drawUnit]
      split
      · exact input_draw w
      · rfl
    case randint =>
      simp only [Native.call, Native.callRandint, drawBelow]
      split
      · rfl
      · split
        · split
          · rfl
          · exact input_draw w
        · rfl
    case choice =>
      simp only [Native.call, Native.callChoice, drawBelow]
      split
      · split
        · exact input_draw w
        · rfl
      · rfl
      · rfl
    case shuffle =>
      simp only [Native.call, Native.callShuffle]
      split
      · exact input_shuffle w _ _
      · rfl
      · rfl

theorem reads_callKibble (args : List Value) (w : World) :
    w.Reads (Native.callKibble args w).2 := by
  unfold Native.callKibble
  dsimp only
  split
  · exact reads_ask w _
  · exact reads_ask w _
  · exact List.suffix_refl _

theorem reads_call (f : Native) (args : List Value) (w : World) : w.Reads (f.call args w).2 := by
  by_cases hf : f = .kibble
  · subst hf
    exact reads_callKibble args w
  · have hinput := input_call hf args w
    exact ⟨[], hinput⟩

theorem course_reads : Course Reads where
  refl w := List.suffix_refl w.input
  trans _ _ _ h h' := h'.trans h
  call := reads_call

end World

end MeowLang
