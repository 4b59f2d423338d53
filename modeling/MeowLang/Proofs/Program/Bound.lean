import MeowLang.Proofs.Program.Equality
import MeowLang.Proofs.Program.Progress

/-! The bound on readings inside each other does not matter once it is large enough: a larger one
changes nothing in a reading that is not exhausted. With the bound that a text is read with,
no reading is, so what is read of a text depends on the text alone. -/
namespace MeowLang

namespace Parse

variable {α β : Type} {p p' : Parse α} {f f' : α → Parse β}

/-- Wherever `p` is not exhausted, `p'` reads the same. -/
def Extends (p' p : Parse α) : Prop := ∀ r, (p r).1 ≠ .exhausted → p' r = p r

theorem Extends.refl (p : Parse α) : Extends p p := fun _ _ => rfl

theorem Extends.trans {p'' : Parse α} (h' : Extends p'' p') (h : Extends p' p) :
    Extends p'' p := by
  intro r hr
  have heq := h r hr
  rw [← heq] at hr
  exact (h' r hr).trans heq

theorem extends_exhausted : Extends p exhausted := fun _ hr => absurd rfl hr

theorem bind_of_exhausted {r : Reader} (h : (p r).1 = .exhausted) :
    ((p >>= f) r).1 = .exhausted := by
  rw [bind_apply]
  cases hpr : p r with
  | mk a r' =>
    rw [hpr] at h
    cases h
    rfl

theorem attempt_of_exhausted {r : Reader} (h : (p r).1 = .exhausted) :
    (attempt p r).1 = .exhausted := by
  unfold attempt
  cases hpr : p r with
  | mk a r' =>
    rw [hpr] at h
    cases h
    rfl

theorem extends_bind (hp : Extends p' p) (hf : ∀ a, Extends (f' a) (f a)) :
    Extends (p' >>= f') (p >>= f) := by
  intro r hr
  have heq : p' r = p r := hp r fun h => hr (bind_of_exhausted h)
  rw [bind_apply] at hr
  rw [bind_apply, bind_apply, heq]
  cases hpr : p r with
  | mk a r' =>
    rw [hpr] at hr
    cases a with
    | got a => exact hf a r' hr
    | failed | broken e | exhausted => rfl

/-- Both readings do the same first. -/
theorem extends_then (hf : ∀ a, Extends (f' a) (f a)) : Extends (p >>= f') (p >>= f) :=
  extends_bind (.refl p) hf

theorem extends_attempt (hp : Extends p' p) : Extends (attempt p') (attempt p) := by
  intro r hr
  have heq : p' r = p r := hp r fun h => hr (attempt_of_exhausted h)
  unfold attempt
  rw [heq]

theorem extends_ite {c : Prop} [Decidable c] {q q' : Parse α} (hp : Extends p' p)
    (hq : Extends q' q) : Extends (if c then p' else q') (if c then p else q) := by
  by_cases hc : c
  · rw [if_pos hc, if_pos hc]
    exact hp
  · rw [if_neg hc, if_neg hc]
    exact hq

end Parse

/-! ### Each reading -/

namespace Grammar

open Parse

theorem names_succ (n : Nat) : Extends (names (n + 1)) (names n) := by
  induction n with
  | zero => exact extends_exhausted
  | succ n ih =>
    refine extends_then fun _ => extends_then fun t => ?_
    cases t with
    | ident x =>
      refine extends_then fun _ => extends_ite (extends_then fun _ => ?_) (.refl _)
      exact extends_bind ih fun _ => .refl _
    | _ => exact .refl _

theorem params_succ (n : Nat) : Extends (params (n + 1)) (params n) :=
  extends_then fun _ => extends_ite (.refl _) (extends_bind (names_succ n) fun _ => .refl _)

/-- A bound of one more changes no reading that the bound `n` does not exhaust. -/
structure Steady (n : Nat) : Prop where
  expr : ∀ power, Extends (expr (n + 1) power) (expr n power)
  climb : ∀ power left, Extends (climb (n + 1) power left) (climb n power left)
  extend : ∀ m left, Extends (extend (n + 1) m left) (extend n m left)
  operand : Extends (operand (n + 1)) (operand n)
  conditional : Extends (conditional (n + 1)) (conditional n)
  items : ∀ close, Extends (items (n + 1) close) (items n close)
  moreItems : ∀ close, Extends (moreItems (n + 1) close) (moreItems n close)
  entries : Extends (entries (n + 1)) (entries n)
  block : Extends (block (n + 1)) (block n)
  blockRest : Extends (blockRest (n + 1)) (blockRest n)
  statement : Extends (statement (n + 1)) (statement n)

namespace Steady

variable {n : Nat} (h : Steady n)

include h

theorem climb_succ (power : Nat) (left : Expr) :
    Extends (Grammar.climb (n + 2) power left) (Grammar.climb (n + 1) power left) := by
  refine extends_then fun t => ?_
  cases t with
  | mark m =>
    refine extends_ite (extends_then fun _ => ?_) (.refl _)
    exact extends_bind (h.extend m left) fun left => h.climb power left
  | _ => exact .refl _

theorem extend_succ (m : Mark) (left : Expr) :
    Extends (Grammar.extend (n + 2) m left) (Grammar.extend (n + 1) m left) := by
  refine extends_then fun line => ?_
  cases m with
  | leftParen => exact extends_bind (h.items _) fun _ => .refl _
  | leftBracket => exact extends_then fun _ => extends_bind (h.expr _) fun _ => .refl _
  | _ => exact extends_then fun _ => extends_then fun _ => extends_bind (h.expr _) fun _ => .refl _

theorem operand_succ : Extends (Grammar.operand (n + 2)) (Grammar.operand (n + 1)) := by
  refine extends_then fun line => extends_then fun t => ?_
  cases t with
  | mark m =>
    cases m with
    | leftParen =>
      exact extends_then fun _ => extends_bind (extends_attempt (h.expr _)) fun _ => .refl _
    | ifWord => exact h.conditional
    | functionWord =>
      refine extends_then fun _ => extends_bind (params_succ n) fun _ => extends_then fun _ => ?_
      exact extends_bind h.block fun _ => .refl _
    | leftBracket => exact extends_bind (h.items _) fun _ => .refl _
    | leftBrace => exact extends_bind h.entries fun _ => .refl _
    | loopWord => exact extends_then fun _ => extends_bind h.block fun _ => .refl _
    | typeofWord | bang | minus | plus =>
      exact extends_then fun _ => extends_bind (h.expr _) fun _ => .refl _
    | _ => exact .refl _
  | _ => exact .refl _

theorem conditional_succ :
    Extends (Grammar.conditional (n + 2)) (Grammar.conditional (n + 1)) := by
  refine extends_then fun line => extends_then fun _ => extends_then fun _ => ?_
  refine extends_bind (h.expr _) fun test => extends_then fun _ => extends_then fun _ => ?_
  refine extends_bind h.block fun yes => extends_then fun _ => extends_ite ?_ (.refl _)
  refine extends_then fun _ => extends_then fun _ => extends_ite ?_ ?_
  · exact extends_then fun _ => extends_bind h.conditional fun _ => .refl _
  · exact extends_then fun _ => extends_bind h.block fun _ => .refl _

theorem items_succ (close : Mark) :
    Extends (Grammar.items (n + 2) close) (Grammar.items (n + 1) close) := by
  refine extends_then fun _ => extends_ite (.refl _) (extends_then fun _ => ?_)
  exact extends_bind (h.expr _) fun _ => extends_bind (h.moreItems close) fun _ => .refl _

theorem moreItems_succ (close : Mark) :
    Extends (Grammar.moreItems (n + 2) close) (Grammar.moreItems (n + 1) close) := by
  refine extends_then fun _ => extends_ite (extends_then fun _ => extends_then fun _ => ?_) (.refl _)
  refine extends_ite (.refl _) (extends_then fun _ => ?_)
  exact extends_bind (h.expr _) fun _ => extends_bind (h.moreItems close) fun _ => .refl _

theorem entries_succ : Extends (Grammar.entries (n + 2)) (Grammar.entries (n + 1)) := by
  refine extends_then fun _ => extends_ite (.refl _) (extends_then fun _ => ?_)
  refine extends_bind (h.expr _) fun key => extends_then fun _ => extends_then fun _ => ?_
  refine extends_bind (h.expr _) fun value => extends_then fun _ => ?_
  have hmore : Extends (Grammar.entries (n + 1) >>= fun more => pure ((key, value) :: more))
      (Grammar.entries n >>= fun more => pure ((key, value) :: more)) :=
    extends_bind h.entries fun _ => .refl _
  exact extends_ite hmore (extends_then fun _ => hmore)

theorem blockRest_succ : Extends (Grammar.blockRest (n + 2)) (Grammar.blockRest (n + 1)) := by
  have hmore : Extends
      (do
        let first ← attempt (Grammar.statement (n + 1))
        advance
        let more ← Grammar.blockRest (n + 1)
        pure (first.toList ++ more))
      (do
        let first ← attempt (Grammar.statement n)
        advance
        let more ← Grammar.blockRest n
        pure (first.toList ++ more)) :=
    extends_bind (extends_attempt h.statement) fun _ => extends_then fun _ =>
      extends_bind h.blockRest fun _ => .refl _
  refine extends_then fun t => ?_
  cases t with
  | eof => exact .refl _
  | mark m =>
    cases m with
    | rightBrace => exact .refl _
    | _ => exact hmore
  | _ => exact hmore

theorem statement_succ : Extends (Grammar.statement (n + 2)) (Grammar.statement (n + 1)) := by
  have hvalue : ∀ g : Expr → Stmt, Extends
      (do
        let value ← Grammar.expr (n + 1) lowestPrecedence
        skipSemicolon
        pure (g value))
      (do
        let value ← Grammar.expr n lowestPrecedence
        skipSemicolon
        pure (g value)) := fun g => extends_bind (h.expr _) fun _ => .refl _
  refine extends_then fun line => extends_then fun t => ?_
  cases t with
  | mark m =>
    cases m with
    | setWord | anewWord =>
      exact extends_then fun _ => extends_then fun _ => extends_then fun _ => hvalue _
    | returnWord =>
      refine extends_then fun t => ?_
      cases t with
      | eof => exact .refl _
      | mark m =>
        cases m with
        | semicolon | rightBrace => exact .refl _
        | _ => exact extends_then fun _ => hvalue _
      | _ => exact extends_then fun _ => hvalue _
    | semicolon | includeWord | breakWord | continueWord => exact .refl _
    | _ => exact hvalue _
  | _ => exact hvalue _

end Steady

theorem steady (n : Nat) : Steady n := by
  induction n with
  | zero =>
    constructor <;> intros <;> exact extends_exhausted
  | succ n h =>
    exact {
      expr := fun power => extends_bind h.operand fun left => h.climb power left
      climb := h.climb_succ
      extend := h.extend_succ
      operand := h.operand_succ
      conditional := h.conditional_succ
      items := h.items_succ
      moreItems := h.moreItems_succ
      entries := h.entries_succ
      block := extends_then fun _ => h.blockRest
      blockRest := h.blockRest_succ
      statement := h.statement_succ }

theorem statements_succ (n : Nat) : Extends (statements (n + 1)) (statements n) := by
  induction n with
  | zero => exact extends_exhausted
  | succ n ih =>
    refine extends_then fun t => ?_
    cases t with
    | eof => exact .refl _
    | _ =>
      exact extends_bind (extends_attempt (steady n).statement) fun _ => extends_then fun _ =>
        extends_bind ih fun _ => .refl _

theorem statements_extends {m n : Nat} (h : m ≤ n) : Extends (statements n) (statements m) := by
  induction h with
  | refl => exact .refl _
  | step _ ih => exact (statements_succ _).trans ih

theorem statements_of_bound_le {source : String} {r : Reader} (h : Reader.start source = .ok r)
    {n : Nat} (hn : bound source ≤ n) : statements n r = statements (bound source) r := by
  refine statements_extends hn r fun hexhausted => ?_
  rcases statements_ends (bound source) r (count_start_le h) with
    ⟨q, r', hrun, -⟩ | ⟨e, r', hrun, -⟩
  · rw [hrun] at hexhausted
    cases hexhausted
  · rw [hrun] at hexhausted
    cases hexhausted

end Grammar

/-- Every text is read in the same way with every bound from its own on; what stops the reading
is the numeral that stops the tokens, with its line; and a reading that is not stopped has come
to the end of the text, whatever it complained of. -/
theorem reading_ends_with_the_text (source : String) :
    (∀ r, Reader.start source = .ok r → ∃ ending, ending.1 ≠ .exhausted ∧
      ∀ n, Grammar.bound source ≤ n → Grammar.statements n r = ending) ∧
    (∀ e, Parsed.ofSource source = .error e ↔ tokenize source = .error e) ∧
    ∀ parsed, Parsed.ofSource source = .ok parsed → ∃ r r', Reader.start source = .ok r ∧
      Grammar.statements (Grammar.bound source) r = (.got parsed.program, r') ∧
      r'.errors = parsed.errors ∧ r'.current = .eof ∧ r'.peek = .eof ∧ r'.cursor.rest = [] := by
  refine ⟨fun r hr => ⟨Grammar.statements (Grammar.bound source) r, ?_, fun n hn =>
    Grammar.statements_of_bound_le hr hn⟩, ?_, ?_⟩
  · rcases Grammar.statements_ends _ r (Grammar.count_start_le hr) with
      ⟨q, r', hrun, -⟩ | ⟨e, r', hrun, -⟩ <;> rw [hrun] <;> exact nofun
  · intro e
    rcases Parsed.ofSource_cases source with ⟨e', ht, hp⟩ | ⟨_, _, _, _, ht, -, -, -, -, -, -, hp⟩
    · rw [ht, hp]
      simp
    · rw [ht, hp]
      simp
  · intro parsed h
    rcases Parsed.ofSource_cases source with
      ⟨e, -, hp⟩ | ⟨_, r, program, r', -, hr, -, -, -, hrun, hc, hp⟩
    · rw [hp] at h
      cases h
    · rw [hp] at h
      cases h
      exact ⟨r, r', hr, hrun, rfl, hc, r'.ahead_of_here hc, r'.rest_of_current hc⟩

theorem reading_ends_with_the_text_at_a_numeral :
    tokenize "(\n\"x\" 1.2.3" = .error ⟨"1.2.3", 2⟩ ∧
      Parsed.ofSource "(\n\"x\" 1.2.3" = .error ⟨"1.2.3", 2⟩ := by
  have htokens : tokenize "(\n\"x\" 1.2.3" = .error ⟨"1.2.3", 2⟩ := by decide +kernel
  exact ⟨htokens, ((reading_ends_with_the_text _).2.1 _).mpr htokens⟩

end MeowLang
