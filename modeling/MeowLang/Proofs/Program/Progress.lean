import MeowLang.Proofs.Program.Ahead

/-! Reading comes to an end. Between two signs a reading nests fewer than eight others, so that a
bound of eight for each sign that is left is never exhausted, whatever the text and whatever is
complained of on the way; and it is read to its end, unless a numeral that is no number stops it. -/
namespace MeowLang

/-! ### Moving on -/

namespace Reader

def count (r : Reader) : Nat := r.signs.length

/-- The same text, from here or from further on, with what was complained of on the way. -/
inductive Onto : Reader → Reader → Prop
  | refl (r : Reader) : Onto r r
  | advance {r r' r'' : Reader} (moved : r.advance = .ok r') (on : Onto r' r'') : Onto r r''
  | record {r r' : Reader} (e : SyntaxError) (on : Onto (r.record e) r') : Onto r r'

namespace Onto

variable {r r' r'' : Reader}

theorem of_advance (h : r.advance = .ok r') : r.Onto r' := .advance h (.refl r')

theorem of_record (r : Reader) (e : SyntaxError) : r.Onto (r.record e) := .record e (.refl _)

theorem trans (h : r.Onto r') (h' : r'.Onto r'') : r.Onto r'' := by
  induction h with
  | refl => exact h'
  | advance moved _ ih => exact .advance moved (ih h')
  | record e _ ih => exact .record e (ih h')

theorem signs_of_advance (h : r.advance = .ok r') :
    r'.signs = r.signs.tail ∧ r'.fault = r.fault := by
  rcases r.advance_cases with ⟨s, hs, hsigns, hfault, -⟩ | ⟨e, he, -⟩
  · cases h.symm.trans hs
    exact ⟨hsigns, hfault⟩
  · cases h.symm.trans he

theorem count_le (h : r.Onto r') : r'.count ≤ r.count := by
  induction h with
  | refl r => exact Nat.le_refl _
  | advance moved _ ih =>
    refine Nat.le_trans ih ?_
    rw [count, (signs_of_advance moved).1, List.length_tail]
    exact Nat.sub_le _ _
  | record e _ ih => exact ih

theorem fault_eq (h : r.Onto r') : r'.fault = r.fault := by
  induction h with
  | refl r => rfl
  | advance moved _ ih => exact ih.trans (signs_of_advance moved).2
  | record e _ ih => exact ih

end Onto

theorem count_of_current {r : Reader} {t : Terminal} (h : r.current = t) (ht : t ≠ .eof) :
    1 ≤ r.count := r.length_pos_of_current (h ▸ ht)

theorem count_of_peek {r : Reader} {t : Terminal} (h : r.peek = t) (ht : t ≠ .eof) :
    2 ≤ r.count := r.two_le_length_of_peek (h ▸ ht)

end Reader

namespace Parse

variable {α β : Type} {r : Reader} {p : Parse α} {f : α → Parse β} {Q : Reader → Prop}
  {R : Reader → Prop}

/-- A reading begun in `r` is not exhausted, goes on in the text, stops only at the numeral that
stands at its end, and leaves a reader that `Q` holds of if it has a result. -/
def Settles (r : Reader) (Q : Reader → Prop) : Reading α × Reader → Prop :=
  Exits.Meets ⟨r.Onto, fun e => r.fault = some e, False⟩ fun _ r' => r.Onto r' ∧ Q r'

/-- The same with a result that ends on some sign of the text. -/
abbrev Lands (r : Reader) : Reading α × Reader → Prop := Settles r fun r' => 1 ≤ r'.count

theorem settles_pure {a : α} (h : Q r) : Settles r Q ((pure a : Parse α) r) := ⟨.refl r, h⟩

theorem settles_fail : Settles r Q ((fail : Parse α) r) := Reader.Onto.refl r

theorem settles_complain (e : SyntaxError) : Settles r Q ((complain e : Parse α) r) :=
  Reader.Onto.of_record r e

theorem settles_complainOnce (e : SyntaxError) : Settles r Q ((complainOnce e : Parse α) r) := by
  unfold complainOnce
  split
  · exact Reader.Onto.refl r
  · exact Reader.Onto.of_record r e

theorem settles_bind (hp : Settles r Q (p r))
    (hf : ∀ a r', r'.count ≤ r.count → Q r' → Settles r' R (f a r')) :
    Settles r R ((p >>= f) r) := by
  refine Exits.Meets.bind hp fun a r' ⟨ho, hq⟩ => ?_
  refine (hf a r' ho.count_le hq).mono (fun b r'' h => ⟨ho.trans h.1, h.2⟩)
    (fun r'' h => ho.trans h) (fun e he => ho.fault_eq.symm.trans he) id

theorem settles_peek {f : Terminal → Parse β} (h : Settles r R (f r.peek r)) :
    Settles r R ((peek >>= f) r) := h

theorem settles_current {f : Terminal → Parse β} (h : Settles r R (f r.current r)) :
    Settles r R ((current >>= f) r) := h

theorem settles_line {f : Int → Parse β} (h : ∀ l, Settles r R (f l r)) :
    Settles r R ((line >>= f) r) := h _

theorem advance_settles : Settles r (fun r' => r'.count = r.count - 1) (advance r) := by
  unfold advance
  rcases r.advance_cases with ⟨r', ha, hs, -, -⟩ | ⟨e, ha, -, hf⟩
  · have hcount : r'.count = r.count - 1 := by simp [Reader.count, hs]
    rw [ha]
    exact ⟨.of_advance ha, hcount⟩
  · rw [ha]
    exact hf

theorem settles_advance {f : Unit → Parse β}
    (h : ∀ r', r'.count = r.count - 1 → Settles r' R (f () r')) :
    Settles r R ((advance >>= f) r) := settles_bind advance_settles fun _ r' _ hr' => h r' hr'

theorem settles_expect {k : Kind} {f : Unit → Parse β} (hk : k ≠ .eof)
    (h : ∀ r', r'.count + 1 = r.count → 1 ≤ r'.count → Settles r' R (f () r')) :
    Settles r R ((expect k >>= f) r) := by
  rw [expect, bind_assoc]
  refine settles_peek ?_
  by_cases hpeek : r.peek.kind = k
  · rw [if_pos hpeek]
    have htwo : 2 ≤ r.count := Reader.count_of_peek rfl fun heof => hk (by rw [← hpeek, heof]; rfl)
    exact settles_advance fun r' hr' => h r' (by omega) (by omega)
  · rw [if_neg hpeek]
    exact Reader.Onto.of_record r _

theorem settles_attempt (h : Settles r Q (p r)) :
    Settles r (fun _ => True) (attempt p r) :=
  Exits.Meets.attempt h (fun _ _ h => ⟨h.1, trivial⟩) (fun _ h => ⟨h, trivial⟩) (fun _ => id) id

theorem settles_ofOption (o : Option α) (h : Q r) : Settles r Q (ofOption o r) := by
  cases o with
  | none => exact settles_fail
  | some a => exact settles_pure h

theorem settles_skipSemicolon {f : Unit → Parse β} (hr : 1 ≤ r.count)
    (h : ∀ r', r'.count ≤ r.count → 1 ≤ r'.count → Settles r' R (f () r')) :
    Settles r R ((skipSemicolon >>= f) r) := by
  rw [skipSemicolon, bind_assoc]
  refine settles_peek ?_
  by_cases hpeek : r.peek = .mark .semicolon
  · rw [if_pos hpeek]
    have htwo := Reader.count_of_peek hpeek (by simp)
    exact settles_advance fun r' hr' => h r' (by omega) (by omega)
  · rw [if_neg hpeek]
    exact h r (Nat.le_refl _) hr

theorem settles_expectName {f : String → Parse β}
    (h : ∀ x r', r'.count + 1 = r.count → 1 ≤ r'.count → Settles r' R (f x r')) :
    Settles r R ((expectName >>= f) r) := by
  rw [expectName, bind_assoc]
  refine settles_expect (by simp) fun r' hr' hone => ?_
  rw [bind_assoc]
  refine settles_current ?_
  cases r'.current with
  | ident x => exact h x r' hr' hone
  | _ => exact Reader.Onto.refl r'

theorem settles_expectText {f : String → Parse β}
    (h : ∀ x r', r'.count + 1 = r.count → 1 ≤ r'.count → Settles r' R (f x r')) :
    Settles r R ((expectText >>= f) r) := by
  rw [expectText, bind_assoc]
  refine settles_expect (by simp) fun r' hr' hone => ?_
  rw [bind_assoc]
  refine settles_current ?_
  cases r'.current with
  | string b => exact h b r' hr' hone
  | _ => exact Reader.Onto.refl r'

end Parse

/-! ### Readings with a bound for what is left -/

namespace Grammar

open Parse

theorem names_settles (n : Nat) (r : Reader) (hn : r.count + 1 ≤ n) : Lands r (names n r) := by
  induction n generalizing r with
  | zero => omega
  | succ n ih =>
    refine settles_advance fun r₁ h₁ => settles_current ?_
    cases hc : r₁.current with
    | ident x =>
      have hone := Reader.count_of_current hc (by simp)
      refine settles_peek ?_
      by_cases hp : r₁.peek = .mark .comma
      · have htwo := Reader.count_of_peek hp (by simp)
        simp only [if_pos hp]
        refine settles_advance fun r₂ h₂ => ?_
        exact settles_bind (ih r₂ (by omega)) fun _ r₃ _ h₃ => settles_pure h₃
      · simp only [if_neg hp]
        exact settles_pure hone
    | _ => exact settles_complain _

theorem params_settles (n : Nat) (r : Reader) (hn : r.count + 1 ≤ n) : Lands r (params n r) := by
  refine settles_peek ?_
  by_cases hp : r.peek = .mark .rightParen
  · have htwo := Reader.count_of_peek hp (by simp)
    rw [if_pos hp]
    exact settles_advance fun r₁ h₁ => settles_pure (by omega)
  · rw [if_neg hp]
    exact settles_bind (names_settles n r hn) fun _ r₁ _ _ =>
      settles_expect (by simp) fun r₂ _ h₂ => settles_pure h₂

/-- With a bound of eight for each sign that is left and a few more, readings settle. -/
structure Ample (n : Nat) : Prop where
  expr : ∀ power r, 8 * r.count + 4 ≤ n → Lands r (expr n power r)
  climb : ∀ power left r, 1 ≤ r.count → 8 * r.count + 2 ≤ n → Lands r (climb n power left r)
  extend : ∀ m left r, 1 ≤ r.count → 8 * r.count + 3 ≤ n → Lands r (extend n m left r)
  operand : ∀ r, 8 * r.count + 3 ≤ n → Lands r (operand n r)
  conditional : ∀ r, 8 * r.count + 2 ≤ n → Lands r (conditional n r)
  items : ∀ close r, 1 ≤ r.count → 8 * r.count + 2 ≤ n → Lands r (items n close r)
  moreItems : ∀ close r, 1 ≤ r.count → 8 * r.count + 2 ≤ n → Lands r (moreItems n close r)
  entries : ∀ r, 1 ≤ r.count → 8 * r.count + 2 ≤ n → Settles r (2 ≤ ·.count) (entries n r)
  block : ∀ r, 1 ≤ r.count → 8 * r.count + 2 ≤ n → Lands r (block n r)
  blockRest : ∀ r, 8 * r.count + 6 ≤ n → Lands r (blockRest n r)
  statement : ∀ r, 8 * r.count + 5 ≤ n → Lands r (statement n r)

namespace Ample

variable {n : Nat} (h : Ample n) (r : Reader)

include h

theorem expr_succ (power : Nat) (hn : 8 * r.count + 4 ≤ n + 1) :
    Lands r (Grammar.expr (n + 1) power r) :=
  settles_bind (h.operand r (by omega)) fun left r₁ hle hone =>
    h.climb power left r₁ hone (by omega)

theorem climb_succ (power : Nat) (left : Expr) (hr : 1 ≤ r.count) (hn : 8 * r.count + 2 ≤ n + 1) :
    Lands r (Grammar.climb (n + 1) power left r) := by
  refine settles_peek ?_
  cases hp : r.peek with
  | mark m =>
    have htwo := Reader.count_of_peek hp (by simp)
    by_cases hpower : power < m.precedence
    · simp only [if_pos hpower]
      refine settles_advance fun r₁ h₁ => ?_
      exact settles_bind (h.extend m left r₁ (by omega) (by omega)) fun left r₂ hle hone =>
        h.climb power left r₂ hone (by omega)
    · simp only [if_neg hpower]
      exact settles_pure hr
  | _ => exact settles_pure hr

theorem extend_succ (m : Mark) (left : Expr) (hr : 1 ≤ r.count) (hn : 8 * r.count + 3 ≤ n + 1) :
    Lands r (Grammar.extend (n + 1) m left r) := by
  refine settles_line fun line => ?_
  have hinfix : Lands r ((do
      let op ← ofOption m.binaryOp?
      advance
      let right ← Grammar.expr n m.precedence
      pure (Expr.between op left right line) : Parse Expr) r) := by
    refine settles_bind (settles_ofOption (Q := (· = r)) m.binaryOp? rfl) fun op r' _ hr' => ?_
    subst hr'
    exact settles_advance fun r₁ h₁ =>
      settles_bind (h.expr m.precedence r₁ (by omega)) fun _ _ _ hone => settles_pure hone
  cases m with
  | leftParen =>
    exact settles_bind (h.items .rightParen r hr (by omega)) fun _ _ _ hone => settles_pure hone
  | leftBracket =>
    exact settles_advance fun r₁ h₁ =>
      settles_bind (h.expr lowestPrecedence r₁ (by omega)) fun _ _ _ _ =>
        settles_expect (by simp) fun _ _ hone => settles_pure hone
  | _ => exact hinfix

theorem operand_succ (hn : 8 * r.count + 3 ≤ n + 1) : Lands r (Grammar.operand (n + 1) r) := by
  refine settles_line fun line => settles_current ?_
  cases hc : r.current with
  | ident x | number x | string b | boolean b =>
    exact settles_pure (Reader.count_of_current hc (by simp))
  | mark m =>
    have hone := Reader.count_of_current hc (by simp)
    have hprefix : ∀ op, Lands r ((do
        advance
        let inner ← Grammar.expr n prefixPrecedence
        pure (Expr.prefixed op inner line) : Parse Expr) r) := fun op =>
      settles_advance fun r₁ h₁ =>
        settles_bind (h.expr prefixPrecedence r₁ (by omega)) fun _ _ _ h₂ => settles_pure h₂
    cases m with
    | leftParen =>
      refine settles_advance fun r₁ h₁ => ?_
      refine settles_bind (settles_attempt (h.expr lowestPrecedence r₁ (by omega)))
        fun inner r₂ _ _ => settles_expect (by simp) fun r₃ _ h₃ => settles_ofOption inner h₃
    | ifWord => exact h.conditional r (by omega)
    | functionWord =>
      refine settles_expect (by simp) fun r₁ h₁ _ => ?_
      refine settles_bind (params_settles n r₁ (by omega)) fun _ r₂ h₂ _ => ?_
      refine settles_expect (by simp) fun r₃ h₃ hone₃ => ?_
      exact settles_bind (h.block r₃ hone₃ (by omega)) fun _ _ _ h₄ => settles_pure h₄
    | leftBracket =>
      exact settles_bind (h.items .rightBracket r hone (by omega)) fun _ _ _ h₁ => settles_pure h₁
    | leftBrace =>
      exact settles_bind (h.entries r hone (by omega)) fun _ r₁ _ h₁ =>
        settles_advance fun r₂ h₂ => settles_pure (by omega)
    | typeofWord =>
      exact settles_advance fun r₁ h₁ =>
        settles_bind (h.expr prefixPrecedence r₁ (by omega)) fun _ _ _ h₂ => settles_pure h₂
    | loopWord =>
      exact settles_expect (by simp) fun r₁ h₁ hone₁ =>
        settles_bind (h.block r₁ hone₁ (by omega)) fun _ _ _ h₂ => settles_pure h₂
    | bang | minus | plus => exact hprefix _
    | _ => exact settles_complain _
  | _ => exact settles_complain _

theorem conditional_succ (hn : 8 * r.count + 2 ≤ n + 1) :
    Lands r (Grammar.conditional (n + 1) r) := by
  refine settles_line fun line => settles_expect (by simp) fun r₁ h₁ hone₁ => ?_
  refine settles_advance fun r₂ h₂ => ?_
  refine settles_bind (h.expr lowestPrecedence r₂ (by omega)) fun test r₃ h₃ _ => ?_
  refine settles_expect (by simp) fun r₄ h₄ _ => settles_expect (by simp) fun r₅ h₅ hone₅ => ?_
  refine settles_bind (h.block r₅ hone₅ (by omega)) fun yes r₆ h₆ hone₆ => settles_peek ?_
  by_cases helse : r₆.peek = .mark .elseWord
  · rw [if_pos helse]
    refine settles_advance fun r₇ h₇ => settles_peek ?_
    by_cases hif : r₇.peek = .mark .ifWord
    · rw [if_pos hif]
      refine settles_advance fun r₈ h₈ => ?_
      exact settles_bind (h.conditional r₈ (by omega)) fun _ _ _ h₉ => settles_pure h₉
    · rw [if_neg hif]
      refine settles_expect (by simp) fun r₈ h₈ hone₈ => ?_
      exact settles_bind (h.block r₈ hone₈ (by omega)) fun _ _ _ h₉ => settles_pure h₉
  · rw [if_neg helse]
    exact settles_pure hone₆

theorem items_succ (close : Mark) (hr : 1 ≤ r.count) (hn : 8 * r.count + 2 ≤ n + 1) :
    Lands r (Grammar.items (n + 1) close r) := by
  refine settles_peek ?_
  by_cases hp : r.peek = .mark close
  · have htwo := Reader.count_of_peek hp (by simp)
    rw [if_pos hp]
    exact settles_advance fun r₁ h₁ => settles_pure (by omega)
  · rw [if_neg hp]
    refine settles_advance fun r₁ h₁ => ?_
    refine settles_bind (h.expr lowestPrecedence r₁ (by omega)) fun first r₂ h₂ hone₂ => ?_
    exact settles_bind (h.moreItems close r₂ hone₂ (by omega)) fun more r₃ _ _ =>
      settles_expect (by simp) fun _ _ h₄ => settles_pure h₄

theorem moreItems_succ (close : Mark) (hr : 1 ≤ r.count) (hn : 8 * r.count + 2 ≤ n + 1) :
    Lands r (Grammar.moreItems (n + 1) close r) := by
  refine settles_peek ?_
  by_cases hp : r.peek = .mark .comma
  · have htwo := Reader.count_of_peek hp (by simp)
    rw [if_pos hp]
    refine settles_advance fun r₁ h₁ => settles_peek ?_
    by_cases hclose : r₁.peek = .mark close
    · rw [if_pos hclose]
      exact settles_pure (by omega)
    · rw [if_neg hclose]
      refine settles_advance fun r₂ h₂ => ?_
      refine settles_bind (h.expr lowestPrecedence r₂ (by omega)) fun item r₃ h₃ hone₃ => ?_
      exact settles_bind (h.moreItems close r₃ hone₃ (by omega)) fun _ _ _ h₄ => settles_pure h₄
  · rw [if_neg hp]
    exact settles_pure hr

theorem entries_succ (hr : 1 ≤ r.count) (hn : 8 * r.count + 2 ≤ n + 1) :
    Settles r (2 ≤ ·.count) (Grammar.entries (n + 1) r) := by
  refine settles_peek ?_
  by_cases hp : r.peek = .mark .rightBrace
  · rw [if_pos hp]
    exact settles_pure (Reader.count_of_peek hp (by simp))
  · rw [if_neg hp]
    refine settles_advance fun r₁ h₁ => ?_
    refine settles_bind (h.expr lowestPrecedence r₁ (by omega)) fun key r₂ h₂ _ => ?_
    refine settles_expect (by simp) fun r₃ h₃ _ => settles_advance fun r₄ h₄ => ?_
    refine settles_bind (h.expr lowestPrecedence r₄ (by omega)) fun value r₅ h₅ hone₅ => ?_
    have hmore : ∀ r₆ : Reader, r₆.count ≤ r₅.count → 1 ≤ r₆.count →
        Settles r₆ (2 ≤ ·.count)
          ((Grammar.entries n >>= fun more => pure ((key, value) :: more)) r₆) :=
      fun r₆ h₆ hone₆ =>
        settles_bind (h.entries r₆ hone₆ (by omega)) fun _ _ _ h₇ => settles_pure h₇
    refine settles_peek ?_
    by_cases hclose : r₅.peek = .mark .rightBrace
    · rw [if_pos hclose]
      exact hmore r₅ (Nat.le_refl _) hone₅
    · rw [if_neg hclose]
      exact settles_expect (by simp) fun r₆ h₆ hone₆ => hmore r₆ (by omega) hone₆

theorem block_succ (hr : 1 ≤ r.count) (hn : 8 * r.count + 2 ≤ n + 1) :
    Lands r (Grammar.block (n + 1) r) :=
  settles_advance fun r₁ h₁ => h.blockRest r₁ (by omega)

theorem blockRest_succ (hn : 8 * r.count + 6 ≤ n + 1) : Lands r (Grammar.blockRest (n + 1) r) := by
  have hmore : 1 ≤ r.count → Lands r ((do
      let first ← attempt (Grammar.statement n)
      advance
      let more ← Grammar.blockRest n
      pure (first.toList ++ more) : Parse (List Stmt)) r) := fun hone =>
    settles_bind (settles_attempt (h.statement r (by omega))) fun _ r₁ h₁ _ =>
      settles_advance fun r₂ h₂ =>
        settles_bind (h.blockRest r₂ (by omega)) fun _ _ _ h₃ => settles_pure h₃
  refine settles_current ?_
  cases hc : r.current with
  | eof => exact settles_complainOnce _
  | mark m =>
    have hone := Reader.count_of_current hc (by simp)
    cases m with
    | rightBrace => exact settles_pure hone
    | _ => exact hmore hone
  | _ => exact hmore (Reader.count_of_current hc (by simp))

theorem statement_succ (hn : 8 * r.count + 5 ≤ n + 1) : Lands r (Grammar.statement (n + 1) r) := by
  have hvalue : ∀ (g : Expr → Stmt) (r₁ : Reader), 8 * r₁.count + 4 ≤ n → Lands r₁ ((do
      let value ← Grammar.expr n lowestPrecedence
      skipSemicolon
      pure (g value) : Parse Stmt) r₁) := fun g r₁ h₁ =>
    settles_bind (h.expr lowestPrecedence r₁ h₁) fun _ _ _ h₂ =>
      settles_skipSemicolon h₂ fun _ _ h₃ => settles_pure h₃
  have hnamed : ∀ g : String → Expr → Stmt, Lands r ((do
      let name ← expectName
      expect (.mark .assign)
      advance
      let value ← Grammar.expr n lowestPrecedence
      skipSemicolon
      pure (g name value) : Parse Stmt) r) := fun g =>
    settles_expectName fun x r₁ h₁ _ => settles_expect (by simp) fun r₂ h₂ _ =>
      settles_advance fun r₃ h₃ => hvalue (g x) r₃ (by omega)
  refine settles_line fun line => settles_current ?_
  cases hc : r.current with
  | mark m =>
    have hone := Reader.count_of_current hc (by simp)
    cases m with
    | semicolon => exact settles_fail
    | setWord => exact hnamed _
    | anewWord => exact hnamed _
    | returnWord =>
      have hnone : Lands r ((do
          skipSemicolon
          pure (Stmt.giveBack none line) : Parse Stmt) r) :=
        settles_skipSemicolon hone fun _ _ h₁ => settles_pure h₁
      have hsome : Lands r ((do
          advance
          let value ← Grammar.expr n lowestPrecedence
          skipSemicolon
          pure (Stmt.giveBack (some value) line) : Parse Stmt) r) :=
        settles_advance fun r₁ h₁ => hvalue _ r₁ (by omega)
      refine settles_peek ?_
      cases r.peek with
      | eof => exact hnone
      | mark m => cases m with
        | semicolon | rightBrace => exact hnone
        | _ => exact hsome
      | _ => exact hsome
    | includeWord =>
      exact settles_expectText fun _ _ _ h₁ =>
        settles_skipSemicolon h₁ fun _ _ h₂ => settles_pure h₂
    | breakWord | continueWord =>
      exact settles_skipSemicolon hone fun _ _ h₁ => settles_pure h₁
    | _ => exact hvalue _ r (by omega)
  | _ => exact hvalue _ r (by omega)

end Ample

theorem ample (n : Nat) : Ample n := by
  induction n with
  | zero => constructor <;> intros <;> omega
  | succ n h =>
    exact ⟨fun power r => h.expr_succ r power, fun power left r => h.climb_succ r power left,
      fun m left r => h.extend_succ r m left, fun r => h.operand_succ r,
      fun r => h.conditional_succ r, fun close r => h.items_succ r close,
      fun close r => h.moreItems_succ r close, fun r => h.entries_succ r,
      fun r => h.block_succ r, fun r => h.blockRest_succ r, fun r => h.statement_succ r⟩

/-! ### Whole texts -/

theorem attempt_ends {α : Type} {p : Parse α} {r : Reader} {Q : Reader → Prop}
    (h : Settles r Q (p r)) :
    (∃ a r', attempt p r = (.got a, r') ∧ r.Onto r') ∨
      ∃ e r', attempt p r = (.broken e, r') ∧ r.fault = some e := by
  unfold attempt
  cases hp : p r with
  | mk a r' =>
    rw [hp] at h
    cases a with
    | got a => exact .inl ⟨_, _, rfl, h.1⟩
    | failed => exact .inl ⟨_, _, rfl, h⟩
    | broken e => exact .inr ⟨_, _, rfl, h⟩
    | exhausted => exact h.elim

/-- Statement after statement is read, up to the end of the text or to the numeral there. -/
theorem statements_ends (n : Nat) (r : Reader) (hn : 8 * r.count + 6 ≤ n) :
    (∃ q r', statements n r = (.got q, r') ∧ r'.current = .eof ∧ r.Onto r') ∨
      ∃ e r', statements n r = (.broken e, r') ∧ r.fault = some e := by
  induction n generalizing r with
  | zero => omega
  | succ n ih =>
    by_cases hc : r.current = .eof
    · exact .inl ⟨[], r, statements_of_eof hc n, hc, .refl r⟩
    · have hone := Reader.count_of_current rfl hc
      rw [statements_of_ne_eof hc]
      rcases attempt_ends ((ample n).statement r (by omega)) with
        ⟨first, r₁, h₁, ho₁⟩ | ⟨e, r₁, h₁, hf⟩
      · rw [bind_of_got h₁]
        rcases r₁.advance_cases with ⟨r₂, h₂, hs₂, -, -⟩ | ⟨e, h₂, -, hf⟩
        · have hcount : r₂.count = r₁.count - 1 := by simp [Reader.count, hs₂]
          have hle := ho₁.count_le
          have ho : r.Onto r₂ := ho₁.trans (.of_advance h₂)
          have hadvance : advance r₁ = (.got (), r₂) := by rw [advance, h₂]
          rw [bind_of_got hadvance]
          rcases ih r₂ (by omega) with ⟨q, r₃, h₃, hc₃, ho₃⟩ | ⟨e, r₃, h₃, hf⟩
          · exact .inl ⟨_, r₃, bind_of_got h₃, hc₃, ho.trans ho₃⟩
          · refine .inr ⟨e, r₃, ?_, ho.fault_eq.symm.trans hf⟩
            rw [bind_apply, h₃]
        · refine .inr ⟨e, r₁, ?_, ho₁.fault_eq.symm.trans hf⟩
          rw [bind_apply, advance, h₂]
      · refine .inr ⟨e, r₁, ?_, hf⟩
        rw [bind_apply, h₁]

theorem count_start_le {source : String} {r : Reader} (h : Reader.start source = .ok r) :
    8 * r.count + 6 ≤ bound source := by
  have hle := (Lexer.Cursor.start source).length_signs_le
  rcases Reader.start_cases source with ⟨r', hr', hs, -, -⟩ | ⟨e, he, -⟩
  · rw [h] at hr'
    cases hr'
    rw [Lexer.Cursor.start, String.length_toList] at hle
    rw [Reader.count, hs, bound, Lexer.Cursor.start]
    omega
  · rw [h] at he
    cases he

end Grammar

theorem tokenize_eq (source : String) :
    tokenize source =
      match (Lexer.Cursor.start source).fault with
      | none => .ok (Lexer.Cursor.start source).tokens.1
      | some e => .error e := by
  rw [tokenize, Lexer.Cursor.fault]
  rcases (Lexer.Cursor.start source).tokens with ⟨ts, _ | e⟩ <;> rfl

/-- A text is read up to its end, if its tokens are; otherwise the same numeral stops both. -/
theorem Parsed.ofSource_cases (source : String) :
    (∃ e, tokenize source = .error e ∧ ofSource source = .error e) ∨
    ∃ tokens r program r', tokenize source = .ok tokens ∧ Reader.start source = .ok r ∧
      r.signs = Token.signs tokens ∧ r.fault = none ∧ r.errors = [] ∧
      Grammar.statements (Grammar.bound source) r = (.got program, r') ∧ r'.current = .eof ∧
      ofSource source = .ok ⟨program, r'.errors⟩ := by
  have htokens := tokenize_eq source
  rcases Reader.start_cases source with ⟨r, hr, hs, hf, he⟩ | ⟨e, hr, hf⟩
  · rcases Grammar.statements_ends _ r (Grammar.count_start_le hr) with
      ⟨program, r', hrun, hc, ho⟩ | ⟨e, r', hrun, hfault⟩
    · have hnone : r.fault = none := ho.fault_eq.symm.trans (r'.signs_of_current hc).2
      rw [← hf, hnone] at htokens
      refine .inr ⟨_, r, program, r', htokens, hr, hs, hnone, he, hrun, hc, ?_⟩
      simp only [ofSource, ofReader, hr, hrun]
    · rw [← hf, hfault] at htokens
      refine .inl ⟨e, htokens, ?_⟩
      simp only [ofSource, ofReader, hr, hrun]
  · rw [hf] at htokens
    refine .inl ⟨e, htokens, ?_⟩
    simp only [ofSource, hr]

end MeowLang
