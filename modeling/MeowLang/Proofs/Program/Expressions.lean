import MeowLang.Proofs.Program.Reading
import MeowLang.Proofs.Program.Written

/-! Expressions read back from their words. Each kind of expression is read from the terminals
that spell it, wherever it stands and with a bound of eight readings for each of them, if the
expressions inside it are. -/
namespace MeowLang.Written

open Parse Grammar

/-- A terminal that some expression begins with. -/
def startsExpr : Terminal → Bool
  | .ident _ | .number _ | .string _ | .boolean _ => true
  | .mark m =>
    [Mark.leftParen, .ifWord, .functionWord, .leftBracket, .leftBrace, .typeofWord, .loopWord,
      .bang, .minus, .plus].contains m
  | _ => false

/-- A terminal that ends an expression whose operators bind more tightly than `power`. -/
structure Ends (power : Nat) (next : Terminal) : Prop where
  precedence_le : next.kind.precedence ≤ power
  ne_else : next ≠ .mark .elseWord

variable (style : Style)

def Style.terms (e : Expr) : List Terminal := (style.expr e).map Word.terminal

def Style.inner (e : Expr) : List Terminal := (style.wrap e (style.expr e)).map Word.terminal

/-- An expression is read back from its terminals. -/
structure ReadsExpr (e : Expr) : Prop where
  starts : ∃ t us, style.terms e = t :: us ∧ startsExpr t = true
  closed : ∀ n next, e.isClosed = true → next ≠ .mark .elseWord →
    8 * (style.terms e).length ≤ n + 1 → Reads (style.terms e) next e.Denotes (operand n)
  whole : ∀ n next, Ends lowestPrecedence next → 8 * (style.terms e).length ≤ n →
    Reads (style.terms e) next e.Denotes (expr n lowestPrecedence)

variable {style} {e : Expr} {n power : Nat} {next : Terminal} {ts : List Terminal}

/-! ### Expressions and the operators behind them -/

theorem Ends.mono {power' : Nat} (h : Ends power next) (hp : power ≤ power') : Ends power' next :=
  ⟨Nat.le_trans h.precedence_le hp, h.ne_else⟩

theorem goesOn_climb {Q : MeowLang.Expr → Prop} {left : MeowLang.Expr} (hl : Q left) (hn : 0 < n)
    (h : Ends power next) : GoesOn [] next Q (climb n power left) := by
  obtain ⟨n, rfl⟩ : ∃ k, n = k + 1 := ⟨n - 1, by omega⟩
  refine goesOn_peek ?_
  cases next with
  | mark m =>
    have hm : ¬ power < m.precedence := Nat.not_lt.mpr h.precedence_le
    simp only [List.headD_nil, if_neg hm]
    exact goesOn_pure hl
  | _ => exact goesOn_pure hl

theorem reads_expr_of_operand {Q : MeowLang.Expr → Prop} (hn : 0 < n) (h : Ends power next)
    (ho : Reads ts next Q (operand n)) : Reads ts next Q (expr (n + 1) power) :=
  reads_bind_nil ho fun _ hl => goesOn_climb hl hn h

/-! ### Expressions inside others -/

theorem Style.inner_of_bare (h : style.bare e = true) : style.inner e = style.terms e := by
  simp only [inner, terms, wrap, h, if_true]

theorem Style.inner_of_not_bare (h : style.bare e = false) :
    style.inner e = .mark .leftParen :: (style.terms e ++ [.mark .rightParen]) := by
  simp [inner, terms, wrap, h, Word.terminal]

namespace ReadsExpr

variable (h : ReadsExpr style e)

include h

theorem inner_starts : ∃ t us, style.inner e = t :: us ∧ startsExpr t = true := by
  cases hb : style.bare e with
  | true => rw [Style.inner_of_bare hb]; exact h.starts
  | false => exact ⟨_, _, Style.inner_of_not_bare hb, rfl⟩

theorem operand (hn : 8 * (style.inner e).length ≤ n + 1) (hnext : next ≠ .mark .elseWord) :
    Reads (style.inner e) next e.Denotes (operand n) := by
  cases hb : style.bare e with
  | true =>
    rw [Style.inner_of_bare hb] at hn ⊢
    exact h.closed n next (style.isClosed_of_bare e hb) hnext hn
  | false =>
    rw [Style.inner_of_not_bare hb] at hn ⊢
    simp only [List.length_cons, List.length_append, List.length_nil] at hn
    obtain ⟨n, rfl⟩ : ∃ k, n = k + 1 := ⟨n - 1, by omega⟩
    refine reads_line fun line => reads_current (GoesOn.reads (goesOn_advance ?_) _)
    have hend : Ends lowestPrecedence (.mark .rightParen) := ⟨by decide, by decide⟩
    refine reads_bind (reads_attempt (h.whole n _ hend (by omega))) fun o ho => ?_
    obtain ⟨a, rfl, ha⟩ := ho
    exact goesOn_expect rfl (GoesOn.reads (goesOn_pure ha) _)

theorem length_inner_pos : 1 ≤ (style.inner e).length := by
  obtain ⟨t, us, hi, -⟩ := h.inner_starts
  rw [hi, List.length_cons]
  omega

theorem expr (hn : 8 * (style.inner e).length ≤ n) (hnext : Ends power next) :
    Reads (style.inner e) next e.Denotes (expr n power) := by
  have hlen := h.length_inner_pos
  obtain ⟨n, rfl⟩ : ∃ k, n = k + 1 := ⟨n - 1, by omega⟩
  exact reads_expr_of_operand (by omega) hnext (h.operand (by omega) hnext.ne_else)

end ReadsExpr

/-- A closed expression is read whole if its operand is. -/
theorem readsExpr_of_closed {t : Terminal} {us : List Terminal} (hterms : style.terms e = t :: us)
    (ht : startsExpr t = true)
    (h : ∀ n next, next ≠ .mark .elseWord → 8 * (us.length + 1) ≤ n + 2 →
      Reads (t :: us) next e.Denotes (Grammar.operand (n + 1))) : ReadsExpr style e := by
  refine ⟨⟨t, us, hterms, ht⟩, fun n next _ hnext hn => ?_, fun n next hnext hn => ?_⟩
  all_goals
    rw [hterms] at hn ⊢
    rw [List.length_cons] at hn
  · obtain ⟨n, rfl⟩ : ∃ k, n = k + 1 := ⟨n - 1, by omega⟩
    exact h n next hnext (by omega)
  · obtain ⟨n, rfl⟩ : ∃ k, n = k + 2 := ⟨n - 2, by omega⟩
    exact reads_expr_of_operand (by omega) hnext (h n next hnext.ne_else (by omega))

/-! ### Literals and identifiers -/

theorem readsExpr_ident (x : Name) : ReadsExpr style (.ident x) :=
  readsExpr_of_closed rfl rfl fun _ _ _ _ =>
    reads_line fun _ => reads_current (GoesOn.reads (goesOn_pure .ident) _)

theorem readsExpr_number (q : Numeral) : ReadsExpr style (.number q) :=
  readsExpr_of_closed rfl rfl fun _ _ _ _ =>
    reads_line fun _ => reads_current (GoesOn.reads (goesOn_pure .number) _)

theorem readsExpr_string (b : Quotation) : ReadsExpr style (.string b) :=
  readsExpr_of_closed rfl rfl fun _ _ _ _ =>
    reads_line fun _ => reads_current (GoesOn.reads (goesOn_pure .string) _)

theorem readsExpr_bool (b : Bool) : ReadsExpr style (.bool b) :=
  readsExpr_of_closed rfl rfl fun _ _ _ _ =>
    reads_line fun _ => reads_current (GoesOn.reads (goesOn_pure .bool) _)

/-! ### Sequences of expressions -/

/-- The terminals of the expressions behind the first one, each with its comma. -/
def Style.more (style : Style) (es : List Expr) : List Terminal :=
  (Style.comma es ++ style.all es).map Word.terminal

theorem Style.more_cons (e : Expr) (es : List Expr) :
    style.more (e :: es) = .mark .comma :: (style.inner e ++ style.more es) := by
  simp [more, inner, comma, all, Word.terminal]

theorem Style.map_all_cons (e : Expr) (es : List Expr) :
    (style.all (e :: es)).map Word.terminal = style.inner e ++ style.more es := by
  simp [more, inner, all]

theorem Style.headD_more (style : Style) (es : List Expr) (close : Mark) :
    (style.more es).headD (.mark close) = .mark .comma ∨
      (style.more es).headD (.mark close) = .mark close := by
  cases es with
  | nil => exact .inr rfl
  | cons e es => rw [more_cons]; exact .inl rfl

/-- The brackets that sequences of expressions stand in. -/
abbrev IsClosing (m : Mark) : Prop := m = .rightParen ∨ m = .rightBracket

theorem ends_more (style : Style) (es : List Expr) {close : Mark} (hc : IsClosing close) :
    Ends lowestPrecedence ((style.more es).headD (.mark close)) := by
  rcases style.headD_more es close with h | h <;> rw [h]
  · exact ⟨by decide, by decide⟩
  · rcases hc with rfl | rfl <;> exact ⟨by decide, by decide⟩

theorem ne_closing {t : Terminal} {close : Mark} (ht : startsExpr t = true)
    (hc : IsClosing close) : t ≠ .mark close := by
  rintro rfl
  rcases hc with rfl | rfl <;> cases ht

theorem headD_append_of_eq_cons {t next : Terminal} {us vs : List Terminal} (h : ts = t :: us) :
    (ts ++ vs).headD next = t := by
  rw [h]
  rfl

theorem headD_append_singleton (ts : List Terminal) (t next : Terminal) :
    (ts ++ [t]).headD next = ts.headD t := by
  cases ts <;> rfl

theorem goesOn_moreItems {close : Mark} (hc : IsClosing close) (es : List Expr)
    (h : ∀ e ∈ es, ReadsExpr style e) (n : Nat) (hn : 8 * (style.more es).length + 1 ≤ n) :
    GoesOn (style.more es) (.mark close) (List.Forall₂ Expr.Denotes es) (moreItems n close) := by
  induction es generalizing n with
  | nil =>
    obtain ⟨n, rfl⟩ : ∃ k, n = k + 1 := ⟨n - 1, by omega⟩
    refine goesOn_peek ?_
    have hne : Terminal.mark close ≠ .mark .comma := by
      rcases hc with rfl | rfl <;> decide
    change GoesOn [] _ _ (if Terminal.mark close = .mark .comma then _ else _)
    rw [if_neg hne]
    exact goesOn_pure .nil
  | cons e es ih =>
    have he := h e List.mem_cons_self
    obtain ⟨t, us, hi, ht⟩ := he.inner_starts
    rw [Style.more_cons] at hn ⊢
    simp only [List.length_cons, List.length_append] at hn
    obtain ⟨n, rfl⟩ : ∃ k, n = k + 1 := ⟨n - 1, by omega⟩
    refine goesOn_peek ?_
    rw [List.headD_cons, if_pos rfl]
    refine goesOn_advance (GoesOn.reads (goesOn_peek ?_) _)
    rw [headD_append_of_eq_cons hi, if_neg (ne_closing ht hc)]
    refine goesOn_advance (reads_bind (he.expr (by omega) (ends_more style es hc)) fun a ha => ?_)
    have hrest := ih (fun e he => h e (List.mem_cons_of_mem _ he)) n (by omega)
    exact goesOn_map hrest fun more hmore => .cons ha hmore

theorem reads_items {close : Mark} (hc : IsClosing close) (es : List Expr)
    (h : ∀ e ∈ es, ReadsExpr style e) (opening : Terminal)
    (hn : 8 * ((style.all es).length + 2) ≤ n + 2) :
    Reads (opening :: ((style.all es).map Word.terminal ++ [.mark close])) next
      (List.Forall₂ Expr.Denotes es) (items n close) := by
  obtain ⟨n, rfl⟩ : ∃ k, n = k + 1 := ⟨n - 1, by omega⟩
  refine GoesOn.reads (goesOn_peek ?_) _
  cases es with
  | nil =>
    rw [if_pos (by rfl)]
    exact goesOn_advance (GoesOn.reads (goesOn_pure .nil) _)
  | cons e es =>
    have he := h e List.mem_cons_self
    obtain ⟨t, us, hi, ht⟩ := he.inner_starts
    have hlen := congrArg List.length (style.map_all_cons e es)
    rw [List.length_map, List.length_append] at hlen
    rw [Style.map_all_cons]
    rw [List.append_assoc, headD_append_of_eq_cons hi, if_neg (ne_closing ht hc)]
    have hm := goesOn_moreItems hc es (fun e he => h e (List.mem_cons_of_mem _ he)) n (by omega)
    refine goesOn_advance (reads_bind (he.expr (by omega) ?_) fun a ha =>
      goesOn_bind hm fun more hmore =>
        goesOn_expect rfl (GoesOn.reads (goesOn_pure (.cons ha hmore)) _))
    rw [headD_append_singleton]
    exact ends_more style es hc

theorem goesOn_entries (es : List (Expr × Expr))
    (h : ∀ p ∈ es, ReadsExpr style p.1 ∧ ReadsExpr style p.2) (n : Nat)
    (hn : 8 * (style.pairs es).length + 1 ≤ n) :
    GoesOn ((style.pairs es).map Word.terminal) (.mark .rightBrace)
      (List.Forall₂ Expr.DenotesEntry es) (entries n) := by
  induction es generalizing n with
  | nil =>
    obtain ⟨n, rfl⟩ : ∃ k, n = k + 1 := ⟨n - 1, by omega⟩
    refine goesOn_peek ?_
    rw [if_pos (by rfl)]
    exact goesOn_pure .nil
  | cons p es ih =>
    obtain ⟨k, v⟩ := p
    obtain ⟨hk, hv⟩ : ReadsExpr style k ∧ ReadsExpr style v := h _ List.mem_cons_self
    obtain ⟨t, us, hi, ht⟩ := hk.inner_starts
    have hterms : (style.pairs ((k, v) :: es)).map Word.terminal =
        style.inner k ++ .mark .colon :: (style.inner v ++
          ((Style.comma es).map Word.terminal ++ (style.pairs es).map Word.terminal)) := by
      simp [Style.pairs, Style.inner, Word.terminal]
    have hlen := congrArg List.length hterms
    simp only [List.length_map, List.length_append, List.length_cons] at hlen
    rw [hterms]
    obtain ⟨n, rfl⟩ : ∃ k, n = k + 1 := ⟨n - 1, by omega⟩
    have hrest := ih (fun p hp => h p (List.mem_cons_of_mem _ hp)) n (by omega)
    have hne : t ≠ .mark .rightBrace := by
      rintro rfl
      cases ht
    have ends : ∀ m ∈ [Mark.colon, .comma, .rightBrace], Ends lowestPrecedence (.mark m) := by
      intro m hm
      simp only [List.mem_cons, List.not_mem_nil, or_false] at hm
      rcases hm with rfl | rfl | rfl <;> exact ⟨by decide, by decide⟩
    refine goesOn_peek ?_
    rw [headD_append_of_eq_cons hi, if_neg hne]
    refine goesOn_advance (reads_bind (hk.expr (by omega) (ends .colon (by simp))) fun k' hk' => ?_)
    refine goesOn_expect rfl (GoesOn.reads (goesOn_advance ?_) _)
    -- the comma stands only between entries
    cases es with
    | nil =>
      refine reads_bind (hv.expr (by omega) (ends .rightBrace (by simp))) fun v' hv' =>
        goesOn_peek ?_
      rw [if_pos (by rfl)]
      exact goesOn_map hrest fun more hmore => .cons ⟨hk', hv'⟩ hmore
    | cons p es =>
      refine reads_bind (hv.expr (by omega) (ends .comma (by simp))) fun v' hv' => goesOn_peek ?_
      rw [if_neg (fun h => by cases h)]
      exact goesOn_expect rfl
        (GoesOn.reads (goesOn_map hrest fun more hmore => .cons ⟨hk', hv'⟩ hmore) _)

theorem readsExpr_array {es : List Expr} (h : ∀ e ∈ es, ReadsExpr style e) :
    ReadsExpr style (.array es) := by
  have hterms : style.terms (.array es) =
      .mark .leftBracket :: ((style.all es).map Word.terminal ++ [.mark .rightBracket]) := by
    simp [Style.terms, Style.expr, Word.terminal]
  refine readsExpr_of_closed hterms rfl fun n next _ hn => ?_
  simp only [List.length_cons, List.length_append, List.length_map, List.length_nil] at hn
  exact reads_line fun line => reads_current
    (reads_map (reads_items (.inr rfl) es h _ (by omega)) fun _ hitems => .array hitems)

theorem readsExpr_object {es : List (Expr × Expr)}
    (h : ∀ p ∈ es, ReadsExpr style p.1 ∧ ReadsExpr style p.2) :
    ReadsExpr style (.object es) := by
  have hterms : style.terms (.object es) =
      .mark .leftBrace :: ((style.pairs es).map Word.terminal ++ [.mark .rightBrace]) := by
    simp [Style.terms, Style.expr, Word.terminal]
  refine readsExpr_of_closed hterms rfl fun n next _ hn => ?_
  simp only [List.length_cons, List.length_append, List.length_map, List.length_nil] at hn
  refine reads_line fun line => reads_current (GoesOn.reads ?_ _)
  exact goesOn_bind (goesOn_entries es h n (by omega)) fun _ hentries =>
    goesOn_advance (GoesOn.reads (goesOn_pure (.object hentries)) _)

/-! ### Operators, calls and indices -/

/-- An operator before an expression. -/
theorem readsExpr_of_prefix {f : Expr} {m : Mark} (ho : e.isClosed = false)
    (hterms : style.terms e = .mark m :: style.inner f) (hm : startsExpr (.mark m) = true)
    (hf : ReadsExpr style f)
    (h : ∀ n next, Reads (style.inner f) next f.Denotes (expr n prefixPrecedence) →
      Reads (.mark m :: style.inner f) next e.Denotes (operand (n + 1))) : ReadsExpr style e := by
  refine ⟨⟨_, _, hterms, hm⟩, fun _ _ hc => ?_, fun n next hnext hn => ?_⟩
  · rw [ho] at hc
    cases hc
  · rw [hterms] at hn ⊢
    rw [List.length_cons] at hn
    obtain ⟨n, rfl⟩ : ∃ k, n = k + 2 := ⟨n - 2, by omega⟩
    exact reads_expr_of_operand (by omega) hnext
      (h n next (hf.expr (by omega) (hnext.mono (by decide))))

theorem readsExpr_prefixed (op : PrefixOp) (h : ReadsExpr style e) :
    ReadsExpr style (.prefixed op e) := by
  have hterms : style.terms (.prefixed op e) = .mark op.mark :: style.inner e := by
    simp [Style.terms, Style.inner, Style.expr, Word.terminal]
  obtain ⟨mark, op, spells⟩ := op
  cases mark <;> cases spells
  all_goals
    exact readsExpr_of_prefix rfl hterms rfl h fun n next he => reads_line fun line =>
      reads_current (GoesOn.reads (goesOn_advance (reads_map he fun _ ha => .prefixed ha)) _)

theorem readsExpr_kindOf (h : ReadsExpr style e) : ReadsExpr style (.kindOf e) := by
  have hterms : style.terms (.kindOf e) = .mark .typeofWord :: style.inner e := by
    simp [Style.terms, Style.inner, Style.expr, Word.terminal]
  exact readsExpr_of_prefix rfl hterms rfl h fun n next he => reads_line fun line =>
    reads_current (GoesOn.reads (goesOn_advance (reads_map he fun _ ha => .kindOf ha)) _)

/-- An operand followed by something that binds it is not followed by a second branch. -/
theorem ne_else_of_lt {m : Mark} (h : lowestPrecedence < m.precedence) :
    Terminal.mark m ≠ .mark .elseWord := by
  rintro ⟨⟩
  exact absurd h (by decide)

/-- One operator, call or index behind an operand, and nothing more. -/
theorem readsExpr_of_extend {f : Expr} {m : Mark} {us : List Terminal} (ho : e.isClosed = false)
    (hterms : style.terms e = style.inner f ++ .mark m :: us) (hf : ReadsExpr style f)
    (hm : lowestPrecedence < m.precedence)
    (h : ∀ n next left, Ends lowestPrecedence next → 8 * (us.length + 1) ≤ n → f.Denotes left →
      Reads (.mark m :: us) next e.Denotes (extend (n + 1) m left)) : ReadsExpr style e := by
  obtain ⟨t, vs, hi, ht⟩ := hf.inner_starts
  refine ⟨⟨t, _, by rw [hterms, hi]; rfl, ht⟩, fun _ _ hc => ?_, fun n next hnext hn => ?_⟩
  · rw [ho] at hc
    cases hc
  · have hlen := hf.length_inner_pos
    rw [hterms] at hn ⊢
    simp only [List.length_append, List.length_cons] at hn
    obtain ⟨n, rfl⟩ : ∃ k, n = k + 3 := ⟨n - 3, by omega⟩
    have hoperand := hf.operand (n := n + 2) (by omega) (ne_else_of_lt hm)
    refine reads_bind hoperand fun left hleft => goesOn_peek ?_
    -- the mark binds the operand before it, and what stands behind its right side binds neither
    simp only [List.headD_cons, if_pos hm]
    exact goesOn_advance (reads_bind_nil (h n next left hnext (by omega) hleft)
      fun _ ha => goesOn_climb ha (by omega) hnext)

theorem extend_of_binaryOp {m : Mark} {op : Op} (h : m.binaryOp? = some op) (n : Nat)
    (left : MeowLang.Expr) :
    extend (n + 1) m left = line >>= fun line => advance >>= fun _ => expr n m.precedence >>=
      fun right => pure (.between op left right line) := by
  cases m <;> cases h <;> rfl

theorem lowestPrecedence_lt {m : Mark} {op : Op} (h : m.binaryOp? = some op) :
    lowestPrecedence < m.precedence := by
  cases m <;> cases h <;> decide

theorem readsExpr_between (op : InfixOp) {l r : Expr} (hl : ReadsExpr style l)
    (hr : ReadsExpr style r) : ReadsExpr style (.between op l r) := by
  have hterms : style.terms (.between op l r) =
      style.inner l ++ .mark op.mark :: style.inner r := by
    simp [Style.terms, Style.inner, Style.expr, Word.terminal]
  have hprec := lowestPrecedence_lt op.spells
  refine readsExpr_of_extend rfl hterms hl hprec fun n next left hnext hn hleft => ?_
  have he := hr.expr (n := n) (by omega) (hnext.mono (Nat.le_of_lt hprec))
  rw [extend_of_binaryOp op.spells]
  exact reads_line fun line =>
    GoesOn.reads (goesOn_advance (reads_map he fun _ ha => .between hleft ha)) _

theorem readsExpr_call {f : Expr} {args : List Expr} (hf : ReadsExpr style f)
    (hargs : ∀ e ∈ args, ReadsExpr style e) : ReadsExpr style (.call f args) := by
  have hterms : style.terms (.call f args) = style.inner f ++
      .mark .leftParen :: ((style.all args).map Word.terminal ++ [.mark .rightParen]) := by
    simp [Style.terms, Style.inner, Style.expr, Word.terminal]
  refine readsExpr_of_extend rfl hterms hf (by decide) fun n next left _ hn hleft => ?_
  simp only [List.length_append, List.length_map, List.length_cons, List.length_nil] at hn
  exact reads_line fun line =>
    reads_map (reads_items (.inl rfl) args hargs _ (by omega)) fun _ ha => .call hleft ha

theorem readsExpr_index {c i : Expr} (hc : ReadsExpr style c) (hi : ReadsExpr style i) :
    ReadsExpr style (.index c i) := by
  have hterms : style.terms (.index c i) = style.inner c ++
      .mark .leftBracket :: (style.inner i ++ [.mark .rightBracket]) := by
    simp [Style.terms, Style.inner, Style.expr, Word.terminal]
  have hend : Ends lowestPrecedence (.mark .rightBracket) := ⟨by decide, by decide⟩
  refine readsExpr_of_extend rfl hterms hc (by decide) fun n next left _ hn hleft => ?_
  rw [List.length_append] at hn
  refine reads_line fun line => GoesOn.reads (goesOn_advance ?_) _
  exact reads_bind (hi.expr (by omega) hend) fun _ ha =>
    goesOn_expect rfl (GoesOn.reads (goesOn_pure (.index hleft ha)) _)

end MeowLang.Written
