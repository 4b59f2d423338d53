import MeowLang.Proofs.Program.Expressions

/-! Statements read back from their words, and the expressions that have blocks of statements
in them. -/
namespace MeowLang.Written

open Parse Grammar

variable {style : Style} {e : Expr} {n : Nat} {next : Terminal}

/-! ### Blocks -/

variable (style) in
/-- A statement is read back from its terminals and the semicolon behind them. -/
structure ReadsStmt (t : Stmt) : Prop where
  starts : ∃ u us, (style.stmt t).map Word.terminal = u :: us ∧ u ≠ .mark .rightBrace ∧ u ≠ .eof
  reads : ∀ n next, 8 * ((style.stmt t).length + 1) ≤ n →
    Reads ((style.stmt t).map Word.terminal ++ [.mark .semicolon]) next t.Denotes (statement n)

variable (style) in
def Style.braced (ts : List Stmt) : List Terminal :=
  .mark .leftBrace :: ((style.block ts).map Word.terminal ++ [.mark .rightBrace])

theorem Style.map_block_cons (t : Stmt) (ts : List Stmt) :
    (style.block (t :: ts)).map Word.terminal =
      ((style.stmt t).map Word.terminal ++ [.mark .semicolon]) ++
        (style.block ts).map Word.terminal := by
  simp [block, Word.terminal]

theorem Style.length_block_cons (t : Stmt) (ts : List Stmt) :
    (style.block (t :: ts)).length = (style.stmt t).length + 1 + (style.block ts).length := by
  simp only [block, List.length_append, List.length_cons]
  omega

theorem reads_blockRest (ts : List Stmt) (h : ∀ t ∈ ts, ReadsStmt style t) (n : Nat)
    (hn : 8 * (style.block ts).length + 1 ≤ n) :
    Reads ((style.block ts).map Word.terminal ++ [.mark .rightBrace]) next
      (List.Forall₂ Stmt.Denotes ts) (blockRest n) := by
  induction ts generalizing n with
  | nil =>
    obtain ⟨n, rfl⟩ : ∃ k, n = k + 1 := ⟨n - 1, by omega⟩
    exact reads_current (GoesOn.reads (goesOn_pure .nil) _)
  | cons t ts ih =>
    have ht := h t List.mem_cons_self
    obtain ⟨u, us, hi, hbrace, heof⟩ := ht.starts
    have hrest := ih (fun t ht => h t (List.mem_cons_of_mem _ ht))
    have hlen := style.length_block_cons t ts
    obtain ⟨n, rfl⟩ : ∃ k, n = k + 1 := ⟨n - 1, by omega⟩
    have hone : Reads (((style.stmt t).map Word.terminal ++ [.mark .semicolon]) ++
        ((style.block ts).map Word.terminal ++ [.mark .rightBrace])) next
        (List.Forall₂ Stmt.Denotes (t :: ts))
        ((statement n).attempt >>= fun first => advance >>= fun _ => blockRest n >>= fun more =>
          pure (first.toList ++ more)) := by
      refine reads_bind (reads_attempt (ht.reads n _ (by omega))) fun o ho => ?_
      obtain ⟨a, rfl, ha⟩ := ho
      exact goesOn_advance (reads_map (hrest n (by omega)) fun _ hmore => .cons ha hmore)
    rw [Style.map_block_cons, List.append_assoc]
    refine reads_current ?_
    rw [headD_append_of_eq_cons (by rw [hi, List.cons_append])]
    -- every sign but the two that end a block is left to the statement
    cases u with
    | eof => exact absurd rfl heof
    | mark m => cases m <;> first | exact absurd rfl hbrace | exact hone
    | _ => exact hone

theorem reads_block (ts : List Stmt) (h : ∀ t ∈ ts, ReadsStmt style t)
    (hn : 8 * (style.block ts).length + 2 ≤ n) :
    Reads (style.braced ts) next (List.Forall₂ Stmt.Denotes ts) (Grammar.block n) := by
  obtain ⟨n, rfl⟩ : ∃ k, n = k + 1 := ⟨n - 1, by omega⟩
  exact GoesOn.reads (goesOn_advance (reads_blockRest ts h n (by omega))) _

theorem readsExpr_loop {body : List Stmt} (h : ∀ t ∈ body, ReadsStmt style t) :
    ReadsExpr style (.loop body) := by
  have hterms : style.terms (.loop body) = .mark .loopWord :: style.braced body := by
    simp [Style.terms, Style.expr, Style.braced, Word.terminal]
  refine readsExpr_of_closed hterms rfl fun n next _ hn => ?_
  simp only [Style.braced, List.length_cons, List.length_append, List.length_map] at hn
  refine reads_line fun line => reads_current (GoesOn.reads (goesOn_expect rfl ?_) _)
  exact reads_map (reads_block body h (by omega)) fun _ hbody => .loop hbody

theorem goesOn_names (x : Name) (xs : List Name) (n : Nat)
    (hn : (Style.names (x :: xs)).length ≤ n) :
    GoesOn ((Style.names (x :: xs)).map Word.terminal) (.mark .rightParen)
      (· = (x :: xs).map Name.text) (Grammar.names n) := by
  induction xs generalizing x n with
  | nil =>
    obtain ⟨n, rfl⟩ : ∃ k, n = k + 1 := ⟨n - 1, by simp [Style.names] at hn; omega⟩
    refine goesOn_advance (reads_current (GoesOn.reads (goesOn_peek ?_) _))
    rw [if_neg (fun h => by cases h)]
    exact goesOn_pure rfl
  | cons y xs ih =>
    have hlen : (Style.names (x :: y :: xs)).length = (Style.names (y :: xs)).length + 2 := rfl
    obtain ⟨n, rfl⟩ : ∃ k, n = k + 1 := ⟨n - 1, by omega⟩
    refine goesOn_advance (reads_current (GoesOn.reads (goesOn_peek ?_) _))
    rw [if_pos (by rfl)]
    refine goesOn_advance (GoesOn.reads (goesOn_map (ih y n (by omega)) ?_) _)
    rintro _ rfl
    rfl

theorem reads_params (xs : List Name) (opening : Terminal)
    (hn : (Style.names xs).length ≤ n) :
    Reads (opening :: ((Style.names xs).map Word.terminal ++ [.mark .rightParen])) next
      (· = xs.map Name.text) (params n) := by
  refine GoesOn.reads (goesOn_peek ?_) _
  cases xs with
  | nil =>
    rw [if_pos (by rfl)]
    exact goesOn_advance (GoesOn.reads (goesOn_pure (by rfl)) _)
  | cons x xs =>
    rw [if_neg (fun h => by cases h)]
    refine goesOn_bind (goesOn_names x xs n hn) fun _ hnames => goesOn_expect rfl ?_
    exact GoesOn.reads (goesOn_pure (by exact hnames)) _

theorem readsExpr_function (xs : List Name) {body : List Stmt}
    (h : ∀ t ∈ body, ReadsStmt style t) : ReadsExpr style (.function xs body) := by
  have hterms : style.terms (.function xs body) = .mark .functionWord :: .mark .leftParen ::
      (((Style.names xs).map Word.terminal ++ [.mark .rightParen]) ++ style.braced body) := by
    simp [Style.terms, Style.expr, Style.braced, Word.terminal]
  refine readsExpr_of_closed hterms rfl fun n next _ hn => ?_
  simp only [Style.braced, List.length_cons, List.length_append, List.length_map] at hn
  refine reads_line fun line => reads_current (GoesOn.reads (goesOn_expect rfl ?_) _)
  rw [← List.cons_append]
  refine reads_bind (reads_params xs _ (by omega)) fun ys hys => goesOn_expect rfl ?_
  subst hys
  exact reads_map (reads_block body h (by omega)) fun _ hbody => .function hbody

/-! ### Conditions -/

/-- A condition up to its first branch; `us` is what stands behind that. -/
theorem reads_conditional {Q : MeowLang.Expr → Prop} {yes : List Stmt} {us : List Terminal}
    (he : ReadsExpr style e) (hyes : ∀ t ∈ yes, ReadsStmt style t) (opening : Terminal)
    (hn : 8 * ((style.inner e).length + (style.braced yes).length) ≤ n)
    (hrest : ∀ test yes' line, e.Denotes test → List.Forall₂ Stmt.Denotes yes yes' →
      GoesOn us next Q do
        if (← peek) = .mark .elseWord then
          advance
          if (← peek) = .mark .ifWord then
            advance
            let nested ← conditional n
            pure (.cond test yes' (some [.expr nested nested.line]) line)
          else
            expect (.mark .leftBrace)
            let no ← block n
            pure (.cond test yes' (some no) line)
        else pure (.cond test yes' none line)) :
    Reads (opening :: .mark .leftParen ::
      (style.inner e ++ .mark .rightParen :: (style.braced yes ++ us))) next Q
      (conditional (n + 1)) := by
  have hend : Ends lowestPrecedence (.mark .rightParen) := ⟨by decide, by decide⟩
  have hlen : (style.braced yes).length = (style.block yes).length + 2 := by
    simp [Style.braced]
  refine reads_line fun line => GoesOn.reads (goesOn_expect rfl ?_) _
  refine GoesOn.reads (goesOn_advance ?_) _
  refine reads_bind (he.expr (by omega) hend) fun test htest => ?_
  refine goesOn_expect rfl (GoesOn.reads (goesOn_expect rfl ?_) _)
  exact reads_bind (reads_block yes hyes (by omega)) fun yes' hyes' => hrest _ _ _ htest hyes'

theorem readsExpr_cond {yes : List Stmt} (he : ReadsExpr style e)
    (hyes : ∀ t ∈ yes, ReadsStmt style t) : ReadsExpr style (.cond e yes) := by
  have hterms : style.terms (.cond e yes) = .mark .ifWord :: .mark .leftParen ::
      (style.inner e ++ .mark .rightParen :: (style.braced yes ++ [])) := by
    simp [Style.terms, Style.inner, Style.expr, Style.braced, Word.terminal]
  refine readsExpr_of_closed hterms rfl fun n next hnext hn => ?_
  simp only [List.length_cons, List.length_append, List.length_nil] at hn
  obtain ⟨n, rfl⟩ : ∃ k, n = k + 1 := ⟨n - 1, by omega⟩
  refine reads_line fun _ => reads_current (reads_conditional he hyes _ (by omega) ?_)
  intro test yes' line htest hyes'
  refine goesOn_peek ?_
  rw [List.headD_nil, if_neg hnext]
  exact goesOn_pure (.cond htest hyes')

theorem readsExpr_condElse {yes no : List Stmt} (he : ReadsExpr style e)
    (hyes : ∀ t ∈ yes, ReadsStmt style t) (hno : ∀ t ∈ no, ReadsStmt style t) :
    ReadsExpr style (.condElse e yes no) := by
  have hterms : style.terms (.condElse e yes no) = .mark .ifWord :: .mark .leftParen ::
      (style.inner e ++ .mark .rightParen ::
        (style.braced yes ++ .mark .elseWord :: style.braced no)) := by
    simp [Style.terms, Style.inner, Style.expr, Style.braced, Word.terminal]
  have hlen : (style.braced no).length = (style.block no).length + 2 := by
    simp [Style.braced]
  refine readsExpr_of_closed hterms rfl fun n next _ hn => ?_
  simp only [List.length_cons, List.length_append] at hn
  obtain ⟨n, rfl⟩ : ∃ k, n = k + 1 := ⟨n - 1, by omega⟩
  refine reads_line fun _ => reads_current (reads_conditional he hyes _ (by omega) ?_)
  intro test yes' line htest hyes'
  refine goesOn_peek ?_
  rw [if_pos (by rfl)]
  refine goesOn_advance (GoesOn.reads (goesOn_peek ?_) _)
  rw [if_neg (fun h => by cases h)]
  exact goesOn_expect rfl
    (reads_map (reads_block no hno (by omega)) fun _ hno' => .condElse htest hyes' hno')

/-! ### Statements -/

def Style.outer (style : Style) (e : Expr) : List Terminal :=
  (style.top e (style.expr e)).map Word.terminal

theorem Style.outer_eq (style : Style) (e : Expr) :
    style.outer e = style.inner e ∨ style.outer e = style.terms e := by
  cases h : style.wrapsStatements with
  | true => exact .inl (by simp only [outer, inner, top, h, if_true])
  | false => exact .inr (by simp only [outer, terms, top, h, Bool.false_eq_true, if_false])

theorem ReadsExpr.outer_starts (h : ReadsExpr style e) :
    ∃ t us, style.outer e = t :: us ∧ startsExpr t = true := by
  rcases style.outer_eq e with he | he <;> rw [he]
  · exact h.inner_starts
  · exact h.starts

/-- The value of a statement, with the semicolon behind it. -/
theorem ReadsExpr.value {Q : MeowLang.Stmt → Prop} {g : MeowLang.Expr → MeowLang.Stmt}
    (h : ReadsExpr style e) (hn : 8 * (style.outer e).length ≤ n)
    (hg : ∀ v, e.Denotes v → Q (g v)) (next : Terminal) :
    Reads (style.outer e ++ [.mark .semicolon]) next Q
      (do
        let value ← Grammar.expr n lowestPrecedence
        skipSemicolon
        pure (g value)) := by
  have hend : Ends lowestPrecedence (.mark .semicolon) := ⟨by decide, by decide⟩
  have hvalue : Reads (style.outer e) (.mark .semicolon) e.Denotes
      (Grammar.expr n lowestPrecedence) := by
    rcases style.outer_eq e with he | he <;> rw [he] at hn ⊢
    · exact h.expr hn hend
    · exact h.whole n _ hend hn
  exact reads_bind hvalue fun v hv => goesOn_skipSemicolon (goesOn_pure (hg v hv))

/-- A name and its value, behind the word that the statement begins with. -/
theorem ReadsExpr.named {Q : MeowLang.Stmt → Prop} {g : String → MeowLang.Expr → MeowLang.Stmt}
    (h : ReadsExpr style e) (x : Name) (hn : 8 * (style.outer e).length ≤ n)
    (hg : ∀ v, e.Denotes v → Q (g x.text v)) (next : Terminal) :
    GoesOn (.ident x.text :: .mark .assign :: (style.outer e ++ [.mark .semicolon])) next Q
      (do
        let name ← expectName
        expect (.mark .assign)
        advance
        let value ← Grammar.expr n lowestPrecedence
        skipSemicolon
        pure (g name value)) := by
  refine goesOn_expectName (goesOn_expect rfl (GoesOn.reads (goesOn_advance ?_) _))
  exact h.value hn hg next

theorem readsStmt_of_terms {t : Stmt} {u : Terminal} {us : List Terminal}
    (hterms : (style.stmt t).map Word.terminal = u :: us) (hbrace : u ≠ .mark .rightBrace)
    (heof : u ≠ .eof)
    (h : ∀ n next, 8 * (us.length + 1) ≤ n →
      Reads (u :: (us ++ [.mark .semicolon])) next t.Denotes (statement (n + 1))) :
    ReadsStmt style t := by
  refine ⟨⟨u, us, hterms, hbrace, heof⟩, fun n next hn => ?_⟩
  rw [← List.length_map Word.terminal, hterms, List.length_cons] at hn
  obtain ⟨n, rfl⟩ : ∃ k, n = k + 1 := ⟨n - 1, by omega⟩
  rw [hterms]
  exact h n next (by omega)

theorem readsStmt_bind (x : Name) (h : ReadsExpr style e) : ReadsStmt style (.bind x e) := by
  have hterms : (style.stmt (.bind x e)).map Word.terminal =
      .mark .setWord :: .ident x.text :: .mark .assign :: style.outer e := by
    simp [Style.stmt, Style.outer, Word.terminal]
  refine readsStmt_of_terms hterms (by decide) (by decide) fun n next hn => ?_
  simp only [List.length_cons] at hn
  exact reads_line fun line => reads_current
    (GoesOn.reads (h.named x (by omega) (fun _ hv => .bind hv) next) _)

theorem readsStmt_rebind (x : Name) (h : ReadsExpr style e) : ReadsStmt style (.rebind x e) := by
  have hterms : (style.stmt (.rebind x e)).map Word.terminal =
      .mark .anewWord :: .ident x.text :: .mark .assign :: style.outer e := by
    simp [Style.stmt, Style.outer, Word.terminal]
  refine readsStmt_of_terms hterms (by decide) (by decide) fun n next hn => ?_
  simp only [List.length_cons] at hn
  exact reads_line fun line => reads_current
    (GoesOn.reads (h.named x (by omega) (fun _ hv => .rebind hv) next) _)

theorem readsStmt_giveBack : ReadsStmt style .giveBack :=
  readsStmt_of_terms rfl (by decide) (by decide) fun _ _ _ =>
    reads_line fun _ => reads_current
      (GoesOn.reads (goesOn_peek (goesOn_skipSemicolon (goesOn_pure .giveBack))) _)

theorem readsStmt_giveBackValue (h : ReadsExpr style e) : ReadsStmt style (.giveBackValue e) := by
  have hterms : (style.stmt (.giveBackValue e)).map Word.terminal =
      .mark .returnWord :: style.outer e := by
    simp [Style.stmt, Style.outer, Word.terminal]
  refine readsStmt_of_terms hterms (by decide) (by decide) fun n next hn => ?_
  obtain ⟨t, us, hi, ht⟩ := h.outer_starts
  refine reads_line fun line => reads_current (GoesOn.reads (goesOn_peek ?_) _)
  have hvalue := goesOn_advance (h.value (Q := (Stmt.giveBackValue e).Denotes) (n := n)
    (g := fun v => .giveBack (some v) line) (by omega) (fun _ hv => .giveBackValue hv) next)
  rw [headD_append_of_eq_cons hi]
  cases t with
  | eof => cases ht
  | mark m => cases m <;> cases ht <;> exact hvalue
  | _ => exact hvalue

theorem readsStmt_expr (h : ReadsExpr style e) : ReadsStmt style (.expr e) := by
  obtain ⟨t, us, hi, ht⟩ := h.outer_starts
  have hterms : (style.stmt (.expr e)).map Word.terminal = t :: us := by
    rw [← hi]
    simp [Style.stmt, Style.outer]
  have hbrace : t ≠ .mark .rightBrace := by
    rintro rfl
    cases ht
  have heof : t ≠ .eof := by
    rintro rfl
    cases ht
  refine readsStmt_of_terms hterms hbrace heof fun n next hn => ?_
  rw [← List.length_cons, ← hi] at hn
  rw [← List.cons_append, ← hi]
  refine reads_line fun line => reads_current ?_
  have hvalue := h.value (Q := (Stmt.expr e).Denotes) (n := n) (g := fun v => .expr v line)
    (by omega) (fun _ hv => .expr hv) next
  rw [headD_append_of_eq_cons hi]
  cases t with
  | eof => exact absurd rfl heof
  | mark m => cases m <;> cases ht <;> exact hvalue
  | _ => exact hvalue

theorem readsStmt_load (b : Quotation) : ReadsStmt style (.load b) :=
  readsStmt_of_terms rfl (by decide) (by decide) fun _ _ _ =>
    reads_line fun _ => reads_current
      (GoesOn.reads (goesOn_expectText (goesOn_skipSemicolon (goesOn_pure .load))) _)

theorem readsStmt_leave : ReadsStmt style .leave :=
  readsStmt_of_terms rfl (by decide) (by decide) fun _ _ _ =>
    reads_line fun _ => reads_current (GoesOn.reads (goesOn_skipSemicolon (goesOn_pure .leave)) _)

theorem readsStmt_again : ReadsStmt style .again :=
  readsStmt_of_terms rfl (by decide) (by decide) fun _ _ _ =>
    reads_line fun _ => reads_current (GoesOn.reads (goesOn_skipSemicolon (goesOn_pure .again)) _)

end MeowLang.Written
