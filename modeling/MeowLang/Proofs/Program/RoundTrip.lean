import MeowLang.Proofs.Program.Statements
import MeowLang.Proofs.Token.Spelling

/-! Reading undoes printing: the text of a program, printed in any style, is read back as that
program. -/
namespace MeowLang.Written

open Parse Grammar

variable {style : Style}

mutual

theorem readsExpr : ∀ e : Expr, ReadsExpr style e
  | .ident x => readsExpr_ident x
  | .number q => readsExpr_number q
  | .string b => readsExpr_string b
  | .bool b => readsExpr_bool b
  | .array items => readsExpr_array (readsExpr_all items)
  | .object entries => readsExpr_object (readsExpr_entries entries)
  | .prefixed op e => readsExpr_prefixed op (readsExpr e)
  | .between op l r => readsExpr_between op (readsExpr l) (readsExpr r)
  | .cond test yes => readsExpr_cond (readsExpr test) (readsStmt_all yes)
  | .condElse test yes no =>
    readsExpr_condElse (readsExpr test) (readsStmt_all yes) (readsStmt_all no)
  | .function params body => readsExpr_function params (readsStmt_all body)
  | .call f args => readsExpr_call (readsExpr f) (readsExpr_all args)
  | .index c i => readsExpr_index (readsExpr c) (readsExpr i)
  | .kindOf e => readsExpr_kindOf (readsExpr e)
  | .loop body => readsExpr_loop (readsStmt_all body)
termination_by structural e => e

theorem readsExpr_all : ∀ es : List Expr, ∀ e ∈ es, ReadsExpr style e
  | [] => nofun
  | e :: es => List.forall_mem_cons.mpr ⟨readsExpr e, readsExpr_all es⟩
termination_by structural es => es

theorem readsExpr_entries :
    ∀ es : List (Expr × Expr), ∀ p ∈ es, ReadsExpr style p.1 ∧ ReadsExpr style p.2
  | [] => nofun
  | (k, v) :: es => List.forall_mem_cons.mpr ⟨⟨readsExpr k, readsExpr v⟩, readsExpr_entries es⟩
termination_by structural es => es

theorem readsStmt : ∀ t : Stmt, ReadsStmt style t
  | .bind x e => readsStmt_bind x (readsExpr e)
  | .rebind x e => readsStmt_rebind x (readsExpr e)
  | .giveBack => readsStmt_giveBack
  | .giveBackValue e => readsStmt_giveBackValue (readsExpr e)
  | .expr e => readsStmt_expr (readsExpr e)
  | .load b => readsStmt_load b
  | .leave => readsStmt_leave
  | .again => readsStmt_again
termination_by structural t => t

theorem readsStmt_all : ∀ ts : List Stmt, ∀ t ∈ ts, ReadsStmt style t
  | [] => nofun
  | t :: ts => List.forall_mem_cons.mpr ⟨readsStmt t, readsStmt_all ts⟩
termination_by structural ts => ts

end

theorem statements_block (p : Program) (n : Nat) (r : Reader) (ss : List Sign)
    (errors : List SyntaxError) (hr : r.Shows ss errors)
    (hs : ss.map Sign.terminal = (style.block p).map Word.terminal)
    (hn : 8 * (style.block p).length + 1 ≤ n) :
    ∃ q r', statements n r = (.got q, r') ∧ r'.errors = errors ∧
      List.Forall₂ Stmt.Denotes p q := by
  induction p generalizing n r ss with
  | nil =>
    obtain ⟨n, rfl⟩ : ∃ k, n = k + 1 := ⟨n - 1, by omega⟩
    cases List.map_eq_nil_iff.mp hs
    have heof : r.current = .eof := by
      rw [r.current_eq, hr.signs_eq]
      rfl
    exact ⟨[], r, statements_of_eof heof n, hr.errors_eq, .nil⟩
  | cons t p ih =>
    have ht : ReadsStmt style t := readsStmt t
    obtain ⟨u, us, hi, -, heof⟩ := ht.starts
    have hlen := style.length_block_cons t p
    obtain ⟨n, rfl⟩ : ∃ k, n = k + 1 := ⟨n - 1, by omega⟩
    -- the signs fall into those of the first statement, with its semicolon, and the others
    rw [Style.map_block_cons] at hs
    obtain ⟨ss₁, ss₂, rfl, hs₁, hs₂⟩ := List.map_eq_append_iff.mp hs
    obtain ⟨a, r₁, last, hfirst, hr₁, ha⟩ := ht.reads n _ (by omega) r ss₁ ss₂ errors hr hs₁ rfl
    obtain ⟨r₂, hadvance, hr₂⟩ := advance_of_shows hr₁
    obtain ⟨q, r₃, hrest, herrors, hq⟩ := ih n r₂ ss₂ hr₂ hs₂ (by omega)
    have hcurrent : r.current = u := by
      rw [r.current_eq, hr.signs_eq, first_append hs₁ rfl, headD_append_of_eq_cons hi]
    refine ⟨a :: q, r₃, ?_, herrors, .cons ha hq⟩
    rw [statements_of_ne_eof (by rwa [hcurrent])]
    simp only [bind_apply, attempt, hfirst, hadvance, hrest]
    rfl

/-- A printed program is read without an error, and as the program that was printed. -/
theorem parse_print (style : Style) (p : Program) (file : String) :
    ∃ q, parseStrict (style.print p) file = .ok q ∧ List.Forall₂ Stmt.Denotes p q := by
  obtain ⟨ts, htokens, hterminals⟩ := tokens_text (style.block p) 1
  have hstart : Lexer.Cursor.start (style.print p) = ⟨text (style.block p), 1⟩ := by
    rw [Lexer.Cursor.start, Style.print, String.toList_ofList]
  have hsigns : (Lexer.Cursor.start (style.print p)).signs = Token.signs ts := by
    rw [hstart, Lexer.Cursor.signs, htokens]
  have hfault : (Lexer.Cursor.start (style.print p)).fault = none := by
    rw [hstart, Lexer.Cursor.fault, htokens]
  rcases Reader.start_cases (style.print p) with ⟨r, hr, hs, hf, he⟩ | ⟨e, -, hf⟩
  · have hbound : 8 * (style.block p).length + 1 ≤ bound (style.print p) := by
      have hlen := congrArg List.length hterminals
      have hle := Lexer.Cursor.length_signs_le (Lexer.Cursor.start (style.print p))
      simp only [List.length_map] at hlen
      rw [hsigns, hlen, Lexer.Cursor.start, String.length_toList] at hle
      rw [bound]
      omega
    obtain ⟨q, r', hq, herrors, hdenotes⟩ := statements_block p _ r (Token.signs ts) []
      ⟨hs.trans hsigns, hf.trans hfault, he⟩ hterminals hbound
    refine ⟨q, ?_, hdenotes⟩
    simp [parseStrict, Parsed.ofSource, Parsed.ofReader, hr, hq, herrors]
  · rw [hfault] at hf
    cases hf

end MeowLang.Written
