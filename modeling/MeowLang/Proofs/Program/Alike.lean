import Mathlib.Data.List.Forall2
import MeowLang.Proofs.Program.Below

/-! What of a text is read. Comments are gone over, and a word or symbol of fixed meaning counts as
its class, however it is spelled. So texts whose tokens differ in nothing else are read as the same
program, with the same complaints. -/
namespace MeowLang

open Reader

def Kind.hasValue : Kind → Bool
  | .ident | .number | .string | .boolean => true
  | .eof | .illegal | .comment | .mark _ => false

/-- Tokens of one class on one line, with one value if the class has values. Their spelling does
not matter. -/
structure Token.Alike (t u : Token) : Prop where
  kind_eq : t.terminal.kind = u.terminal.kind
  line_eq : t.line = u.line
  value_eq : t.terminal.kind.hasValue = true → t.terminal = u.terminal

instance (t u : Token) : Decidable (t.Alike u) :=
  decidable_of_iff (t.terminal.kind = u.terminal.kind ∧ t.line = u.line ∧
      (t.terminal.kind.hasValue = true → t.terminal = u.terminal))
    ⟨fun h => ⟨h.1, h.2.1, h.2.2⟩, fun h => ⟨h.kind_eq, h.line_eq, h.value_eq⟩⟩

def Token.uncommented (ts : List Token) : List Token := ts.filter (·.terminal ≠ .comment)

variable {t u : Token} {ts us : List Token}

/-! ### Signs -/

/-- A class without values has one terminal. -/
theorem Terminal.eq_of_kind_eq {a b : Terminal} (hk : a.kind = b.kind)
    (hv : a.kind.hasValue = false) : a = b := by
  cases a <;> cases b <;> cases hk <;> first | rfl | cases hv

theorem Token.Alike.terminal_eq (h : t.Alike u) : t.terminal = u.terminal := by
  cases hv : t.terminal.kind.hasValue with
  | true => exact h.value_eq hv
  | false => exact Terminal.eq_of_kind_eq h.kind_eq hv

theorem Token.signs_uncommented (ts : List Token) : signs (uncommented ts) = signs ts := by
  rw [signs, signs, uncommented, List.filterMap_filter]
  congr 1
  funext t
  cases t.terminal <;> rfl

theorem Token.signs_of_alike (h : List.Forall₂ Alike ts us) : signs ts = signs us := by
  induction h with
  | nil => rfl
  | cons h _ ih =>
    simp only [signs, List.filterMap_cons] at ih ⊢
    rw [h.terminal_eq, h.line_eq, ih]

/-! ### Readings -/

/-- Where the signs are the same, the same statements are read. -/
theorem Grammar.statements_of_signs_eq {r r' R R' : Reader} {n m : Nat}
    {program program' : List Stmt} (hj : Joined 0 [] r R)
    (hrun : statements n r = (.got program, r')) (hrun' : statements m R = (.got program', R')) :
    program' = program ∧ R'.errors = r'.errors := by
  -- one bound that is large enough for both readings
  have hleft : statements (n + m) r = (.got program, r') := by
    rw [statements_extends (Nat.le_add_right n m) r (by simp [hrun]), hrun]
  have hright : statements (n + m) R = (.got program', R') := by
    rw [statements_extends (Nat.le_add_left m n) R (by simp [hrun']), hrun']
  have hfollows : Parse.Follows 0 [] (shiftStmts 0) (fun _ _ => True) (statements (n + m))
      (statements (n + m)) r := statements_follows _
  obtain ⟨S, hS, hjS⟩ := hfollows.ends R hj (.inl rfl)
  rw [hleft] at hS hjS
  cases hright.symm.trans hS
  exact ⟨shiftStmts_zero program, hjS.errors_eq⟩

theorem Parsed.exists_run_of_tokenize {source : String} (h : tokenize source = .ok ts) :
    ∃ r program r', r.signs = Token.signs ts ∧ r.fault = none ∧ r.errors = [] ∧
      Grammar.statements (Grammar.bound source) r = (.got program, r') ∧
      ofSource source = .ok ⟨program, r'.errors⟩ := by
  rcases ofSource_cases source with ⟨e, ht, -⟩ | ⟨tokens, r, q, r', ht, -, hs, hf, he, hrun, -, hq⟩
  · cases h.symm.trans ht
  · cases h.symm.trans ht
    exact ⟨r, q, r', hs, hf, he, hrun, hq⟩

/-- Two texts whose tokens are alike, comments left out, are read alike: as the same program with
the same complaints, or up to the same numeral that stops the tokens. -/
theorem spelling_and_comments_carry_no_meaning {source source' : String}
    {failure : Option MalformedNumber} (h : (Lexer.Cursor.start source).tokens = (ts, failure))
    (h' : (Lexer.Cursor.start source').tokens = (us, failure))
    (halike : List.Forall₂ Token.Alike (Token.uncommented ts) (Token.uncommented us)) :
    Parsed.ofSource source = Parsed.ofSource source' ∧
      ((∃ parsed, Parsed.ofSource source = .ok parsed) ↔ failure = none) := by
  cases failure with
  | some e =>
    have ht : tokenize source = .error e := by rw [tokenize, h]
    have ht' : tokenize source' = .error e := by rw [tokenize, h']
    rw [Parsed.ofSource_of_error ht, Parsed.ofSource_of_error ht']
    simp
  | none =>
    obtain ⟨r, q, r₁, hs, hf, he, hrun, hq⟩ :=
      Parsed.exists_run_of_tokenize (by rw [tokenize, h] : tokenize source = .ok ts)
    obtain ⟨R, q', R₁, hs', hf', he', hrun', hq'⟩ :=
      Parsed.exists_run_of_tokenize (by rw [tokenize, h'] : tokenize source' = .ok us)
    have hsigns : R.signs = r.signs.map (Sign.shift 0) ++ [] := by
      have hzero : r.signs.map (Sign.shift 0) = r.signs := List.map_id _
      rw [hzero, List.append_nil, hs, hs', ← Token.signs_uncommented ts,
        ← Token.signs_uncommented us, Token.signs_of_alike halike]
    obtain ⟨rfl, herrors⟩ :=
      Grammar.statements_of_signs_eq ⟨hsigns, hf, hf', he'.trans he.symm⟩ hrun hrun'
    rw [hq, hq', herrors]
    simp

/-- A bracket that closes nothing, on the second line of both texts, is complained of in both. -/
theorem spelling_and_comments_carry_no_meaning_beside_a_complaint :
    Parsed.ofSource "scratch x = purrfect ~ y; // z\n)" = Parsed.ofSource "set x = true in y;\n)" ∧
      ∃ parsed, Parsed.ofSource "scratch x = purrfect ~ y; // z\n)" = .ok parsed := by
  have htokens : (Lexer.Cursor.start "scratch x = purrfect ~ y; // z\n)").tokens =
      ([⟨.mark .setWord, "scratch", 1⟩, ⟨.ident "x", "x", 1⟩, ⟨.mark .assign, "=", 1⟩,
        ⟨.boolean true, "purrfect", 1⟩, ⟨.mark .member, "~", 1⟩, ⟨.ident "y", "y", 1⟩,
        ⟨.mark .semicolon, ";", 1⟩, ⟨.comment, "// z", 1⟩, ⟨.mark .rightParen, ")", 2⟩,
        ⟨.eof, "", 2⟩], none) := by
    decide +kernel
  have htokens' : (Lexer.Cursor.start "set x = true in y;\n)").tokens =
      ([⟨.mark .setWord, "set", 1⟩, ⟨.ident "x", "x", 1⟩, ⟨.mark .assign, "=", 1⟩,
        ⟨.boolean true, "true", 1⟩, ⟨.mark .member, "in", 1⟩, ⟨.ident "y", "y", 1⟩,
        ⟨.mark .semicolon, ";", 1⟩, ⟨.mark .rightParen, ")", 2⟩, ⟨.eof, "", 2⟩], none) := by
    decide +kernel
  obtain ⟨hsame, hread⟩ := spelling_and_comments_carry_no_meaning htokens htokens' (by decide)
  exact ⟨hsame, hread.mpr rfl⟩

end MeowLang
