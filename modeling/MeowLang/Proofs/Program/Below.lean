import MeowLang.Proofs.Program.Bound
import MeowLang.Proofs.Program.Content
import MeowLang.Proofs.Program.Equality
import MeowLang.Proofs.Program.Shift

/-! Programs one below the other. A text without complaints that ends with a semicolon is read to
its end before anything below it is looked at, so a text below it is read as it would be alone,
further down. -/
namespace MeowLang

open Parse Reader

namespace Reader

/-- The last sign is a semicolon, if there are signs. -/
def EndsStatement (r : Reader) : Prop :=
  ∀ s ∈ r.signs.getLast?, s.terminal = .mark .semicolon

variable {r r' : Reader}

theorem EndsStatement.of_suffix (h : r.EndsStatement) (hs : r'.signs <:+ r.signs) :
    r'.EndsStatement := by
  intro s hmem
  obtain ⟨front, hfront⟩ := hs
  refine h s ?_
  rw [← hfront, List.getLast?_append, Option.mem_def.mp hmem]
  rfl

/-- Inside a statement there is a sign behind the current one. -/
theorem EndsStatement.two_le_count (h : r.EndsStatement) (hi : r.Inside) : 2 ≤ r.count := by
  have hpos := r.length_pos_of_current hi.ne_eof
  rcases hs : r.signs with _ | ⟨s, _ | ⟨t, ss⟩⟩
  · rw [hs] at hpos
    cases hpos
  · have hcurrent : r.current = s.terminal := by rw [r.current_eq, hs]; rfl
    exact absurd (hcurrent.trans (h s (by rw [hs]; rfl))) hi.ne_semicolon
  · rw [count, hs]
    exact Nat.le_add_left 2 ss.length

end Reader

namespace Grammar

variable {k n : Nat} {more : List Sign} {r r' R : Reader}

theorem statement_extends {m : Nat} (h : m ≤ n) : Extends (statement n) (statement m) := by
  induction h with
  | refl => exact .refl _
  | step _ ih => exact (steady _).statement.trans ih

/-- A semicolon is taken by both readers or by none. -/
theorem skipSemicolon_joined (hj : Joined k more r R) (htwo : 2 ≤ r.count) :
    ∃ s s', skipSemicolon r = (.got (), s) ∧ skipSemicolon R = (.got (), s') ∧
      Joined k more s s' ∧ s.signs <:+ r.signs ∧ 1 ≤ s.count := by
  have hpeek : R.peek = r.peek := hj.peek_eq (.inr htwo)
  rw [skipSemicolon, peek_bind, peek_bind, hpeek]
  by_cases hp : r.peek = .mark .semicolon
  · rw [if_pos hp]
    obtain ⟨s, s', hs, hs', hj', hsigns⟩ := hj.advance (.inr (Nat.le_of_succ_le htwo))
    refine ⟨s, s', hs, hs', hj', ?_, ?_⟩
    · rw [hsigns]
      exact List.tail_suffix _
    · rw [count, hsigns, List.length_tail]
      exact Nat.le_sub_one_of_lt htwo
  · rw [if_neg hp]
    exact ⟨r, R, rfl, rfl, hj, List.suffix_refl _, Nat.le_of_succ_le htwo⟩

theorem errors_of_failed (hc : r.current ≠ .mark .semicolon)
    (h : statement (n + 1) r = (.failed, r')) : r'.errors ≠ [] := by
  have hup : r.Upto (Sign.items r.signs) [] := fun _ => rfl
  have hkeeps := (faithful n).statement_keeps hup hc
  rwa [h] at hkeeps

/-- A statement without complaints ends before anything behind its text is looked at. -/
theorem attempt_statement_joined (hj : Joined 0 more r R) (hne : r.current ≠ .eof)
    (hends : r.EndsStatement) {o : Option Stmt}
    (hrun : attempt (statement n) r = (.got o, r')) (he : r'.errors = []) :
    ∃ R', attempt (statement n) R = (.got o, R') ∧ Joined 0 more r' R' ∧ 1 ≤ r'.count ∧
      r'.EndsStatement := by
  have hone := r.length_pos_of_current hne
  have hcurrent : R.current = r.current := hj.current_eq (.inr hone)
  cases n with
  | zero => cases hrun
  | succ n =>
    rw [attempt_apply] at hrun
    rw [attempt_apply]
    by_cases hsemicolon : r.current = .mark .semicolon
    · rw [statement_of_semicolon n hsemicolon] at hrun
      cases hrun
      rw [statement_of_semicolon n (hcurrent.trans hsemicolon)]
      exact ⟨R, rfl, hj, hone, hends⟩
    have hstatement := statement_of_ne_semicolon n hsemicolon
    rw [statement_of_ne_semicolon n (hcurrent ▸ hsemicolon)]
    have hlocal : Follows 0 more (Stmt.shift 0) (fun _ => Inside) (phrase n) (phrase n) r :=
      (locality n).phrase hne
    obtain ⟨hsuffix, hpost, hphrase'⟩ := hlocal
    rcases hphrase : phrase n r with ⟨a | _ | e | _, s⟩
    · rw [hphrase] at hsuffix hpost hphrase'
      have hends' := hends.of_suffix hsuffix
      have htwo := hends'.two_le_count (hpost a rfl)
      obtain ⟨S, hS, hjS⟩ := hphrase' R hj (.inr htwo)
      obtain ⟨t, T, ht, hT, hjT, htsuffix, htone⟩ := skipSemicolon_joined hjS htwo
      rw [hstatement, bind_of_got hphrase, bind_of_got ht] at hrun
      cases hrun
      refine ⟨T, ?_, hjT, htone, hends'.of_suffix htsuffix⟩
      rw [bind_of_got hS, bind_of_got hT, Stmt.shift_zero]
      rfl
    · have hfailed : statement (n + 1) r = (.failed, s) := by
        rw [hstatement, bind_apply, hphrase]
      rw [hfailed] at hrun
      cases hrun
      exact absurd he (errors_of_failed hsemicolon hfailed)
    all_goals
      rw [hstatement, bind_apply, hphrase] at hrun
      cases hrun

theorem errors_of_advance (h : Parse.advance r = (.got (), r')) : r'.errors = r.errors := by
  rw [Parse.advance] at h
  rcases r.advance_cases with ⟨s, ha, -, -, he⟩ | ⟨e, ha, -⟩
  · rw [ha] at h
    cases h
    exact he
  · rw [ha] at h
    cases h

theorem errors_of_statements {ss : List Stmt} (h : statements n r = (.got ss, r'))
    (he : r'.errors = []) : r.errors = [] := by
  by_contra hr
  -- a reader with complaints counts as past any content, even past what is not there
  have hup : r.Upto [] [.name ""] := fun hnil => absurd hnil hr
  have hkeeps := statements_keeps n hup
  rw [h] at hkeeps
  cases hkeeps he

/-- The statements of the upper text are read first, and then those behind it. -/
theorem statements_joined {program : List Stmt} (hj : Joined 0 more r R)
    (hends : r.EndsStatement) (hrun : statements n r = (.got program, r'))
    (he : r'.errors = []) :
    ∃ c R', R'.signs = more ∧ R'.fault = none ∧ R'.errors = [] ∧ ∀ N, n ≤ N →
      statements (N + c) R = ((statements N R').1.map (program ++ ·), (statements N R').2) := by
  induction n generalizing r R program with
  | zero => cases hrun
  | succ n ih =>
    by_cases hc : r.current = .eof
    · rw [statements_of_eof hc] at hrun
      cases hrun
      refine ⟨0, R, ?_, hj.fault_eq', hj.errors_eq.trans he, fun N _ => ?_⟩
      · rw [hj.signs_eq, (signs_of_current _ hc).1]
        rfl
      · rw [Nat.add_zero]
        rcases statements N R with ⟨a | _ | e | _, s⟩ <;> rfl
    · rw [statements_of_ne_eof hc] at hrun
      obtain ⟨first, r₁, hfirst, hrun⟩ := exists_got_of_bind hrun
      obtain ⟨_, r₂, hadvance, hrun⟩ := exists_got_of_bind hrun
      obtain ⟨rest, r₃, hrest, hrun⟩ := exists_got_of_bind hrun
      cases hrun
      have he₁ : r₁.errors = [] := by
        rw [← errors_of_advance hadvance]
        exact errors_of_statements hrest he
      obtain ⟨R₁, hfirst', hj₁, hone, hends₁⟩ := attempt_statement_joined hj hc hends hfirst he₁
      obtain ⟨s, R₂, hs, hadvance', hj₂, htail⟩ := hj₁.advance (.inr hone)
      cases hadvance.symm.trans hs
      obtain ⟨c, R', hsigns, hfault, herrors, hmore⟩ :=
        ih hj₂ (hends₁.of_suffix (htail ▸ List.tail_suffix _)) hrest
      refine ⟨c + 1, R', hsigns, hfault, herrors, fun N hN => ?_⟩
      have hcR : R.current ≠ .eof := by
        rwa [hj.current_eq (.inr (r.length_pos_of_current hc))]
      have hattempt : attempt (statement (N + c)) R = (.got first, R₁) := by
        have hle : n ≤ N + c := by omega
        rw [extends_attempt (statement_extends hle) R (by simp [hfirst']), hfirst']
      rw [← Nat.add_assoc, statements_of_ne_eof hcR, bind_of_got hattempt,
        bind_of_got hadvance', bind_apply, hmore N (Nat.le_of_succ_le hN)]
      rcases statements N R' with ⟨a | _ | e | _, s⟩
      · change (Reading.got (first.toList ++ (rest ++ a)), s) = _
        rw [← List.append_assoc]
        rfl
      all_goals rfl

/-- Statements behind those of a clean text are read as they are alone, further down. -/
theorem statements_below {r₂ r₂' : Reader} {program lower : List Stmt} {m b : Nat}
    (hj : Joined 0 (r₂.signs.map (Sign.shift k)) r R) (hends : r.EndsStatement)
    (hrun : statements n r = (.got program, r')) (he : r'.errors = [])
    (hfault₂ : r₂.fault = none) (he₂ : r₂.errors = [])
    (hrun₂ : statements m r₂ = (.got lower, r₂')) (hb : (statements b R).1 ≠ .exhausted) :
    ∃ R', statements b R = (.got (program ++ lower.map (Stmt.shift k)), R') ∧
      R'.errors = r₂'.errors := by
  obtain ⟨c, R₁, hsigns, hfault, herrors, hmore⟩ := statements_joined hj hends hrun he
  have hj₂ : Joined k [] r₂ R₁ :=
    ⟨by rw [hsigns, List.append_nil], hfault₂, hfault, by rw [herrors, he₂]⟩
  -- one bound that is large enough for all three readings
  have hlower : statements (n + m + b) r₂ = (.got lower, r₂') := by
    rw [statements_extends (by omega : m ≤ n + m + b) r₂ (by simp [hrun₂]), hrun₂]
  have hfollows : Follows k [] (shiftStmts k) (fun _ _ => True) (statements (n + m + b))
      (statements (n + m + b)) r₂ := statements_follows _
  obtain ⟨R', hR', hj'⟩ := hfollows.ends R₁ hj₂ (.inl rfl)
  rw [hlower] at hR' hj'
  refine ⟨R', ?_, hj'.errors_eq⟩
  rw [← statements_extends (by omega : b ≤ n + m + b + c) R hb, hmore _ (by omega), hR',
    ← shiftStmts_eq_map]
  rfl

end Grammar

/-! ### Texts -/

theorem start_of_tokenize {source : String} {tokens : List Token}
    (h : tokenize source = .ok tokens) :
    (Lexer.Cursor.start source).fault = none ∧
      (Lexer.Cursor.start source).signs = Token.signs tokens := by
  rw [tokenize_eq] at h
  cases hf : (Lexer.Cursor.start source).fault with
  | none =>
    rw [hf] at h
    cases h
    exact ⟨rfl, rfl⟩
  | some e =>
    rw [hf] at h
    cases h

theorem tokenize_eq_error_iff {source : String} {e : MalformedNumber} :
    tokenize source = .error e ↔ (Lexer.Cursor.start source).fault = some e := by
  rw [tokenize_eq]
  cases (Lexer.Cursor.start source).fault with
  | none => simp
  | some e' => simp

theorem Parsed.ofSource_of_error {source : String} {e : MalformedNumber}
    (h : tokenize source = .error e) : ofSource source = .error e := by
  rcases ofSource_cases source with ⟨e', ht, hq⟩ | ⟨_, _, _, _, ht, -⟩
  · cases h.symm.trans ht
    exact hq
  · cases h.symm.trans ht

section
variable {upper : String} {tokens : List Token} (htokens : tokenize upper = .ok tokens)
  (hlast : (Token.signs tokens).getLast?.map Sign.terminal = some (.mark .semicolon))

include hlast

theorem terminal_of_last : ∀ s ∈ (Token.signs tokens).getLast?, s.terminal = .mark .semicolon := by
  intro s hs
  rw [Option.mem_def.mp hs] at hlast
  exact Option.some.inj hlast

include htokens

/-- Its last sign is no quote that is left open, so the lower text has its signs. -/
theorem signs_of_semicolon (lower : String) :
    (Lexer.Cursor.start (upper ++ "\n" ++ lower)).signs = Token.signs tokens ++
        (Lexer.Cursor.start lower).signs.map (Sign.shift (lineCount upper)) ∧
      (Lexer.Cursor.start (upper ++ "\n" ++ lower)).fault =
        (Lexer.Cursor.start lower).fault.map (MalformedNumber.shift (lineCount upper)) := by
  obtain ⟨hfault, hsigns⟩ := start_of_tokenize htokens
  rw [← hsigns] at hlast ⊢
  refine Lexer.Cursor.signs_start_below hfault (fun s hs body => ?_) lower
  simp [terminal_of_last (hsigns ▸ hlast) s (hsigns ▸ hs)]

theorem tokenize_below_of_error {lower : String} {e : MalformedNumber}
    (h : tokenize lower = .error e) :
    tokenize (upper ++ "\n" ++ lower) = .error (e.shift (lineCount upper)) := by
  rw [tokenize_eq_error_iff, (signs_of_semicolon htokens hlast lower).2,
    tokenize_eq_error_iff.mp h]
  rfl

theorem tokenize_below_of_ok {lower : String} {ts : List Token} (h : tokenize lower = .ok ts) :
    ∃ joined, tokenize (upper ++ "\n" ++ lower) = .ok joined ∧
      Token.signs joined =
        Token.signs tokens ++ (Token.signs ts).map (Sign.shift (lineCount upper)) := by
  obtain ⟨hfault, hsigns⟩ := start_of_tokenize h
  obtain ⟨hbelow, hfaults⟩ := signs_of_semicolon htokens hlast lower
  rw [hfault] at hfaults
  rw [hsigns] at hbelow
  exact ⟨_, by rw [tokenize_eq, hfaults]; rfl, hbelow⟩

end

/-- Below a text that is read without complaints and whose last sign is a semicolon, every text is
read as it is alone: its program follows, further down, its complaints are all there are, and a
numeral stops it just where it would. -/
theorem programs_are_read_one_below_the_other {upper : String} {program : Program}
    {tokens : List Token} (hupper : Parsed.ofSource upper = .ok ⟨program, []⟩)
    (htokens : tokenize upper = .ok tokens)
    (hlast : (Token.signs tokens).getLast?.map Sign.terminal = some (.mark .semicolon))
    (lower : String) :
    Parsed.ofSource (upper ++ "\n" ++ lower) =
      match Parsed.ofSource lower with
      | .ok parsed =>
        .ok ⟨program ++ parsed.program.map (Stmt.shift (lineCount upper)), parsed.errors⟩
      | .error e => .error (e.shift (lineCount upper)) := by
  rcases Parsed.ofSource_cases upper with
    ⟨e, -, he⟩ | ⟨ts, r, q, r', ht, -, hs, hf, he, hrun, -, hq⟩
  · cases hupper.symm.trans he
  cases htokens.symm.trans ht
  obtain ⟨rfl, hclean⟩ := Parsed.mk.inj (Except.ok.inj (hupper.symm.trans hq))
  rcases Parsed.ofSource_cases lower with
    ⟨e, ht₂, hq₂⟩ | ⟨ts₂, r₂, q₂, r₂', ht₂, -, hs₂, hf₂, he₂, hrun₂, -, hq₂⟩
  · rw [hq₂]
    exact Parsed.ofSource_of_error (tokenize_below_of_error htokens hlast ht₂)
  rw [hq₂]
  obtain ⟨joined, hjoined, hsigns⟩ := tokenize_below_of_ok htokens hlast ht₂
  rcases Parsed.ofSource_cases (upper ++ "\n" ++ lower) with
    ⟨e, ht', -⟩ | ⟨ts', R, q', R', ht', -, hs', hf', he', hrun', -, hq'⟩
  · cases hjoined.symm.trans ht'
  cases hjoined.symm.trans ht'
  have hj : Joined 0 (r₂.signs.map (Sign.shift (lineCount upper))) r R := by
    refine ⟨?_, hf, hf', he'.trans he.symm⟩
    have hzero : (Token.signs tokens).map (Sign.shift 0) = Token.signs tokens := List.map_id _
    rw [hs', hsigns, hs, hs₂, hzero]
  have hends : r.EndsStatement := by
    rw [EndsStatement, hs]
    exact terminal_of_last hlast
  have hended :
      (Grammar.statements (Grammar.bound (upper ++ "\n" ++ lower)) R).1 ≠ .exhausted := by
    intro hexhausted
    rw [hrun'] at hexhausted
    cases hexhausted
  obtain ⟨R₁, hR, herrors⟩ :=
    Grammar.statements_below hj hends hrun hclean.symm hf₂ he₂ hrun₂ hended
  cases hrun'.symm.trans hR
  rw [hq', herrors]

/-- Without the semicolon, the sign on the second line would stand between two operands. -/
theorem programs_are_read_one_below_the_other_with_a_sign :
    Parsed.ofSource "set x = y; // y" = .ok ⟨[.bind "x" (.ident "y" 1) 1], []⟩ ∧
    (∃ tokens, tokenize "set x = y; // y" = .ok tokens ∧
      (Token.signs tokens).getLast?.map Sign.terminal = some (.mark .semicolon)) ∧
    Parsed.ofSource ("set x = y; // y" ++ "\n" ++ "-x;\n)") =
      .ok ⟨[.bind "x" (.ident "y" 1) 1, .expr (.prefixed .sub (.ident "x" 2) 2) 2],
        [.noOperand (.mark .rightParen)]⟩ := by
  have hupper : Parsed.ofSource "set x = y; // y" = .ok ⟨[.bind "x" (.ident "y" 1) 1], []⟩ := by
    decide +kernel
  have hlower : Parsed.ofSource "-x;\n)" =
      .ok ⟨[.expr (.prefixed .sub (.ident "x" 1) 1) 1], [.noOperand (.mark .rightParen)]⟩ := by
    decide +kernel
  have htokens : tokenize "set x = y; // y" = .ok [⟨.mark .setWord, "set", 1⟩, ⟨.ident "x", "x", 1⟩,
      ⟨.mark .assign, "=", 1⟩, ⟨.ident "y", "y", 1⟩, ⟨.mark .semicolon, ";", 1⟩,
      ⟨.comment, "// y", 1⟩, ⟨.eof, "", 1⟩] := by
    decide +kernel
  refine ⟨hupper, ⟨_, htokens, rfl⟩, ?_⟩
  rw [programs_are_read_one_below_the_other hupper htokens rfl, hlower]
  rfl

end MeowLang
