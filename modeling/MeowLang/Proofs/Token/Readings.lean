import MeowLang.Proofs.Token.Lines

/-! Readings one after the other. Each takes the gap before a lexeme and then the lexeme, so what
has been taken is always the text before the cursor, and the line breaks in it number the lines. A
numeral that is no number is taken like any other lexeme, and reading goes on behind it. -/
namespace MeowLang

/-- A numeral with two points or more is no number. -/
theorem Decimal.numeral?_eq_none_iff (cs : List Char) :
    numeral? cs = none ↔ 2 ≤ cs.count '.' := by
  by_cases hpoint : '.' ∈ cs
  · obtain ⟨whole, fraction, rfl, hwhole⟩ := List.eq_append_cons_of_mem hpoint
    have hfraction : ((whole ++ '.' :: fraction).dropWhile (· != '.')).drop 1 = fraction := by
      simp [List.dropWhile_append_of_pos (Lexer.bne_of_not_mem hwhole)]
    rw [List.count_append, List.count_eq_zero.mpr hwhole, List.count_cons_self, numeral?, hfraction]
    simp [← List.count_pos_iff]
  · have hfraction : cs.dropWhile (· != '.') = [] :=
      List.dropWhile_eq_nil_iff.mpr (Lexer.bne_of_not_mem hpoint)
    rw [List.count_eq_zero.mpr hpoint, numeral?, hfraction]
    simp

namespace Lexer

/-- What may stand between two lexemes. -/
def isGap (c : Char) : Bool := c == '\n' || (c == ' ' || c == '\t' || c == '\r')

abbrev Reading := Except MalformedNumber Token

def Reading.lexeme : Reading → List Char
  | .ok t => t.lexeme.toList
  | .error e => e.literal.toList

def Reading.line : Reading → Nat
  | .ok t => t.line
  | .error e => e.line

def Reading.IsEnd (r : Reading) : Prop := ∃ t : Token, r = .ok t ∧ t.terminal = .eof

/-- A digit, and all digits and points that follow it. -/
def TakesNumeral (lexeme behind : List Char) : Prop :=
  (∃ d ds, lexeme = d :: ds ∧ d.isDigit = true ∧ ds.all isNumeralChar = true) ∧
    ∀ c ∈ behind.head?, isNumeralChar c = false

/-! ### One lexeme -/

theorem lexeme_token (s : Scan) (line : Nat) : Reading.lexeme (s.token line) = s.lexeme := by
  rw [Scan.token]
  cases s.terminal <;> exact String.toList_ofList

theorem line_token (s : Scan) (line : Nat) : Reading.line (s.token line) = line := by
  rw [Scan.token]
  cases s.terminal <;> rfl

theorem exists_error_token_iff (s : Scan) (line : Nat) :
    (∃ e, s.token line = .error e) ↔ s.terminal = none := by
  rw [Scan.token]
  cases s.terminal <;> simp

theorem scan_lexeme_ne_nil (c : Char) (rest : List Char) : (scan c rest).lexeme ≠ [] := by
  intro h
  have happend := congrArg List.length (scan_lexeme_append c rest)
  have hle := scan_rest_length_le c rest
  rw [h, List.nil_append, List.length_cons] at happend
  omega

theorem scan_of_isDigit {c : Char} (h : c.isDigit = true) (rest : List Char) :
    scan c rest = spanning isNumeralChar c rest fun cs => (Decimal.numeral? cs).map .number := by
  have hslash : (c == '/') = false := by
    rw [beq_eq_false_iff_ne]
    rintro rfl
    exact absurd h (by decide)
  rw [scan, hslash, Bool.false_and, if_neg Bool.false_ne_true, if_pos h]

theorem not_of_mem_head?_dropWhile {p : Char → Bool} {cs : List Char} {d : Char}
    (h : d ∈ (cs.dropWhile p).head?) : p d = false := by
  have hhead := List.head?_dropWhile_not p cs
  rw [Option.mem_def.mp h] at hhead
  simpa using hhead

theorem takesNumeral_scan {c : Char} (h : c.isDigit = true) (rest : List Char) :
    TakesNumeral (scan c rest).lexeme (scan c rest).rest := by
  rw [scan_of_isDigit h]
  exact ⟨⟨c, _, rfl, h, List.all_takeWhile⟩, fun d hd => not_of_mem_head?_dropWhile hd⟩

/-- Only a numeral can be malformed. -/
theorem isDigit_of_scan {c : Char} {rest : List Char} (h : (scan c rest).terminal = none) :
    c.isDigit = true := by
  unfold scan at h
  split at h
  · cases h
  split at h
  · assumption
  split at h
  · unfold quoted at h
    split at h <;> cases h
  split at h
  · cases h
  · unfold symbol lone at h
    split at h
    · cases h
    · split at h <;> cases h

theorem scan_terminal_eq_none_iff (c : Char) (rest : List Char) :
    (scan c rest).terminal = none ↔
      TakesNumeral (scan c rest).lexeme (scan c rest).rest ∧
        2 ≤ (scan c rest).lexeme.count '.' := by
  have hdigit (h : c.isDigit = true) :
      (scan c rest).terminal = none ↔ 2 ≤ (scan c rest).lexeme.count '.' := by
    rw [scan_of_isDigit h, ← Decimal.numeral?_eq_none_iff]
    exact Option.map_eq_none_iff
  constructor
  · intro h
    have hc := isDigit_of_scan h
    exact ⟨takesNumeral_scan hc rest, (hdigit hc).mp h⟩
  · rintro ⟨⟨⟨d, ds, hlexeme, hd, -⟩, -⟩, hcount⟩
    have happend := scan_lexeme_append c rest
    rw [hlexeme, List.cons_append] at happend
    obtain ⟨rfl, -⟩ := List.cons.inj happend
    exact (hdigit hd).mpr hcount

namespace Cursor

/-! ### One reading -/

def gap (c : Cursor) : List Char := c.rest.takeWhile isGap

/-- What the next reading takes: the gap and the lexeme behind it. -/
def taken (c : Cursor) : List Char := c.gap ++ Reading.lexeme c.next.1

theorem skipBlanks_eq (cs : List Char) (line : Nat) :
    skipBlanks cs line = ⟨cs.dropWhile isGap, line + (cs.takeWhile isGap).count '\n'⟩ := by
  induction cs generalizing line with
  | nil => rfl
  | cons c cs ih =>
    unfold skipBlanks
    split
    · rename_i hc
      obtain rfl : c = '\n' := by simpa using hc
      have hgap : isGap '\n' = true := rfl
      rw [ih, List.dropWhile_cons_of_pos hgap, List.takeWhile_cons_of_pos hgap,
        List.count_cons_self]
      congr 1
      omega
    · rename_i hc
      split
      · rename_i hblank
        have hgap : isGap c = true := by rw [isGap, hblank, Bool.or_true]
        rw [ih, List.dropWhile_cons_of_pos hgap, List.takeWhile_cons_of_pos hgap,
          List.count_cons_of_ne (by simpa using hc)]
      · rename_i hblank
        have hgap : ¬ isGap c = true := by
          rw [isGap, Bool.or_eq_true, not_or]
          exact ⟨hc, hblank⟩
        rw [List.dropWhile_cons_of_neg hgap, List.takeWhile_cons_of_neg hgap]
        rfl

/-- The two ways a reading goes: there is only a gap left, or a lexeme stands behind it. -/
inductive Reads (c : Cursor) : Prop
  | eof (rest_eq : c.rest = c.gap)
      (next_eq : c.next = (.ok ⟨.eof, "", c.line + c.gap.count '\n'⟩,
        ⟨[], c.line + c.gap.count '\n'⟩))
  | lexeme {ch : Char} {rest : List Char} (rest_eq : c.rest = c.gap ++ ch :: rest)
      (next_eq : c.next = ((scan ch rest).token (c.line + c.gap.count '\n'),
        ⟨(scan ch rest).rest,
          c.line + c.gap.count '\n' + (scan ch rest).lexeme.count '\n'⟩))

theorem reads (c : Cursor) : c.Reads := by
  have hblanks := skipBlanks_eq c.rest c.line
  have happend : c.gap ++ c.rest.dropWhile isGap = c.rest := List.takeWhile_append_dropWhile
  cases hrest : c.rest.dropWhile isGap with
  | nil =>
    rw [hrest] at hblanks happend
    exact .eof (by rw [← happend, List.append_nil]) (next_of_nil hblanks)
  | cons ch rest =>
    rw [hrest] at hblanks happend
    exact .lexeme happend.symm (next_of_cons hblanks)

/-- What is taken stands before what is left. -/
theorem rest_eq_taken (c : Cursor) : c.rest = c.taken ++ c.next.2.rest := by
  cases c.reads with
  | eof rest_eq next_eq => simpa [taken, next_eq, Reading.lexeme] using rest_eq
  | @lexeme ch rest rest_eq next_eq =>
    rw [taken, next_eq, lexeme_token, List.append_assoc, scan_lexeme_append]
    exact rest_eq

theorem line_next (c : Cursor) : c.next.2.line = c.line + c.taken.count '\n' := by
  cases c.reads with
  | eof rest_eq next_eq => simp [taken, next_eq, Reading.lexeme]
  | @lexeme ch rest rest_eq next_eq =>
    rw [taken, next_eq, lexeme_token, List.count_append, Nat.add_assoc]

theorem line_reading (c : Cursor) : Reading.line c.next.1 = c.line + c.gap.count '\n' := by
  cases c.reads with
  | eof rest_eq next_eq => rw [next_eq]; rfl
  | lexeme rest_eq next_eq => rw [next_eq, line_token]

theorem lexeme_ne_nil {c : Cursor} (h : ¬ Reading.IsEnd c.next.1) :
    Reading.lexeme c.next.1 ≠ [] := by
  cases c.reads with
  | eof rest_eq next_eq => exact absurd ⟨_, by rw [next_eq], rfl⟩ h
  | @lexeme ch rest rest_eq next_eq =>
    rw [next_eq, lexeme_token]
    exact scan_lexeme_ne_nil ch rest

theorem takesNumeral_next {c : Cursor} {d : Char} (hd : (Reading.lexeme c.next.1).head? = some d)
    (hdigit : d.isDigit = true) : TakesNumeral (Reading.lexeme c.next.1) c.next.2.rest := by
  cases c.reads with
  | eof rest_eq next_eq => simp [next_eq, Reading.lexeme] at hd
  | @lexeme ch rest rest_eq next_eq =>
    rw [next_eq, lexeme_token] at hd ⊢
    have happend := congrArg List.head? (scan_lexeme_append ch rest)
    rw [List.head?_append, hd] at happend
    obtain rfl : d = ch := by simpa using happend
    exact takesNumeral_scan hdigit rest

theorem exists_error_iff (c : Cursor) : (∃ e, c.next.1 = .error e) ↔
    TakesNumeral (Reading.lexeme c.next.1) c.next.2.rest ∧
      2 ≤ (Reading.lexeme c.next.1).count '.' := by
  cases c.reads with
  | eof rest_eq next_eq => simp [next_eq, Reading.lexeme]
  | lexeme rest_eq next_eq =>
    rw [next_eq, lexeme_token]
    exact (exists_error_token_iff _ _).trans (scan_terminal_eq_none_iff _ _)

/-! ### One reading after the other -/

/-- The place behind the first `n` readings, whatever they come to. -/
def after : Nat → Cursor → Cursor
  | 0, c => c
  | n + 1, c => after n c.next.2

/-- What the first `n` readings take, in order. -/
def takenBy : Nat → Cursor → List Char
  | 0, _ => []
  | n + 1, c => c.taken ++ takenBy n c.next.2

theorem rest_eq_takenBy (n : Nat) (c : Cursor) : c.rest = c.takenBy n ++ (c.after n).rest := by
  induction n generalizing c with
  | zero => rfl
  | succ n ih =>
    calc c.rest = c.taken ++ c.next.2.rest := rest_eq_taken c
      _ = c.taken ++ (c.next.2.takenBy n ++ (c.next.2.after n).rest) := by rw [← ih]
      _ = c.takenBy (n + 1) ++ (c.after (n + 1)).rest := (List.append_assoc _ _ _).symm

theorem line_after (n : Nat) (c : Cursor) :
    (c.after n).line = c.line + (c.takenBy n).count '\n' := by
  induction n generalizing c with
  | zero => rfl
  | succ n ih => rw [after, takenBy, ih, line_next, List.count_append, Nat.add_assoc]

/-- At the end of the text nothing moves. -/
theorem after_of_rest_nil {c : Cursor} (h : c.rest = []) (k : Nat) : c.after k = c := by
  induction k with
  | zero => rfl
  | succ k ih => rw [after, next_of_rest_nil h, ih]

theorem next_of_isEnd {c behind : Cursor} {t : Token} (h : c.next = (.ok t, behind))
    (ht : t.terminal = .eof) : behind.next = (.ok t, behind) := by
  cases c.reads with
  | eof rest_eq next_eq =>
    cases h.symm.trans next_eq
    rfl
  | lexeme rest_eq next_eq =>
    have htoken := congrArg Prod.fst (h.symm.trans next_eq)
    exact absurd ht (ne_eof_of_token htoken.symm)

/-- What holds at a place with `before` in front of it, and of the next reading there. -/
structure InOrder (before : List Char) (c : Cursor) : Prop where
  /-- Lines are numbered by the line breaks before them. -/
  line_eq : c.line = 1 + before.count '\n'
  /-- What is read has the line that its lexeme starts on. -/
  reading_line : Reading.line c.next.1 = 1 + (before ++ c.gap).count '\n'
  /-- The reading takes the gap and the lexeme, and no more. -/
  rest_eq : c.rest = c.gap ++ Reading.lexeme c.next.1 ++ c.next.2.rest
  /-- Before the end, a reading moves on, whether it fails or not. -/
  forward : ¬ Reading.IsEnd c.next.1 →
    Reading.lexeme c.next.1 ≠ [] ∧ c.next.2.rest.length < c.rest.length
  /-- A numeral goes as far as there are digits and points. -/
  numeral : ∀ d ∈ (Reading.lexeme c.next.1).head?, d.isDigit = true →
    TakesNumeral (Reading.lexeme c.next.1) c.next.2.rest
  /-- A reading fails at a numeral with two points or more, and nowhere else. -/
  failure_iff : (∃ e, c.next.1 = .error e) ↔
    TakesNumeral (Reading.lexeme c.next.1) c.next.2.rest ∧
      2 ≤ (Reading.lexeme c.next.1).count '.'
  /-- Once the end is read nothing is left, and it is read again and again on the same line. -/
  ended : ∀ t, c.next.1 = .ok t → t.terminal = .eof →
    c.next.2.rest = [] ∧ ∀ k, (c.after (k + 1)).next = (.ok t, c.next.2)

theorem inOrder {before : List Char} {c : Cursor} (hline : c.line = 1 + before.count '\n') :
    InOrder before c where
  line_eq := hline
  reading_line := by rw [line_reading, hline, List.count_append, Nat.add_assoc]
  rest_eq := rest_eq_taken c
  forward hend := by
    refine ⟨lexeme_ne_nil hend, (next_rest_lt c).resolve_right ?_⟩
    rintro ⟨line, heof⟩
    exact hend ⟨_, heof, rfl⟩
  numeral _ hd hdigit := takesNumeral_next hd hdigit
  failure_iff := exists_error_iff c
  ended t ht heof := by
    have hnext : c.next = (.ok t, c.next.2) := Prod.ext ht rfl
    have hrest := rest_of_next_eof hnext heof
    refine ⟨hrest, fun k => ?_⟩
    rw [after, after_of_rest_nil hrest, next_of_isEnd hnext heof]

/-- After any number of readings, failed ones among them, the gaps and lexemes that were taken are
the text before the cursor, and the cursor and its next reading are in order. -/
theorem readings_follow_the_text (source : String) (n : Nat) :
    source.toList = (start source).takenBy n ++ ((start source).after n).rest ∧
      InOrder ((start source).takenBy n) ((start source).after n) :=
  ⟨rest_eq_takenBy n (start source), inOrder (line_after n (start source))⟩

end Cursor

end Lexer

end MeowLang
