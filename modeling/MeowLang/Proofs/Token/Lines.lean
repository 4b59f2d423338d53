import Mathlib.Data.List.TakeWhile
import MeowLang.Proofs.Token.Signs

/-! Texts one below the other. A line break ends every lexeme but a text in quotes, so a text that
leaves no quote open has its tokens whatever stands on the lines below it, and what stands there
has the tokens it would have alone, further down. -/
namespace MeowLang

def Token.shift (k : Nat) (t : Token) : Token := { t with line := t.line + k }

def Sign.shift (k : Nat) (s : Sign) : Sign := { s with line := s.line + k }

def MalformedNumber.shift (k : Nat) (e : MalformedNumber) : MalformedNumber :=
  { e with line := e.line + k }

def lineCount (source : String) : Nat := 1 + source.toList.count '\n'

/-- A quote stands at the start of the lexeme, and none closes it. -/
def Token.IsOpen (t : Token) : Prop := ∃ body, '"' ∉ body ∧ t.lexeme.toList = '"' :: body

theorem Token.isOpen_iff (t : Token) :
    t.IsOpen ↔ t.lexeme.toList.head? = some '"' ∧ '"' ∉ t.lexeme.toList.tail := by
  rw [IsOpen]
  cases t.lexeme.toList with
  | nil => simp
  | cons c cs =>
    constructor
    · rintro ⟨body, hbody, h⟩
      cases h
      exact ⟨rfl, hbody⟩
    · rintro ⟨h, hcs⟩
      exact ⟨cs, hcs, by rw [Option.some.inj h]⟩

instance (t : Token) : Decidable t.IsOpen := decidable_of_iff' _ t.isOpen_iff

theorem Token.signs_shift (k : Nat) (tokens : List Token) :
    Token.signs (tokens.map (Token.shift k)) = (Token.signs tokens).map (Sign.shift k) := by
  simp only [Token.signs, List.filterMap_map, List.map_filterMap]
  congr 1
  funext t
  simp only [Function.comp, Token.shift]
  cases t.terminal <;> rfl

namespace Lexer

/-! ### Further down -/

def Cursor.shift (k : Nat) (c : Cursor) : Cursor := { c with line := c.line + k }

namespace Cursor

theorem skipBlanks_shift (k : Nat) (cs : List Char) (line : Nat) :
    skipBlanks cs (line + k) = (skipBlanks cs line).shift k := by
  induction cs generalizing line with
  | nil => rfl
  | cons c cs ih =>
    unfold skipBlanks
    split
    · rw [Nat.add_right_comm, ih]
    split
    · exact ih line
    · rfl

theorem next_shift (k : Nat) (c : Cursor) :
    (c.shift k).next =
      ((c.next.1.map (Token.shift k)).mapError (MalformedNumber.shift k), c.next.2.shift k) := by
  unfold next
  rw [shift, skipBlanks_shift]
  generalize skipBlanks c.rest c.line = d
  obtain ⟨rest, line⟩ := d
  cases rest with
  | nil => rfl
  | cons ch rest =>
    simp only [shift, Scan.token]
    rw [Nat.add_right_comm]
    cases (scan ch rest).terminal <;> rfl

theorem tokens_shift (k : Nat) (c : Cursor) :
    (c.shift k).tokens =
      (c.tokens.1.map (Token.shift k), c.tokens.2.map (MalformedNumber.shift k)) := by
  induction hn : c.rest.length using Nat.strongRecOn generalizing c with
  | ind n ih =>
    have hnext := next_shift k c
    rcases hc : c.next with ⟨e | t, behind⟩
    · rw [hc] at hnext
      rw [tokens_of_next_error hc, tokens_of_next_error hnext]
      rfl
    · rw [hc] at hnext
      rw [tokens_of_next hc, tokens_of_next hnext]
      by_cases ht : t.terminal = .eof
      · have ht' : (t.shift k).terminal = .eof := ht
        rw [if_pos ht, if_pos ht']
        rfl
      · have ht' : (t.shift k).terminal ≠ .eof := ht
        have hlt := rest_lt_of_next hc ht
        rw [if_neg ht, if_neg ht', ih _ (hn ▸ hlt) behind rfl]
        rfl

end Cursor

/-! ### On the lines below -/

theorem takeWhile_below {p : Char → Bool} (hp : p '\n' = false) (cs below : List Char) :
    (cs ++ '\n' :: below).takeWhile p = cs.takeWhile p := by
  induction cs with
  | nil => simp [hp]
  | cons c cs ih => by_cases hc : p c = true <;> simp [hc, ih]

theorem dropWhile_below {p : Char → Bool} (hp : p '\n' = false) (cs below : List Char) :
    (cs ++ '\n' :: below).dropWhile p = cs.dropWhile p ++ '\n' :: below := by
  induction cs with
  | nil => simp [hp]
  | cons c cs ih => by_cases hc : p c = true <;> simp [hc, ih]

def Scan.below (s : Scan) (below : List Char) : Scan := { s with rest := s.rest ++ '\n' :: below }

theorem spanning_below {p : Char → Bool} (hp : p '\n' = false) (c : Char) (rest below : List Char)
    (terminal : List Char → Option Terminal) :
    spanning p c (rest ++ '\n' :: below) terminal = (spanning p c rest terminal).below below := by
  simp only [spanning, Scan.below, takeWhile_below hp, dropWhile_below hp]

theorem bne_of_not_mem {d : Char} {cs : List Char} (h : d ∉ cs) : ∀ c ∈ cs, (c != d) = true := by
  intro c hc
  rw [bne_iff_ne]
  rintro rfl
  exact h hc

theorem quoted_of_closed {body : List Char} (h : '"' ∉ body) (behind : List Char) :
    quoted (body ++ '"' :: behind) =
      ⟨some (.string (String.ofList body)), '"' :: body ++ ['"'], behind⟩ := by
  have hbody := bne_of_not_mem h
  simp [quoted, List.takeWhile_append_of_pos hbody, List.dropWhile_append_of_pos hbody]

/-- A quote that is never closed takes all of the text. -/
theorem quoted_of_open {body : List Char} (h : '"' ∉ body) :
    quoted body = ⟨some (.string (String.ofList body)), '"' :: body, []⟩ := by
  have hbody := bne_of_not_mem h
  simp only [quoted, List.dropWhile_eq_nil_iff.mpr hbody, List.takeWhile_eq_self_iff.mpr hbody]

theorem quoted_below {rest : List Char} (h : '"' ∈ rest) (below : List Char) :
    quoted (rest ++ '\n' :: below) = (quoted rest).below below := by
  obtain ⟨body, behind, rfl, hbody⟩ := List.eq_append_cons_of_mem h
  rw [List.append_assoc, List.cons_append, quoted_of_closed hbody, quoted_of_closed hbody]
  rfl

theorem symbol_below (c : Char) (rest below : List Char) :
    symbol c (rest ++ '\n' :: below) = (symbol c rest).below below := by
  cases rest with
  | nil =>
    have hd : double? c '\n' = none := by
      unfold double?
      split <;> simp_all
    simp only [symbol, List.nil_append, hd]
    rfl
  | cons d behind =>
    simp only [symbol, List.cons_append]
    cases double? c d <;> rfl

/-- Text on the lines below is no part of a lexeme, unless a quote is left open. -/
theorem scan_below {c : Char} {rest : List Char} (h : c = '"' → '"' ∈ rest) (below : List Char) :
    scan c (rest ++ '\n' :: below) = (scan c rest).below below := by
  have hhead : ((rest ++ '\n' :: below).head? == some '/') = (rest.head? == some '/') := by
    cases rest <;> rfl
  unfold scan
  rw [hhead]
  split
  · exact spanning_below rfl ..
  split
  · exact spanning_below rfl ..
  split
  · rename_i hc
    exact quoted_below (h (by simpa using hc)) below
  split
  · exact spanning_below rfl ..
  · exact symbol_below ..

theorem token_below (s : Scan) (below : List Char) (line : Nat) :
    (s.below below).token line = s.token line := rfl

/-- A lexeme and what stands behind it are the text it was taken from. -/
theorem scan_lexeme_append (c : Char) (rest : List Char) :
    (scan c rest).lexeme ++ (scan c rest).rest = c :: rest := by
  have hspan : ∀ p terminal, (spanning p c rest terminal).lexeme ++
      (spanning p c rest terminal).rest = c :: rest := by
    intro p terminal
    simp only [spanning, List.cons_append, List.takeWhile_append_dropWhile]
  unfold scan
  split
  · exact hspan _ _
  split
  · exact hspan _ _
  split
  · rename_i hc
    rw [(beq_iff_eq.mp hc : c = '"')]
    by_cases hmem : '"' ∈ rest
    · obtain ⟨body, behind, rfl, hbody⟩ := List.eq_append_cons_of_mem hmem
      rw [quoted_of_closed hbody]
      simp
    · rw [quoted_of_open hmem, List.append_nil]
  split
  · exact hspan _ _
  · unfold symbol
    split
    · rfl
    · split <;> rfl

theorem Scan.of_token {s : Scan} {line : Nat} {t : Token} (h : s.token line = .ok t) :
    s.terminal = some t.terminal ∧ t.lexeme = String.ofList s.lexeme := by
  unfold Scan.token at h
  cases hterminal : s.terminal with
  | none =>
    rw [hterminal] at h
    cases h
  | some u =>
    rw [hterminal] at h
    cases h
    exact ⟨rfl, rfl⟩

theorem ne_eof_of_token {c : Char} {rest : List Char} {line : Nat} {t : Token}
    (h : (scan c rest).token line = .ok t) : t.terminal ≠ .eof := by
  intro ht
  exact scan_ne_eof c rest ((Scan.of_token h).1.trans (congrArg some ht))

theorem scan_of_open {rest : List Char} (h : '"' ∉ rest) :
    scan '"' rest = ⟨some (.string (String.ofList rest)), '"' :: rest, []⟩ := quoted_of_open h

/-- A lexeme without its closing quote was taken where there is none. -/
theorem not_mem_of_scan {c : Char} {rest body : List Char} (hbody : '"' ∉ body)
    (h : (scan c rest).lexeme = '"' :: body) : c = '"' ∧ '"' ∉ rest := by
  have happend := scan_lexeme_append c rest
  rw [h, List.cons_append] at happend
  obtain ⟨rfl, -⟩ := List.cons.inj happend
  refine ⟨rfl, fun hmem => hbody ?_⟩
  obtain ⟨front, behind, rfl, hfront⟩ := List.eq_append_cons_of_mem hmem
  have hlexeme : (quoted (front ++ '"' :: behind)).lexeme = '"' :: body := h
  rw [quoted_of_closed hfront] at hlexeme
  rw [← (List.cons.inj hlexeme).2]
  exact List.mem_append_right _ List.mem_cons_self

namespace Cursor

/-- The place, with more text on the lines below. -/
def below (c : Cursor) (below : List Char) : Cursor := { c with rest := c.rest ++ '\n' :: below }

/-- The line that the text ends on. -/
def lastLine (c : Cursor) : Nat := c.line + c.rest.count '\n'

theorem lastLine_skipBlanks (cs : List Char) (line : Nat) :
    (skipBlanks cs line).lastLine = line + cs.count '\n' := by
  induction cs generalizing line with
  | nil => rfl
  | cons c cs ih =>
    unfold skipBlanks
    split
    · rename_i hc
      rw [ih, beq_iff_eq.mp hc, List.count_cons_self]
      omega
    · rename_i hc
      split
      · rw [ih, List.count_cons_of_ne (by simpa using hc)]
      · rfl

/-- Reading on does not change where the text ends. -/
theorem lastLine_next (c : Cursor) : c.next.2.lastLine = c.lastLine := by
  have hblanks := lastLine_skipBlanks c.rest c.line
  unfold next
  generalize skipBlanks c.rest c.line = d at hblanks
  obtain ⟨rest, line⟩ := d
  cases rest with
  | nil => exact hblanks
  | cons ch rest =>
    have hcount := congrArg (List.count '\n') (scan_lexeme_append ch rest)
    rw [List.count_append] at hcount
    simp only [lastLine] at hblanks ⊢
    omega

/-- Blanks up to the end of a text are followed by what stands below. -/
theorem skipBlanks_below_of_nil {cs : List Char} {line : Nat}
    (h : (skipBlanks cs line).rest = []) (below : List Char) :
    skipBlanks (cs ++ '\n' :: below) line = skipBlanks below (line + cs.count '\n' + 1) := by
  induction cs generalizing line with
  | nil => rfl
  | cons c cs ih =>
    rw [skipBlanks] at h
    rw [List.cons_append, skipBlanks]
    split at h
    · rename_i hc
      rw [if_pos hc, ih h, beq_iff_eq.mp hc, List.count_cons_self]
      congr 1
      omega
    · rename_i hc
      rw [if_neg hc, List.count_cons_of_ne (by simpa using hc)]
      split at h
      · rename_i hblank
        rw [if_pos hblank, ih h]
      · cases h

theorem skipBlanks_below {cs : List Char} {line : Nat}
    (h : (skipBlanks cs line).rest ≠ []) (below : List Char) :
    skipBlanks (cs ++ '\n' :: below) line = (skipBlanks cs line).below below := by
  induction cs generalizing line with
  | nil => exact absurd rfl h
  | cons c cs ih =>
    rw [List.cons_append]
    unfold skipBlanks at h ⊢
    split at h
    · rename_i hc
      rw [if_pos hc, if_pos hc, ih h]
    · rename_i hc
      rw [if_neg hc, if_neg hc]
      split at h
      · rename_i hblank
        rw [if_pos hblank, if_pos hblank, ih h]
      · rename_i hblank
        rw [if_neg hblank, if_neg hblank]
        rfl

theorem next_of_nil {c : Cursor} {line : Nat} (h : skipBlanks c.rest c.line = ⟨[], line⟩) :
    c.next = (.ok ⟨.eof, "", line⟩, ⟨[], line⟩) := by
  rw [next, h]

theorem next_of_cons {c : Cursor} {ch : Char} {rest : List Char} {line : Nat}
    (h : skipBlanks c.rest c.line = ⟨ch :: rest, line⟩) :
    c.next = ((scan ch rest).token line,
      ⟨(scan ch rest).rest, line + (scan ch rest).lexeme.count '\n'⟩) := by
  rw [next, h]

/-- What becomes of the next token with more text below. -/
inductive NextBelow (below : List Char) (c : Cursor) : Prop
  | eof {line : Nat} {behind : Cursor} (next_eq : c.next = (.ok ⟨.eof, "", line⟩, behind))
      (below_eq : (c.below below).next = (Cursor.mk below (c.lastLine + 1)).next)
  | token {t : Token} {behind : Cursor} (ne_eof : t.terminal ≠ .eof)
      (next_eq : c.next = (.ok t, behind))
      (below_eq : (c.below below).next = (.ok t, behind.below below))
  | cut {t : Token} {behind : Cursor} (isOpen : t.IsOpen) (ne_eof : t.terminal ≠ .eof)
      (next_eq : c.next = (.ok t, behind))
  | error {e : MalformedNumber} {behind : Cursor} (next_eq : c.next = (.error e, behind))

theorem nextBelow (below : List Char) (c : Cursor) : NextBelow below c := by
  rcases hblanks : skipBlanks c.rest c.line with ⟨_ | ⟨ch, rest⟩, line⟩
  · refine .eof (next_of_nil hblanks) ?_
    have hbelow := skipBlanks_below_of_nil (by rw [hblanks]) below
    rw [next, Cursor.below, hbelow]
    rfl
  · have hnext := next_of_cons hblanks
    have hbelow : skipBlanks (c.below below).rest (c.below below).line =
        ⟨ch :: (rest ++ '\n' :: below), line⟩ := by
      rw [Cursor.below, skipBlanks_below (by simp [hblanks]), hblanks]
      rfl
    have hnextBelow := next_of_cons hbelow
    cases htoken : (scan ch rest).token line with
    | error e => exact .error (hnext.trans (by rw [htoken]))
    | ok t =>
      rw [htoken] at hnext
      by_cases hclosed : ch = '"' → '"' ∈ rest
      · rw [scan_below hclosed, token_below, htoken] at hnextBelow
        exact .token (ne_eof_of_token htoken) hnext hnextBelow
      · obtain ⟨rfl, hrest⟩ := Classical.not_imp.mp hclosed
        refine .cut ⟨rest, hrest, ?_⟩ (ne_eof_of_token htoken) hnext
        rw [scan_of_open hrest] at htoken
        cases htoken
        exact String.toList_ofList

theorem tokens_congr {c d : Cursor} (h : c.next = d.next) : c.tokens = d.tokens := by
  rcases hd : d.next with ⟨e | t, behind⟩
  · rw [tokens_of_next_error hd, tokens_of_next_error (h.trans hd)]
  · rw [tokens_of_next hd, tokens_of_next (h.trans hd)]

/-- A text that leaves no quote open has its tokens, and below it those of what stands there. -/
theorem tokens_below {c : Cursor} (hfault : c.fault = none)
    (hclosed : ∀ t ∈ c.tokens.1, ¬ t.IsOpen) (below : List Char) :
    ∃ ts line, c.tokens.1 = ts ++ [⟨.eof, "", line⟩] ∧ (c.below below).tokens =
      (ts ++ (Cursor.mk below (c.lastLine + 1)).tokens.1,
        (Cursor.mk below (c.lastLine + 1)).tokens.2) := by
  induction hn : c.rest.length using Nat.strongRecOn generalizing c with
  | ind n ih =>
    cases nextBelow below c with
    | @eof line behind next_eq below_eq =>
      have htokens := tokens_of_next next_eq
      rw [if_pos rfl] at htokens
      refine ⟨[], line, by rw [htokens]; rfl, ?_⟩
      rw [tokens_congr below_eq]
      rfl
    | @token t behind ne_eof next_eq below_eq =>
      have htokens := tokens_of_next next_eq
      rw [if_neg ne_eof] at htokens
      rw [fault, htokens] at hfault
      rw [htokens] at hclosed
      have hlast := lastLine_next c
      rw [next_eq] at hlast
      obtain ⟨ts, line, hts, hbelow⟩ := ih _ (hn ▸ rest_lt_of_next next_eq ne_eof) hfault
        (fun u hu => hclosed u (List.mem_cons_of_mem _ hu)) rfl
      refine ⟨t :: ts, line, by rw [htokens, hts]; rfl, ?_⟩
      rw [tokens_of_next below_eq, if_neg ne_eof, hbelow, hlast]
      rfl
    | @cut t behind isOpen ne_eof next_eq =>
      have htokens := tokens_of_next next_eq
      rw [if_neg ne_eof] at htokens
      rw [htokens] at hclosed
      exact absurd isOpen (hclosed t List.mem_cons_self)
    | error next_eq =>
      rw [fault, tokens_of_next_error next_eq] at hfault
      cases hfault

theorem string_of_isOpen {c behind : Cursor} {t : Token} (hnext : c.next = (.ok t, behind))
    (ht : t.IsOpen) : behind.rest = [] ∧ ∃ body, t.terminal = .string body := by
  obtain ⟨body, hbody, hlexeme⟩ := ht
  rcases hblanks : skipBlanks c.rest c.line with ⟨_ | ⟨ch, rest⟩, line⟩
  · rw [next_of_nil hblanks] at hnext
    cases hnext
    cases hlexeme
  · rw [next_of_cons hblanks] at hnext
    obtain ⟨htoken, rfl⟩ := Prod.mk.inj hnext
    have hscan : (scan ch rest).lexeme = '"' :: body := by
      rwa [(Scan.of_token htoken).2, String.toList_ofList] at hlexeme
    obtain ⟨rfl, hrest⟩ := not_mem_of_scan hbody hscan
    rw [scan_of_open hrest] at htoken ⊢
    cases htoken
    exact ⟨rfl, _, rfl⟩

/-- A quote left open is the last sign of its text. -/
theorem not_isOpen_of_getLast {c : Cursor}
    (hlast : ∀ s ∈ c.signs.getLast?, ∀ body, s.terminal ≠ .string body) :
    ∀ t ∈ c.tokens.1, ¬ t.IsOpen := by
  induction hn : c.rest.length using Nat.strongRecOn generalizing c with
  | ind n ih =>
    rcases hnext : c.next with ⟨e | t, behind⟩
    · rw [tokens_of_next_error hnext]
      exact List.forall_mem_nil _
    · have htokens := tokens_of_next hnext
      by_cases ht : t.terminal = .eof
      · rw [if_pos ht] at htokens
        rw [htokens, List.forall_mem_singleton]
        intro hopen
        obtain ⟨-, body, hbody⟩ := string_of_isOpen hnext hopen
        rw [ht] at hbody
        cases hbody
      · rw [if_neg ht] at htokens
        have hsigns : c.signs = Token.signs [t] ++ behind.signs := by
          rw [signs, htokens, signs, Token.signs, Token.signs, Token.signs, ← List.filterMap_append]
          rfl
        rw [hsigns, List.getLast?_append] at hlast
        rw [htokens, List.forall_mem_cons]
        refine ⟨fun hopen => ?_, ih _ (hn ▸ rest_lt_of_next hnext ht) (fun s hs => ?_) rfl⟩
        · obtain ⟨hrest, body, hbody⟩ := string_of_isOpen hnext hopen
          refine hlast ⟨.string body, t.line⟩ ?_ body rfl
          rw [(signs_of_rest_nil hrest).1]
          simp [Token.signs, hbody]
        · exact hlast s (by rw [Option.mem_def.mp hs]; rfl)

/-- The tokens of two texts, one below the other. -/
theorem tokens_start_below {upper : String} (hfault : (start upper).fault = none)
    (hclosed : ∀ t ∈ (start upper).tokens.1, ¬ t.IsOpen) (lower : String) :
    ∃ ts line, (start upper).tokens.1 = ts ++ [⟨.eof, "", line⟩] ∧
      (start (upper ++ "\n" ++ lower)).tokens =
        (ts ++ (start lower).tokens.1.map (Token.shift (lineCount upper)),
          (start lower).tokens.2.map (MalformedNumber.shift (lineCount upper))) := by
  have hstart : start (upper ++ "\n" ++ lower) = (start upper).below lower.toList := by
    simp [start, below]
  have hlower : Cursor.mk lower.toList ((start upper).lastLine + 1) =
      (start lower).shift (lineCount upper) := by
    simp only [start, shift, lastLine, lineCount]
    congr 1
    omega
  obtain ⟨ts, line, hts, hbelow⟩ := tokens_below hfault hclosed lower.toList
  refine ⟨ts, line, hts, ?_⟩
  rw [hstart, hbelow, hlower, tokens_shift]

/-- The signs of two texts, one below the other. -/
theorem signs_start_below {upper : String} (hfault : (start upper).fault = none)
    (hlast : ∀ s ∈ (start upper).signs.getLast?, ∀ body, s.terminal ≠ .string body)
    (lower : String) :
    (start (upper ++ "\n" ++ lower)).signs =
        (start upper).signs ++ (start lower).signs.map (Sign.shift (lineCount upper)) ∧
      (start (upper ++ "\n" ++ lower)).fault =
        (start lower).fault.map (MalformedNumber.shift (lineCount upper)) := by
  obtain ⟨ts, line, hts, htokens⟩ :=
    tokens_start_below hfault (not_isOpen_of_getLast hlast) lower
  have hupper : (start upper).signs = Token.signs ts := by
    rw [signs, hts, Token.signs, List.filterMap_append]
    simp [Token.signs]
  refine ⟨?_, by rw [fault, htokens, fault]⟩
  rw [hupper, signs, htokens, signs, ← Token.signs_shift, Token.signs, List.filterMap_append]
  rfl

end Cursor

end Lexer

/-- Below a text that has tokens and leaves no quote open, every text has the tokens that it has
alone, further down, or stops at the numeral that it stops at alone. Above them are the tokens of
the upper text, without its end. -/
theorem texts_are_tokenized_one_below_the_other {upper : String} {tokens : List Token}
    (htokens : tokenize upper = .ok tokens) (hclosed : ∀ t ∈ tokens, ¬ t.IsOpen) (lower : String) :
    ∃ ts line, tokens = ts ++ [⟨.eof, "", line⟩] ∧
      tokenize (upper ++ "\n" ++ lower) =
        ((tokenize lower).map fun more => ts ++ more.map (Token.shift (lineCount upper))).mapError
          (MalformedNumber.shift (lineCount upper)) := by
  rw [tokenize] at htokens
  rcases hupper : (Lexer.Cursor.start upper).tokens with ⟨us, _ | e⟩
  · rw [hupper] at htokens
    cases htokens
    obtain ⟨ts, line, hts, hbelow⟩ := Lexer.Cursor.tokens_start_below
      (by rw [Lexer.Cursor.fault, hupper]) (by rwa [hupper]) lower
    rw [hupper] at hts
    refine ⟨ts, line, hts, ?_⟩
    rw [tokenize, hbelow, tokenize]
    rcases (Lexer.Cursor.start lower).tokens with ⟨more, _ | e⟩ <;> rfl
  · rw [hupper] at htokens
    cases htokens

/-- The signs on the two sides of the line break stay apart; on one line they would be one. -/
theorem texts_are_tokenized_one_below_the_other_between_two_signs :
    tokenize "\"a\nb\" <" =
        .ok [⟨.string "a\nb", "\"a\nb\"", 1⟩, ⟨.mark .less, "<", 2⟩, ⟨.eof, "", 2⟩] ∧
      tokenize ("\"a\nb\" <" ++ "\n" ++ "= //") =
        .ok [⟨.string "a\nb", "\"a\nb\"", 1⟩, ⟨.mark .less, "<", 2⟩, ⟨.mark .assign, "=", 3⟩,
          ⟨.comment, "//", 3⟩, ⟨.eof, "", 3⟩] := by
  have hupper : tokenize "\"a\nb\" <" =
      .ok ([⟨.string "a\nb", "\"a\nb\"", 1⟩, ⟨.mark .less, "<", 2⟩] ++ [⟨.eof, "", 2⟩]) := by
    decide +kernel
  have hlower : tokenize "= //" =
      .ok [⟨.mark .assign, "=", 1⟩, ⟨.comment, "//", 1⟩, ⟨.eof, "", 1⟩] := by
    decide +kernel
  obtain ⟨ts, line, hts, hjoined⟩ :=
    texts_are_tokenized_one_below_the_other hupper (by decide) "= //"
  obtain ⟨rfl, -⟩ := List.append_inj' hts rfl
  refine ⟨hupper, ?_⟩
  rw [hjoined, hlower]
  rfl

end MeowLang
