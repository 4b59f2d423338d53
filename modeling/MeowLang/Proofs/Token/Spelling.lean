import MeowLang.Proofs.Program.Written
import MeowLang.Proofs.Token.Signs

/-! Reading words back from text. A word is read whole wherever a space or the end of the text
follows it, so the text of words with one space between them has exactly their terminals. -/
namespace MeowLang.Written

open Lexer

/-- A word may end before this text. -/
def EndsWord (rest : List Char) : Prop := rest = [] ∨ ∃ more, rest = ' ' :: more

section
variable {rest : List Char}

/-- A run of characters ends where its word ends. -/
theorem span_of_endsWord {p : Char → Bool} {cs : List Char} (hp : ∀ c ∈ cs, p c = true)
    (hs : p ' ' = false) (hr : EndsWord rest) :
    (cs ++ rest).takeWhile p = cs ∧ (cs ++ rest).dropWhile p = rest := by
  rw [List.takeWhile_append_of_pos hp, List.dropWhile_append_of_pos hp]
  rcases hr with rfl | ⟨more, rfl⟩ <;> simp [hs]

theorem spanning_of_endsWord {p : Char → Bool} {c : Char} {cs : List Char}
    (hp : ∀ c ∈ cs, p c = true) (hs : p ' ' = false) (hr : EndsWord rest)
    (terminal : List Char → Option Terminal) :
    spanning p c (cs ++ rest) terminal = ⟨terminal (c :: cs), c :: cs, rest⟩ := by
  obtain ⟨ht, hd⟩ := span_of_endsWord hp hs hr
  simp only [spanning, ht, hd]

theorem not_isDigit_of_isNameChar {c : Char} (h : isNameChar c = true) : c.isDigit = false := by
  cases hd : c.isDigit with
  | false => rfl
  | true =>
    delta isNameChar Char.isAlpha Char.isUpper Char.isLower at h
    simp only [Char.isDigit, Bool.or_eq_true, Bool.and_eq_true, decide_eq_true_eq, beq_iff_eq,
      ge_iff_le, UInt32.le_iff_toNat_le] at h hd
    have hnine : '9'.val.toNat = 57 := rfl
    have hA : 'A'.val.toNat = 65 := rfl
    have ha : 'a'.val.toNat = 97 := rfl
    rcases h with (h | h) | rfl
    · omega
    · omega
    · revert hd
      decide

/-- A character of some class is not one that is not of that class. -/
theorem beq_eq_false_of_class {p : Char → Bool} {c d : Char} (hc : p c = true)
    (hd : p d = false) : (c == d) = false := by
  rw [beq_eq_false_iff_ne]
  rintro rfl
  rw [hc] at hd
  cases hd

/-- A character that is neither a blank nor a line break. -/
abbrev Solid (c : Char) : Prop := c ∉ ['\n', ' ', '\t', '\r']

theorem solid_of_class {p : Char → Bool} {c : Char} (hc : p c = true)
    (hp : ['\n', ' ', '\t', '\r'].all (fun d => !p d) = true) : Solid c := by
  intro h
  have hd := List.all_eq_true.mp hp c h
  rw [hc] at hd
  cases hd

theorem scan_name (x : Name) (hr : EndsWord rest) :
    ∃ c cs, x.letters = c :: cs ∧ Solid c ∧
      scan c (cs ++ rest) = ⟨some (.ident x.text), c :: cs, rest⟩ := by
  obtain ⟨letters, nonempty, hletters, hkey⟩ := x
  cases letters with
  | nil => exact absurd rfl nonempty
  | cons c cs =>
    have hc := hletters c List.mem_cons_self
    have hspan := spanning_of_endsWord (c := c) (fun d hd => hletters d (List.mem_cons_of_mem _ hd))
      rfl hr fun cs => some ((keyword? (String.ofList cs)).getD (.ident (String.ofList cs)))
    refine ⟨c, cs, rfl, solid_of_class hc rfl, ?_⟩
    simp only [scan, beq_eq_false_of_class (d := '/') hc rfl, Bool.false_and, Bool.false_eq_true,
      if_false, not_isDigit_of_isNameChar hc, beq_eq_false_of_class (d := '"') hc rfl, hc, if_true,
      hspan]
    simp only [hkey, Option.getD_none, Name.text]

/-! ### Numerals -/

theorem Numeral.numeral?_spelling (q : Numeral) : Decimal.numeral? q.spelling = some q.value := by
  have noPoint : ∀ ds : Digits, ∀ c ∈ ds.digits, (c != '.') = true := fun ds c hc => by
    simpa using beq_eq_false_of_class (d := '.') (ds.isDigit c hc) rfl
  obtain ⟨whole, fraction⟩ := q
  cases fraction with
  | none =>
    have ht : (whole.digits ++ []).takeWhile (· != '.') = whole.digits ++ [] :=
      List.takeWhile_append_of_pos (noPoint whole)
    have hd : (whole.digits ++ []).dropWhile (· != '.') = [] :=
      List.dropWhile_append_of_pos (noPoint whole)
    rw [List.append_nil] at ht hd
    simp [Decimal.numeral?, spelling, value, fractionDigits, ht, hd]
  | some ds =>
    have hpoint : '.' ∉ ds.digits := fun h => by simpa using noPoint ds _ h
    simp [Decimal.numeral?, spelling, value, fractionDigits,
      List.takeWhile_append_of_pos (noPoint whole), List.dropWhile_append_of_pos (noPoint whole),
      hpoint]

theorem Numeral.isNumeralChar_spelling (q : Numeral) :
    ∀ c ∈ q.spelling, isNumeralChar c = true := by
  have digit : ∀ ds : Digits, ∀ c ∈ ds.digits, isNumeralChar c = true := fun ds c hc => by
    simp [isNumeralChar, ds.isDigit c hc]
  obtain ⟨whole, fraction⟩ := q
  cases fraction with
  | none => exact digit whole
  | some ds =>
    intro c hc
    rcases List.mem_append.mp hc with hc | hc
    · exact digit whole c hc
    · rcases List.mem_cons.mp hc with rfl | hc
      · rfl
      · exact digit ds c hc

theorem Numeral.exists_spelling (q : Numeral) :
    ∃ c cs, q.spelling = c :: cs ∧ c.isDigit = true := by
  obtain ⟨⟨digits, nonempty, hdigit⟩, fraction⟩ := q
  cases digits with
  | nil => exact absurd rfl nonempty
  | cons c cs =>
    have hc := hdigit c List.mem_cons_self
    cases fraction with
    | none => exact ⟨c, cs, rfl, hc⟩
    | some ds => exact ⟨c, cs ++ '.' :: ds.digits, rfl, hc⟩

theorem scan_numeral (q : Numeral) (hr : EndsWord rest) :
    ∃ c cs, q.spelling = c :: cs ∧ Solid c ∧
      scan c (cs ++ rest) = ⟨some (.number q.value), c :: cs, rest⟩ := by
  obtain ⟨c, cs, hq, hc⟩ := q.exists_spelling
  have hall := q.isNumeralChar_spelling
  have hvalue := q.numeral?_spelling
  rw [hq] at hall hvalue
  have hspan := spanning_of_endsWord (c := c) (fun d hd => hall d (List.mem_cons_of_mem _ hd))
    rfl hr fun cs => (Decimal.numeral? cs).map .number
  refine ⟨c, cs, hq, solid_of_class hc rfl, ?_⟩
  simp only [scan, beq_eq_false_of_class (d := '/') hc rfl, Bool.false_and, Bool.false_eq_true,
    if_false, hc, if_true, hspan, hvalue, Option.map_some]

/-! ### Other words -/

theorem scan_quoted (b : Quotation) (rest : List Char) :
    scan '"' (b.body ++ '"' :: rest) =
      ⟨some (.string b.text), '"' :: (b.body ++ ['"']), rest⟩ := by
  have hb : ∀ c ∈ b.body, (c != '"') = true := fun c hc => by
    simp only [bne_iff_ne, ne_eq]
    rintro rfl
    exact b.noQuote hc
  change quoted (b.body ++ '"' :: rest) = _
  simp [quoted, List.takeWhile_append_of_pos hb, List.dropWhile_append_of_pos hb, Quotation.text]

theorem scan_mark (m : Mark) (hr : EndsWord rest) :
    ∃ c cs, (markText m).toList = c :: cs ∧ Solid c ∧
      scan c (cs ++ rest) = ⟨some (.mark m), c :: cs, rest⟩ := by
  rcases hr with rfl | ⟨more, rfl⟩ <;> cases m <;> exact ⟨_, _, rfl, by decide, rfl⟩

/-- Every word is read whole where it ends. -/
theorem scan_spelling (w : Word) (hr : EndsWord rest) :
    ∃ c cs, w.spelling = c :: cs ∧ Solid c ∧
      scan c (cs ++ rest) = ⟨some w.terminal, c :: cs, rest⟩ := by
  cases w with
  | name x => exact scan_name x hr
  | numeral q => exact scan_numeral q hr
  | quoted b =>
    refine ⟨'"', b.body ++ ['"'], rfl, by decide, ?_⟩
    rw [List.append_assoc]
    exact scan_quoted b rest
  | truth b =>
    rcases hr with rfl | ⟨more, rfl⟩ <;> cases b <;> exact ⟨_, _, rfl, by decide, rfl⟩
  | mark m => exact scan_mark m hr

end

/-! ### Texts -/

theorem skipBlanks_of_solid {c : Char} (h : Solid c) (cs : List Char) (line : Nat) :
    Cursor.skipBlanks (c :: cs) line = ⟨c :: cs, line⟩ := by
  simp only [Solid, List.mem_cons, List.not_mem_nil, or_false, not_or] at h
  obtain ⟨h1, h2, h3, h4⟩ := h
  simp [Cursor.skipBlanks, h1, h2, h3, h4]

theorem next_word (w : Word) {rest : List Char} (hr : EndsWord rest) (line : Nat) :
    ∃ lexeme behind, Cursor.next ⟨w.spelling ++ rest, line⟩ =
      (.ok ⟨w.terminal, lexeme, line⟩, ⟨rest, behind⟩) := by
  obtain ⟨c, cs, hw, hc, hscan⟩ := scan_spelling w hr
  refine ⟨String.ofList (c :: cs), line + (c :: cs).count '\n', ?_⟩
  simp only [Cursor.next, hw, List.cons_append, skipBlanks_of_solid hc, hscan, Scan.token]

theorem text_cons (w : Word) (ws : List Word) : ∃ rest, text (w :: ws) = w.spelling ++ rest ∧
    EndsWord rest ∧ (rest = text ws ∨ rest = ' ' :: text ws) := by
  cases ws with
  | nil => exact ⟨[], by simp [text], .inl rfl, .inl rfl⟩
  | cons v ws => exact ⟨' ' :: text (v :: ws), by simp [text], .inr ⟨_, rfl⟩, .inr rfl⟩

theorem terminal_ne_eof (w : Word) : w.terminal ≠ .eof := by
  cases w <;> exact fun h => nomatch h

theorem signs_cons (w : Word) (lexeme : String) (line : Nat) (ts : List Token) :
    Token.signs (⟨w.terminal, lexeme, line⟩ :: ts) = ⟨w.terminal, line⟩ :: Token.signs ts := by
  cases w <;> rfl

/-- The tokens of the text of words are the words' terminals. -/
theorem tokens_text (ws : List Word) (line : Nat) :
    ∃ ts, Cursor.tokens ⟨text ws, line⟩ = (ts, none) ∧
      (Token.signs ts).map Sign.terminal = ws.map Word.terminal := by
  -- a space in front is skipped, so both texts have the same first token
  have space : ∀ cs line, Cursor.next ⟨' ' :: cs, line⟩ = Cursor.next ⟨cs, line⟩ := fun _ _ => rfl
  suffices h : ∀ cs line, cs = text ws ∨ cs = ' ' :: text ws →
      ∃ ts, Cursor.tokens ⟨cs, line⟩ = (ts, none) ∧
        (Token.signs ts).map Sign.terminal = ws.map Word.terminal from h _ line (.inl rfl)
  induction ws with
  | nil =>
    intro cs line hcs
    have hnext : Cursor.next ⟨cs, line⟩ = (.ok ⟨.eof, "", line⟩, ⟨[], line⟩) := by
      rcases hcs with rfl | rfl <;> rfl
    exact ⟨_, by rw [Cursor.tokens_of_next hnext, if_pos rfl], rfl⟩
  | cons w ws ih =>
    intro cs line hcs
    obtain ⟨rest, htext, hends, hrest⟩ := text_cons w ws
    obtain ⟨lexeme, behind, hword⟩ := next_word w hends line
    have hnext : Cursor.next ⟨cs, line⟩ = (.ok ⟨w.terminal, lexeme, line⟩, ⟨rest, behind⟩) := by
      rw [htext] at hcs
      rcases hcs with rfl | rfl
      · exact hword
      · rw [space, hword]
    obtain ⟨ts, hts, hsigns⟩ := ih rest behind hrest
    refine ⟨⟨w.terminal, lexeme, line⟩ :: ts, ?_, ?_⟩
    · rw [Cursor.tokens_of_next hnext, if_neg (terminal_ne_eof w), hts]
    · rw [signs_cons, List.map_cons, List.map_cons, hsigns]

end MeowLang.Written
