import MeowLang.Decimal.Numeral
import MeowLang.Token

/-! Reading tokens from text one at a time. Each reading skips blanks and takes one
lexeme, so a reading that does not meet the end leaves a shorter rest; a numeral with
two points fails, and reading can go on behind it. -/
namespace MeowLang

/-- A run of digits and points that is no number. -/
structure MalformedNumber where
  literal : String
  line : Nat
  deriving DecidableEq, Repr

def MalformedNumber.message (e : MalformedNumber) : String :=
  "Malformed number '" ++ e.literal ++ "' on line " ++ toString e.line

namespace Lexer

def isNameChar (c : Char) : Bool := c.isAlpha || c == '_'

def isNumeralChar (c : Char) : Bool := c.isDigit || c == '.'

/-- The words that are no names, in both their spellings. -/
def keyword? : String → Option Terminal
  | "scratch" | "set" => some (.mark .setWord)
  | "amew" | "anew" => some (.mark .anewWord)
  | "pawction" | "function" => some (.mark .functionWord)
  | "purrhaps" | "if" => some (.mark .ifWord)
  | "meowtually" | "else" => some (.mark .elseWord)
  | "tail" | "return" => some (.mark .returnWord)
  | "pawckage" | "include" => some (.mark .includeWord)
  | "furreal" | "typeof" => some (.mark .typeofWord)
  | "furrever" | "loop" => some (.mark .loopWord)
  | "hiss" | "break" => some (.mark .breakWord)
  | "continue" => some (.mark .continueWord)
  | "purrfect" | "true" => some (.boolean true)
  | "clawful" | "false" => some (.boolean false)
  | "in" => some (.mark .member)
  | _ => none

def double? : Char → Char → Option Mark
  | '=', '=' => some .equal
  | '!', '=' => some .notEqual
  | '<', '=' => some .lessEqual
  | '>', '=' => some .greaterEqual
  | '<', '<' => some .shiftLeft
  | '>', '>' => some .shiftRight
  | _, _ => none

def single? : Char → Option Mark
  | '=' => some .assign
  | '!' => some .bang
  | '<' => some .less
  | '>' => some .greater
  | '+' => some .plus
  | '-' => some .minus
  | '*' => some .star
  | '/' => some .slash
  | '%' => some .percent
  | '~' => some .member
  | '&' => some .ampersand
  | '|' => some .pipe
  | '^' => some .caret
  | ',' => some .comma
  | ':' => some .colon
  | ';' => some .semicolon
  | '(' => some .leftParen
  | ')' => some .rightParen
  | '\x7b' => some .leftBrace
  | '\x7d' => some .rightBrace
  | '[' => some .leftBracket
  | ']' => some .rightBracket
  | _ => none

/-- A lexeme, what stands behind it, and the terminal it spells; `none` for a
numeral that is no number. -/
structure Scan where
  terminal : Option Terminal
  lexeme : List Char
  rest : List Char

def Scan.token (s : Scan) (line : Nat) : Except MalformedNumber Token :=
  let lexeme := String.ofList s.lexeme
  match s.terminal with
  | some t => .ok ⟨t, lexeme, line⟩
  | none => .error ⟨lexeme, line⟩

/-- The first character and the run of characters behind it that belong to it. -/
def spanning (p : Char → Bool) (c : Char) (rest : List Char)
    (terminal : List Char → Option Terminal) : Scan :=
  let run := rest.takeWhile p
  ⟨terminal (c :: run), c :: run, rest.dropWhile p⟩

/-- A text in quotes; a missing quote at its end is forgiven. -/
def quoted (rest : List Char) : Scan :=
  let body := rest.takeWhile (· != '"')
  let terminal := some (.string (String.ofList body))
  match rest.dropWhile (· != '"') with
  | _ :: behind => ⟨terminal, '"' :: body ++ ['"'], behind⟩
  | [] => ⟨terminal, '"' :: body, []⟩

/-- A lexeme of one character that is no literal, name or comment. -/
def lone (c : Char) (rest : List Char) : Scan :=
  ⟨some (match single? c with | some m => .mark m | none => .illegal), [c], rest⟩

/-- A symbol of two characters where there is one, otherwise one character alone. -/
def symbol (c : Char) : List Char → Scan
  | [] => lone c []
  | d :: behind =>
    match double? c d with
    | some m => ⟨some (.mark m), [c, d], behind⟩
    | none => lone c (d :: behind)

/-- The lexeme that starts with `c`. -/
def scan (c : Char) (rest : List Char) : Scan :=
  if c == '/' && rest.head? == some '/' then
    spanning (· != '\n') c rest fun _ => some .comment
  else if c.isDigit then
    spanning isNumeralChar c rest fun cs => (Decimal.numeral? cs).map .number
  else if c == '"' then quoted rest
  else if isNameChar c then
    spanning isNameChar c rest fun cs =>
      let name := String.ofList cs
      some ((keyword? name).getD (.ident name))
  else symbol c rest

/-- A place in a text: what is still to be read, and its line. -/
structure Cursor where
  rest : List Char
  line : Nat
  deriving DecidableEq, Repr

namespace Cursor

def start (source : String) : Cursor := ⟨source.toList, 1⟩

/-- The next place that holds neither a blank nor a line break. -/
def skipBlanks : List Char → Nat → Cursor
  | [], line => ⟨[], line⟩
  | c :: rest, line =>
    if c == '\n' then skipBlanks rest (line + 1)
    else if c == ' ' || c == '\t' || c == '\r' then skipBlanks rest line
    else ⟨c :: rest, line⟩

/-- Reads one token. At the end of the text the token is the end mark, again and again. -/
def next (c : Cursor) : Except MalformedNumber Token × Cursor :=
  let c := skipBlanks c.rest c.line
  match c.rest with
  | [] => (.ok ⟨.eof, "", c.line⟩, c)
  | ch :: rest =>
    let s := scan ch rest
    (s.token c.line, ⟨s.rest, c.line + s.lexeme.count '\n'⟩)

end Cursor

/-! ### Reading to the end -/

theorem dropWhile_length_le (p : Char → Bool) (cs : List Char) :
    (cs.dropWhile p).length ≤ cs.length :=
  (List.dropWhile_sublist p).length_le

theorem quoted_rest_length_le (rest : List Char) : (quoted rest).rest.length ≤ rest.length := by
  have h := dropWhile_length_le (· != '"') rest
  unfold quoted
  split
  · rename_i heq
    simp only [heq, List.length_cons] at h
    exact Nat.le_of_succ_le h
  · exact Nat.zero_le _

theorem symbol_rest_length_le (c : Char) (rest : List Char) :
    (symbol c rest).rest.length ≤ rest.length := by
  unfold symbol
  split
  · exact Nat.le_refl _
  · split
    · exact Nat.le_succ _
    · exact Nat.le_refl _

theorem scan_rest_length_le (c : Char) (rest : List Char) :
    (scan c rest).rest.length ≤ rest.length := by
  unfold scan
  split
  · exact dropWhile_length_le _ _
  split
  · exact dropWhile_length_le _ _
  split
  · exact quoted_rest_length_le _
  split
  · exact dropWhile_length_le _ _
  · exact symbol_rest_length_le _ _

theorem Cursor.skipBlanks_rest_length_le (cs : List Char) (line : Nat) :
    (skipBlanks cs line).rest.length ≤ cs.length := by
  induction cs generalizing line with
  | nil => exact Nat.le_refl _
  | cons c cs ih =>
    unfold skipBlanks
    split
    · exact Nat.le_succ_of_le (ih _)
    split
    · exact Nat.le_succ_of_le (ih _)
    · exact Nat.le_refl _

/-- A reading leaves a shorter rest, or the end mark and nothing. -/
theorem Cursor.next_rest_lt (c : Cursor) :
    c.next.2.rest.length < c.rest.length ∨ ∃ line, c.next.1 = .ok ⟨.eof, "", line⟩ := by
  have hb := skipBlanks_rest_length_le c.rest c.line
  unfold next
  simp only
  split
  · exact .inr ⟨_, rfl⟩
  · rename_i ch rest heq
    have hs := scan_rest_length_le ch rest
    simp only [heq, List.length_cons] at hb
    exact .inl (Nat.lt_of_le_of_lt hs hb)

/-- A reading that does not meet the end leaves a shorter rest. -/
theorem Cursor.rest_lt_of_next {c behind : Cursor} {t : Token} (h : c.next = (.ok t, behind))
    (ht : t.terminal ≠ .eof) : behind.rest.length < c.rest.length := by
  rcases next_rest_lt c with hlt | ⟨line, heq⟩
  · rwa [h] at hlt
  · rw [h] at heq
    exact absurd (congrArg Token.terminal (Except.ok.inj heq)) ht

/-- The tokens up to the first numeral that fails, or up to and including the end mark. -/
def Cursor.tokens (c : Cursor) : List Token × Option MalformedNumber :=
  match h : c.next with
  | (.error e, _) => ([], some e)
  | (.ok t, behind) =>
    if ht : t.terminal = .eof then ([t], none)
    else
      have := rest_lt_of_next h ht
      let (ts, failure) := tokens behind
      (t :: ts, failure)
termination_by c.rest.length

/-- Reads one sign; comments are gone over. -/
def Cursor.sign (c : Cursor) : Except MalformedNumber Sign × Cursor :=
  match h : c.next with
  | (.error e, behind) => (.error e, behind)
  | (.ok t, behind) =>
    if ht : t.terminal = .comment then
      have := rest_lt_of_next h (by simp [ht])
      sign behind
    else (.ok ⟨t.terminal, t.line⟩, behind)
termination_by c.rest.length

/-! ### The end of the text -/

theorem keyword?_ne_eof (name : String) : keyword? name ≠ some .eof := by
  unfold keyword?
  split <;> simp

/-- No lexeme spells the end of the text. -/
theorem scan_ne_eof (c : Char) (rest : List Char) : (scan c rest).terminal ≠ some .eof := by
  unfold scan
  split
  · simp [spanning]
  split
  · simp [spanning]
  split
  · unfold quoted
    split <;> simp
  split
  · have hk := keyword?_ne_eof (String.ofList (c :: rest.takeWhile isNameChar))
    simp only [spanning]
    cases hw : keyword? (String.ofList (c :: rest.takeWhile isNameChar)) with
    | none => simp
    | some t =>
      rw [hw] at hk
      simpa using hk
  · unfold symbol lone
    split
    · split <;> simp
    · split
      · simp
      · split <;> simp

theorem Cursor.next_of_rest_nil {c : Cursor} (h : c.rest = []) :
    c.next = (.ok ⟨.eof, "", c.line⟩, c) := by
  obtain ⟨rest, line⟩ := c
  subst h
  rfl

/-- The end mark is read only where nothing is left. -/
theorem Cursor.rest_of_next_eof {c behind : Cursor} {t : Token} (h : c.next = (.ok t, behind))
    (ht : t.terminal = .eof) : behind.rest = [] := by
  unfold next at h
  simp only at h
  split at h
  · rename_i heq
    cases h
    exact heq
  · rename_i ch rest heq
    have hs := scan_ne_eof ch rest
    simp only [Scan.token, Prod.mk.injEq] at h
    obtain ⟨htoken, -⟩ := h
    split at htoken
    · rename_i u hu
      cases htoken
      exact absurd (by rw [hu, ← ht]) hs
    · cases htoken

theorem Cursor.sign_of_rest_nil {c : Cursor} (h : c.rest = []) :
    c.sign = (.ok ⟨.eof, c.line⟩, c) := by
  rw [sign]
  split <;> rename_i heq <;> rw [next_of_rest_nil h] at heq <;> cases heq
  rfl

theorem Cursor.rest_of_sign_eof {c behind : Cursor} {s : Sign} (h : c.sign = (.ok s, behind))
    (hs : s.terminal = .eof) : behind.rest = [] := by
  induction hn : c.rest.length using Nat.strongRecOn generalizing c with
  | ind n ih =>
    rw [sign] at h
    split at h
    · cases h
    · rename_i t between heq
      split at h
      · rename_i ht
        have hlt := rest_lt_of_next heq (by simp [ht])
        exact ih _ (by omega) h rfl
      · cases h
        exact rest_of_next_eof heq hs

end Lexer

def tokenize (source : String) : Except MalformedNumber (List Token) :=
  match (Lexer.Cursor.start source).tokens with
  | (ts, none) => .ok ts
  | (_, some e) => .error e

end MeowLang
