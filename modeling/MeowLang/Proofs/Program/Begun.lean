import MeowLang.Proofs.Program.Progress
import MeowLang.Proofs.Token.Places

/-! Where the statements of a text begin. Wherever reading has come to, the sign it is on and the
one ahead are signs of the text that follow each other, so a binding that is read has its name
standing in the text, right behind the word that begins it. -/
namespace MeowLang

/-! ### Readers in a text -/

namespace Reader

open Lexer

variable {text : String} {r r' : Reader}

/-- The sign that a reader is on and the one ahead are signs of the text that follow each other. -/
def Reads (text : String) (r : Reader) : Prop :=
  ∃ n u between, ((Cursor.start text).after n).next = (.ok u, between) ∧ u.sign = r.here ∧
    between.sign = (.ok r.ahead, r.cursor)

theorem sign_of_onto {here : Sign} {errors : List SyntaxError} {taken : Taken} {h h'}
    (hr : onto here errors taken h h' = .ok r) :
    r.here = here ∧ taken = (.ok r.ahead, r.cursor) := by
  rcases taken with ⟨e | s, behind⟩
  · cases hr
  · cases hr
    exact ⟨rfl, rfl⟩

theorem sign_of_advance (h : r.advance = .ok r') :
    r'.here = r.ahead ∧ r.cursor.sign = (.ok r'.ahead, r'.cursor) := sign_of_onto h

theorem Reads.advance (hr : r.Reads text) (h : r.advance = .ok r') : r'.Reads text := by
  obtain ⟨n, u, between, hnext, -, hsign⟩ := hr
  obtain ⟨hhere, hahead⟩ := sign_of_advance h
  obtain ⟨m, v, hv, hvsign, -⟩ := Cursor.exists_next_of_sign hsign
  refine ⟨n + 1 + m, v, r.cursor, ?_, hvsign.trans hhere.symm, hahead⟩
  rwa [Cursor.after_add, Cursor.after_succ_of_next hnext]

theorem Reads.onto (hr : r.Reads text) (h : r.Onto r') : r'.Reads text := by
  induction h with
  | refl => exact hr
  | advance moved _ ih => exact ih (hr.advance moved)
  | record e _ ih => exact ih hr

theorem sign_of_ofFirst {taken : Taken} {h} (hr : ofFirst taken h = .ok r) :
    ∃ behind, taken = (.ok r.here, behind) ∧ behind.sign = (.ok r.ahead, r.cursor) := by
  rcases taken with ⟨e | s, behind⟩
  · cases hr
  · obtain ⟨rfl, hsign⟩ := sign_of_onto hr
    exact ⟨behind, rfl, hsign⟩

theorem reads_start (h : start text = .ok r) : r.Reads text := by
  obtain ⟨behind, hfirst, hsign⟩ := sign_of_ofFirst h
  obtain ⟨n, u, hu, husign, -⟩ := Cursor.exists_next_of_sign hfirst
  exact ⟨n, u, behind, hu, husign, hsign⟩

theorem Reads.line_pos (hr : r.Reads text) : 1 ≤ r.line := by
  obtain ⟨n, u, between, hnext, hu, -⟩ := hr
  have hline := (Cursor.inOrder (Cursor.line_after n (Cursor.start text))).reading_line
  rw [hnext] at hline
  rw [line, ← hu]
  exact (Nat.le_add_right 1 _).trans_eq hline.symm

/-- The name behind the word that begins a binding stands in the text, with a blank or a line break
before it. -/
theorem Reads.name_stands {x : String} (hr : r.Reads text) (hc : r.current = .mark .setWord)
    (hp : r.peek = .ident x) :
    IsName x ∧ ∃ before, text.toList = before ++ x.toList ++ r.cursor.rest ∧
      r.ahead.line = 1 + before.count '\n' ∧ ∃ d ∈ before.getLast?, isGap d = true := by
  obtain ⟨n, u, between, hnext, hu, hsign⟩ := hr
  obtain ⟨m, v, hv, hvsign, hjoined⟩ := Cursor.exists_next_of_sign hsign
  have hset : u.terminal = .mark .setWord := (congrArg Sign.terminal hu).trans hc
  have hname : v.terminal = .ident x := (congrArg Sign.terminal hvsign).trans hp
  have hplace : (Cursor.start text).after (n + 1 + m) = between.after m := by
    rw [Cursor.after_add, Cursor.after_succ_of_next hnext]
  rw [← hplace] at hv hjoined
  obtain ⟨before, htext, hline, hgap⟩ :=
    Cursor.name_stands hv hname (hjoined (Cursor.unjoined_of_setWord hnext hset))
  exact ⟨Cursor.isName_of_next hv hname, before, htext, by rw [← hvsign]; exact hline, hgap⟩

end Reader

/-! ### Statements with their beginnings -/

namespace Grammar

open Parse

variable {text : String} {r r' : Reader} {n : Nat}

/-- The statements up to the end of the text, each with the reader that it begins at. -/
def begun : Nat → Reader → List (Reader × Stmt)
  | 0, _ => []
  | n + 1, r =>
    if r.current = .eof then []
    else
      match attempt (statement n) r with
      | (.got first, r₁) =>
        match r₁.advance with
        | .ok r₂ => first.toList.map (r, ·) ++ begun n r₂
        | .error _ => []
      | _ => []

theorem begun_of_eof (h : r.current = .eof) : begun n r = [] := by
  cases n with
  | zero => rfl
  | succ n => rw [begun, if_pos h]

theorem begun_of_ne_eof {first : Option Stmt} {r₁ r₂ : Reader} (h : r.current ≠ .eof)
    (hfirst : attempt (statement n) r = (.got first, r₁)) (hadvance : r₁.advance = .ok r₂) :
    begun (n + 1) r = first.toList.map (r, ·) ++ begun n r₂ := by
  rw [begun, if_neg h, hfirst]
  simp only [hadvance]

theorem advance_of_got {u : Unit} (h : advance r = (.got u, r')) : r.advance = .ok r' := by
  rw [advance] at h
  split at h
  · rename_i hr
    cases h
    exact hr
  · cases h

/-- They are the statements that are read. -/
theorem map_begun {program : List Stmt} (h : statements n r = (.got program, r')) :
    (begun n r).map Prod.snd = program := by
  induction n generalizing r program with
  | zero => cases h
  | succ n ih =>
    by_cases hc : r.current = .eof
    · rw [statements_of_eof hc] at h
      cases h
      rw [begun_of_eof hc]
      rfl
    · rw [statements_of_ne_eof hc] at h
      obtain ⟨first, r₁, hfirst, h⟩ := exists_got_of_bind h
      obtain ⟨_, r₂, hadvance, h⟩ := exists_got_of_bind h
      obtain ⟨more, r₃, hmore, h⟩ := exists_got_of_bind h
      cases h
      rw [begun_of_ne_eof hc hfirst (advance_of_got hadvance), List.map_append, ih hmore]
      cases first <;> rfl

theorem statement_of_attempt {s : Stmt} (h : attempt (statement n) r = (.got (some s), r')) :
    statement n r = (.got s, r') := by
  rw [attempt] at h
  split at h <;> cases h
  assumption

/-- Each of them is read from the place that it begins at. -/
theorem reads_of_mem_begun (hr : r.Reads text) (hn : 8 * r.count + 6 ≤ n) :
    ∀ b ∈ begun n r, b.1.Reads text ∧ ∃ m r', statement m b.1 = (.got b.2, r') := by
  induction n generalizing r with
  | zero => omega
  | succ n ih =>
    intro b hb
    by_cases hc : r.current = .eof
    · rw [begun_of_eof hc] at hb
      cases hb
    · have hone := Reader.count_of_current rfl hc
      rcases attempt_ends ((ample n).statement r (by omega)) with
        ⟨first, r₁, hfirst, honto⟩ | ⟨e, r₁, hfirst, -⟩
      · cases hadvance : r₁.advance with
        | error e =>
          rw [begun, if_neg hc, hfirst] at hb
          simp only [hadvance] at hb
          cases hb
        | ok r₂ =>
          rw [begun_of_ne_eof hc hfirst hadvance, List.mem_append] at hb
          rcases hb with hb | hb
          · obtain ⟨s, hs, rfl⟩ := List.mem_map.mp hb
            obtain rfl : first = some s := by simpa using hs
            exact ⟨hr, n, r₁, statement_of_attempt hfirst⟩
          · have hle := honto.count_le
            have hcount : r₂.count = r₁.count - 1 := by
              simp [Reader.count, (Reader.Onto.signs_of_advance hadvance).1]
            exact ih ((hr.onto honto).advance hadvance) (by omega) b hb
      · rw [begun, if_neg hc, hfirst] at hb
        cases hb

/-! ### Bindings -/

theorem advance_of_expect {k : Kind} {u : Unit} (h : expect k r = (.got u, r')) :
    r.peek.kind = k ∧ r.advance = .ok r' := by
  obtain ⟨t, _, ht, h⟩ := exists_got_of_bind h
  cases ht
  by_cases hk : r.peek.kind = k
  · rw [if_pos hk] at h
    exact ⟨hk, advance_of_got h⟩
  · rw [if_neg hk] at h
    cases h

theorem advance_of_expectName {x : String} (h : expectName r = (.got x, r')) :
    r.peek = .ident x ∧ r.advance = .ok r' := by
  obtain ⟨_, r₁, hexpect, h⟩ := exists_got_of_bind h
  obtain ⟨t, _, ht, h⟩ := exists_got_of_bind h
  cases ht
  obtain ⟨-, hadvance⟩ := advance_of_expect hexpect
  have hpeek : r.peek = r₁.current := by
    rw [Reader.peek, Reader.current, (Reader.sign_of_advance hadvance).1]
  rw [hpeek]
  cases hc : r₁.current with
  | ident y =>
    rw [hc] at h
    cases h
    exact ⟨rfl, hadvance⟩
  | _ =>
    rw [hc] at h
    cases h

/-- Nothing else begins a binding. -/
theorem setWord_of_statement {x : String} {e : Expr} {l : Int}
    (h : statement n r = (.got (.bind x e l), r')) : r.current = .mark .setWord := by
  cases n with
  | zero => cases h
  | succ n =>
    rw [statement] at h
    obtain ⟨line, _, hline, h⟩ := exists_got_of_bind h
    cases hline
    obtain ⟨t, _, ht, h⟩ := exists_got_of_bind h
    cases ht
    -- each reading but one ends by making another statement
    cases hc : r.current with
    | mark m =>
      cases m with
      | setWord => rfl
      | semicolon =>
        rw [hc] at h
        cases h
      | returnWord =>
        simp only [hc] at h
        obtain ⟨t, _, ht, h⟩ := exists_got_of_bind h
        cases ht
        cases hp : r.peek with
        | mark m =>
          rw [hp] at h
          cases m <;> (repeat obtain ⟨_, _, _, h⟩ := exists_got_of_bind h) <;> cases h
        | _ =>
          rw [hp] at h
          repeat obtain ⟨_, _, _, h⟩ := exists_got_of_bind h
          cases h
      | _ =>
        simp only [hc] at h
        repeat obtain ⟨_, _, _, h⟩ := exists_got_of_bind h
        cases h
    | _ =>
      simp only [hc] at h
      repeat obtain ⟨_, _, _, h⟩ := exists_got_of_bind h
      cases h

/-- Its name and an equals sign come after the word that begins a binding, which has its line. -/
theorem bind_of_statement {x : String} {e : Expr} {l : Int}
    (h : statement n r = (.got (.bind x e l), r')) :
    l = r.line ∧ r.peek = .ident x ∧ ∃ r₁, r.advance = .ok r₁ ∧ r₁.peek = .mark .assign := by
  have hc := setWord_of_statement h
  cases n with
  | zero => cases h
  | succ n =>
    rw [statement] at h
    obtain ⟨line, _, hline, h⟩ := exists_got_of_bind h
    cases hline
    obtain ⟨t, _, ht, h⟩ := exists_got_of_bind h
    cases ht
    simp only [hc] at h
    obtain ⟨name, r₁, hname, h⟩ := exists_got_of_bind h
    obtain ⟨_, r₂, hassign, h⟩ := exists_got_of_bind h
    obtain ⟨_, r₃, -, h⟩ := exists_got_of_bind h
    obtain ⟨value, r₄, -, h⟩ := exists_got_of_bind h
    obtain ⟨_, r₅, -, h⟩ := exists_got_of_bind h
    cases h
    obtain ⟨hpeek, hadvance⟩ := advance_of_expectName hname
    refine ⟨rfl, hpeek, r₁, hadvance, ?_⟩
    have hkind := (advance_of_expect hassign).1
    cases hp : r₁.peek with
    | mark m =>
      rw [hp] at hkind
      cases hkind
      rfl
    | _ =>
      rw [hp] at hkind
      cases hkind

end Grammar

/-! ### Whole texts -/

/-- The statements of a text, each with the reader that it begins at. -/
def beginnings (text : String) : List (Reader × Stmt) :=
  match Reader.start text with
  | .ok r => Grammar.begun (Grammar.bound text) r
  | .error _ => []

theorem map_beginnings {text : String} {parsed : Parsed} (h : Parsed.ofSource text = .ok parsed) :
    (beginnings text).map Prod.snd = parsed.program := by
  rcases Parsed.ofSource_cases text with
    ⟨e, -, he⟩ | ⟨_, r, program, r', -, hr, -, -, -, hrun, -, hq⟩
  · cases h.symm.trans he
  · cases h.symm.trans hq
    rw [beginnings, hr]
    exact Grammar.map_begun hrun

/-- A reader on the word that begins a binding, whose name stands ahead, behind `before` in the
text. -/
structure Reader.Binds (text x : String) (before : List Char) (r : Reader) : Prop where
  current_eq : r.current = .mark .setWord
  isName : Lexer.IsName x
  ahead_eq : r.ahead = ⟨.ident x, 1 + before.count '\n'⟩
  text_eq : text.toList = before ++ x.toList ++ r.cursor.rest
  /-- No word goes over into the name, and the name goes over into none. -/
  gap_before : ∃ d ∈ before.getLast?, Lexer.isGap d = true
  ends_behind : ∀ d ∈ r.cursor.rest.head?, Text.isWordChar d = false

/-- What stands behind the name tells what stands before it. -/
theorem Reader.Binds.before_eq {text x : String} {before front : List Char} {r : Reader}
    (h : r.Binds text x before) (htext : text.toList = front ++ x.toList ++ r.cursor.rest) :
    before = front := by
  rw [h.text_eq, List.append_assoc, List.append_assoc] at htext
  exact List.append_cancel_right htext

theorem binds_of_mem_beginnings {text x : String} {r : Reader} {e : Expr} {l : Int}
    (h : (r, Stmt.bind x e l) ∈ beginnings text) :
    ∃ before, r.Binds text x before ∧ l = r.line ∧ 1 ≤ r.line := by
  rw [beginnings] at h
  split at h
  · rename_i start hstart
    obtain ⟨hreads, n, r', hrun⟩ :=
      Grammar.reads_of_mem_begun (Reader.reads_start hstart) (Grammar.count_start_le hstart) _ h
    have hc := Grammar.setWord_of_statement hrun
    obtain ⟨hl, hpeek, r₁, hadvance, hassign⟩ := Grammar.bind_of_statement hrun
    obtain ⟨hname, before, htext, hline, hgap⟩ := hreads.name_stands hc hpeek
    have hbehind :=
      Lexer.Cursor.not_isWordChar_of_sign (Reader.sign_of_advance hadvance).2 hassign
    have hahead : r.ahead = ⟨.ident x, 1 + before.count '\n'⟩ := by rw [← hpeek, ← hline]; rfl
    exact ⟨before, ⟨hc, hname, hahead, htext, hgap, hbehind⟩, hl, hreads.line_pos⟩
  · cases h

end MeowLang
