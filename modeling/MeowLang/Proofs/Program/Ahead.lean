import MeowLang.Program.Grammar
import MeowLang.Proofs.Token.Signs

/-! What a reader has still to read. A reader holds two signs and a place in the text; seen from
outside it is a list of signs, the current one first, that ends with the text or with a numeral
that is no number. Each step of a reading is described on that list, and what is to hold of the
end of a reading is put together from its steps. -/
namespace MeowLang

/-- The terminal that signs begin with; behind the last one stands the end of the text. -/
def Sign.first : List Sign → Terminal
  | [] => .eof
  | s :: _ => s.terminal

namespace Reader

variable (r : Reader)

/-- The signs still to be read. -/
def signs : List Sign := [r.here, r.ahead].filter (·.terminal ≠ .eof) ++ r.cursor.signs

/-- The numeral that reading comes to instead of the end of the text. -/
def fault : Option MalformedNumber := r.cursor.fault

theorem signs_cases :
    (r.current = .eof ∧ r.peek = .eof ∧ r.signs = [] ∧ r.fault = none) ∨
    (r.current ≠ .eof ∧ r.peek = .eof ∧ r.signs = [r.here] ∧ r.fault = none) ∨
    (r.current ≠ .eof ∧ r.peek ≠ .eof ∧ r.signs = r.here :: r.ahead :: r.cursor.signs) := by
  by_cases ha : r.ahead.terminal = .eof
  · obtain ⟨hsigns, hfault⟩ := Lexer.Cursor.signs_of_rest_nil (r.rest_of_ahead ha)
    by_cases hh : r.here.terminal = .eof
    · exact .inl ⟨hh, ha, by simp [signs, hh, ha, hsigns], hfault⟩
    · exact .inr (.inl ⟨hh, ha, by simp [signs, hh, ha, hsigns], hfault⟩)
  · have hh : r.here.terminal ≠ .eof := fun hh => ha (r.ahead_of_here hh)
    exact .inr (.inr ⟨hh, ha, by simp [signs, hh, ha]⟩)

theorem current_eq : r.current = Sign.first r.signs := by
  rcases r.signs_cases with ⟨hc, -, hs, -⟩ | ⟨-, -, hs, -⟩ | ⟨-, -, hs⟩ <;> rw [hs]
  · exact hc
  · rfl
  · rfl

theorem peek_eq : r.peek = Sign.first r.signs.tail := by
  rcases r.signs_cases with ⟨-, hp, hs, -⟩ | ⟨-, hp, hs, -⟩ | ⟨-, -, hs⟩ <;> rw [hs]
  · exact hp
  · exact hp
  · rfl

theorem line_eq {s : Sign} {ss : List Sign} (h : r.signs = s :: ss) : r.line = s.line := by
  rcases r.signs_cases with ⟨-, -, hs, -⟩ | ⟨-, -, hs, -⟩ | ⟨-, -, hs⟩ <;> rw [hs] at h <;>
    cases h <;> rfl

theorem length_pos_of_current (h : r.current ≠ .eof) : 1 ≤ r.signs.length := by
  rcases r.signs_cases with ⟨hc, -⟩ | ⟨-, -, hs, -⟩ | ⟨-, -, hs⟩
  · exact absurd hc h
  all_goals simp [hs]

theorem two_le_length_of_peek (h : r.peek ≠ .eof) : 2 ≤ r.signs.length := by
  rcases r.signs_cases with ⟨-, hp, -⟩ | ⟨-, hp, -⟩ | ⟨-, -, hs⟩
  · exact absurd hp h
  · exact absurd hp h
  · simp [hs]

/-- Before a numeral that is no number there are always two signs. -/
theorem two_le_length_of_fault {e : MalformedNumber} (h : r.fault = some e) :
    2 ≤ r.signs.length := by
  rcases r.signs_cases with ⟨-, -, -, hf⟩ | ⟨-, -, -, hf⟩ | ⟨-, -, hs⟩
  · simp [hf] at h
  · simp [hf] at h
  · simp [hs]

theorem signs_of_current (h : r.current = .eof) : r.signs = [] ∧ r.fault = none := by
  rcases r.signs_cases with ⟨-, -, hs, hf⟩ | ⟨hc, -⟩ | ⟨hc, -⟩
  · exact ⟨hs, hf⟩
  · exact absurd h hc
  · exact absurd h hc

theorem rest_of_current (h : r.current = .eof) : r.cursor.rest = [] :=
  r.rest_of_ahead (r.ahead_of_here h)

theorem onto_cases {cursor : Lexer.Cursor} {taken : Taken} (ht : cursor.Takes taken) (here : Sign)
    (errors : List SyntaxError)
    (h : ∀ s behind, taken = (.ok s, behind) → here.terminal = .eof → s.terminal = .eof)
    (h' : ∀ s behind, taken = (.ok s, behind) → s.terminal = .eof → behind.rest = []) :
    (∃ r, onto here errors taken h h' = .ok r ∧
      r.signs = [here].filter (·.terminal ≠ .eof) ++ cursor.signs ∧
      r.fault = cursor.fault ∧ r.errors = errors) ∨
    ∃ e, onto here errors taken h h' = .error e ∧ cursor.signs = [] ∧ cursor.fault = some e := by
  cases ht with
  | broken signs_eq fault_eq => exact .inr ⟨_, rfl, signs_eq, fault_eq⟩
  | sign ne_eof signs_eq fault_eq =>
    refine .inl ⟨_, rfl, ?_, fault_eq.symm, rfl⟩
    by_cases hh : here.terminal = .eof <;> simp [signs, signs_eq, ne_eof, hh]
  | eof signs_eq fault_eq =>
    obtain ⟨hsigns, hfault⟩ := Lexer.Cursor.signs_of_rest_nil (h' _ _ rfl rfl)
    refine .inl ⟨_, rfl, ?_, hfault.trans fault_eq.symm, rfl⟩
    simp [signs, signs_eq, hsigns, List.filter_cons]

theorem take_cases (here : Sign) (cursor : Lexer.Cursor) (errors : List SyntaxError)
    (h : here.terminal = .eof → cursor.rest = []) :
    (∃ r, take here cursor errors h = .ok r ∧
      r.signs = [here].filter (·.terminal ≠ .eof) ++ cursor.signs ∧
      r.fault = cursor.fault ∧ r.errors = errors) ∨
    ∃ e, take here cursor errors h = .error e ∧ cursor.signs = [] ∧ cursor.fault = some e :=
  onto_cases cursor.takes_sign here errors _ _

/-- A reader moves on by one sign, unless what comes then is a numeral that is no number. -/
theorem advance_cases :
    (∃ r', r.advance = .ok r' ∧ r'.signs = r.signs.tail ∧ r'.fault = r.fault ∧
      r'.errors = r.errors) ∨
    ∃ e, r.advance = .error e ∧ r.signs.length = 2 ∧ r.fault = some e := by
  have htail : r.signs.tail = [r.ahead].filter (·.terminal ≠ .eof) ++ r.cursor.signs := by
    rcases r.signs_cases with ⟨-, hp, hs, -⟩ | ⟨-, hp, hs, -⟩ | ⟨-, hp, hs⟩
    all_goals
      rw [peek] at hp
      simp [hs, hp]
    all_goals exact (Lexer.Cursor.signs_of_rest_nil (r.rest_of_ahead hp)).1
  rcases take_cases r.ahead r.cursor r.errors r.rest_of_ahead with
    ⟨r', htake, hsigns, hfault, herrors⟩ | ⟨e, htake, hsigns, hfault⟩
  · exact .inl ⟨r', htake, hsigns.trans htail.symm, hfault, herrors⟩
  · refine .inr ⟨e, htake, ?_, hfault⟩
    have htwo := r.two_le_length_of_fault hfault
    have hone : r.signs.tail.length ≤ 1 := by
      rw [htail, hsigns, List.append_nil]
      exact List.length_filter_le _ _
    rw [List.length_tail] at hone
    omega

theorem advance_of_fault_none (h : r.fault = none) :
    ∃ r', r.advance = .ok r' ∧ r'.signs = r.signs.tail ∧ r'.fault = none ∧
      r'.errors = r.errors := by
  rcases r.advance_cases with ⟨r', ha, hs, hf, he⟩ | ⟨e, -, -, hf⟩
  · exact ⟨r', ha, hs, hf.trans h, he⟩
  · rw [h] at hf
    cases hf

theorem ofFirst_cases {cursor : Lexer.Cursor} {taken : Taken} (ht : cursor.Takes taken)
    (h : ∀ s behind, taken = (.ok s, behind) → s.terminal = .eof → behind.rest = []) :
    (∃ r, ofFirst taken h = .ok r ∧ r.signs = cursor.signs ∧ r.fault = cursor.fault ∧
      r.errors = []) ∨
    ∃ e, ofFirst taken h = .error e ∧ cursor.fault = some e := by
  cases ht with
  | broken signs_eq fault_eq => exact .inr ⟨_, rfl, fault_eq⟩
  | @sign s behind ne_eof signs_eq fault_eq =>
    rcases take_cases s behind [] (h s behind rfl) with
      ⟨r, htake, hsigns, hfault, herrors⟩ | ⟨e, htake, -, hfault⟩
    · exact .inl ⟨r, htake, by simp [hsigns, signs_eq, ne_eof], hfault.trans fault_eq.symm, herrors⟩
    · exact .inr ⟨e, htake, fault_eq.trans hfault⟩
  | eof signs_eq fault_eq =>
    obtain ⟨hs, hf⟩ := Lexer.Cursor.signs_of_rest_nil (h _ _ rfl rfl)
    rcases take_cases _ _ [] (h _ _ rfl) with
      ⟨r, htake, hsigns, hfault, herrors⟩ | ⟨e, htake, -, hfault⟩
    · refine .inl ⟨r, htake, ?_, hfault.trans (hf.trans fault_eq.symm), herrors⟩
      simp [hsigns, signs_eq, hs]
    · rw [hf] at hfault
      cases hfault

theorem start_cases (source : String) :
    (∃ r, start source = .ok r ∧ r.signs = (Lexer.Cursor.start source).signs ∧
      r.fault = (Lexer.Cursor.start source).fault ∧ r.errors = []) ∨
    ∃ e, start source = .error e ∧ (Lexer.Cursor.start source).fault = some e :=
  ofFirst_cases (Lexer.Cursor.start source).takes_sign _

@[simp] theorem record_signs (e : SyntaxError) : (r.record e).signs = r.signs := rfl

@[simp] theorem record_fault (e : SyntaxError) : (r.record e).fault = r.fault := rfl

@[simp] theorem record_errors (e : SyntaxError) : (r.record e).errors = r.errors ++ [e] := rfl

end Reader

/-! ### Readings from their steps -/

namespace Parse

variable {α β : Type} {p : Parse α} {f : α → Parse β} {r : Reader}

theorem bind_apply (p : Parse α) (f : α → Parse β) (r : Reader) :
    (p >>= f) r =
      match p r with
      | (.got a, r) => f a r
      | (.failed, r) => (.failed, r)
      | (.broken e, r) => (.broken e, r)
      | (.exhausted, r) => (.exhausted, r) := rfl

theorem bind_of_got {a : α} {r' : Reader} (h : p r = (.got a, r')) : (p >>= f) r = f a r' := by
  rw [bind_apply, h]

theorem exists_got_of_bind {b : β} {r' : Reader} (h : (p >>= f) r = (.got b, r')) :
    ∃ a r₁, p r = (.got a, r₁) ∧ f a r₁ = (.got b, r') := by
  rw [bind_apply] at h
  rcases hp : p r with ⟨a | _ | e | _, r₁⟩
  · rw [hp] at h
    exact ⟨a, r₁, rfl, h⟩
  all_goals
    rw [hp] at h
    cases h

theorem bind_assoc {γ : Type} (p : Parse α) (f : α → Parse β) (g : β → Parse γ) :
    p >>= f >>= g = p >>= fun a => f a >>= g := by
  funext r
  simp only [bind_apply]
  cases p r with
  | mk a r => cases a <;> rfl

/-- How a reading may end without a result. -/
structure Exits where
  failed : Reader → Prop
  broken : MalformedNumber → Prop
  exhausted : Prop

/-- A reading has ended with a result that `Q` holds of, or by one of the exits. -/
def Exits.Meets (x : Exits) (Q : α → Reader → Prop) : Reading α × Reader → Prop
  | (.got a, r) => Q a r
  | (.failed, r) => x.failed r
  | (.broken e, _) => x.broken e
  | (.exhausted, _) => x.exhausted

namespace Exits

variable {x y : Exits} {Q Q' : α → Reader → Prop} {R : β → Reader → Prop}

theorem Meets.bind (hp : x.Meets Q (p r)) (hf : ∀ a r', Q a r' → x.Meets R (f a r')) :
    x.Meets R ((p >>= f) r) := by
  rw [bind_apply]
  cases hpr : p r with
  | mk a r' =>
    rw [hpr] at hp
    cases a with
    | got a => exact hf a r' hp
    | failed => exact hp
    | broken e => exact hp
    | exhausted => exact hp

/-- The same reading, seen with wider exits. -/
theorem Meets.mono {z : Reading α × Reader} (h : x.Meets Q z) (hQ : ∀ a r, Q a r → Q' a r)
    (hfailed : ∀ r, x.failed r → y.failed r) (hbroken : ∀ e, x.broken e → y.broken e)
    (hexhausted : x.exhausted → y.exhausted) : y.Meets Q' z := by
  obtain ⟨a, r⟩ := z
  cases a with
  | got a => exact hQ a r h
  | failed => exact hfailed r h
  | broken e => exact hbroken e h
  | exhausted => exact hexhausted h

/-- A failure that is caught is a result. -/
theorem Meets.attempt {Q' : Option α → Reader → Prop} (h : x.Meets Q (p r))
    (hgot : ∀ a r', Q a r' → Q' (some a) r') (hfailed : ∀ r', x.failed r' → Q' none r')
    (hbroken : ∀ e, x.broken e → y.broken e) (hexhausted : x.exhausted → y.exhausted) :
    y.Meets Q' (attempt p r) := by
  unfold Parse.attempt
  cases hpr : p r with
  | mk a r' =>
    rw [hpr] at h
    cases a with
    | got a => exact hgot a r' h
    | failed => exact hfailed r' h
    | broken e => exact hbroken e h
    | exhausted => exact hexhausted h

end Exits

end Parse

/-! ### The statements of a text -/

namespace Grammar

open Parse

variable {r : Reader}

theorem statements_of_eof (h : r.current = .eof) (n : Nat) :
    statements (n + 1) r = (.got [], r) := by
  rw [statements, bind_apply]
  simp only [current, h]
  rfl

theorem statements_of_ne_eof (h : r.current ≠ .eof) (n : Nat) :
    statements (n + 1) r =
      ((statement n).attempt >>= fun first => advance >>= fun _ => statements n >>= fun more =>
        pure (first.toList ++ more)) r := by
  rw [statements, bind_apply]
  simp only [current]

end Grammar

end MeowLang
