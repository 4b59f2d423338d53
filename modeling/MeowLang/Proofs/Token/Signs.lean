import MeowLang.Token.Lexer

/-! Signs taken one at a time are the signs of the tokens. Asked again and again, a place in a text
gives what the grammar reads of all its tokens, in order, and then either the end of the text or
the numeral that the tokens stop at. -/
namespace MeowLang.Lexer

namespace Cursor

variable {c behind : Cursor}

/-- The signs from a place on, up to the end or to a numeral that is no number. -/
def signs (c : Cursor) : List Sign := Token.signs c.tokens.1

/-- The first numeral from a place on that is no number. -/
def fault (c : Cursor) : Option MalformedNumber := c.tokens.2

theorem tokens_of_next {t : Token} (h : c.next = (.ok t, behind)) :
    c.tokens =
      if t.terminal = .eof then ([t], none) else (t :: behind.tokens.1, behind.tokens.2) := by
  rw [tokens]
  split
  · rename_i heq
    rw [h] at heq
    cases heq
  · rename_i heq
    rw [h] at heq
    cases heq
    split <;> rfl

theorem tokens_of_next_error {e : MalformedNumber} (h : c.next = (.error e, behind)) :
    c.tokens = ([], some e) := by
  rw [tokens]
  split <;> rename_i heq <;> rw [h] at heq <;> cases heq
  rfl

/-- What taking a sign says about the signs from there on. -/
inductive Takes (c : Cursor) : Except MalformedNumber Sign × Cursor → Prop
  | sign {s : Sign} {behind : Cursor} (ne_eof : s.terminal ≠ .eof)
      (signs_eq : c.signs = s :: behind.signs) (fault_eq : c.fault = behind.fault) :
      Takes c (.ok s, behind)
  | eof {line : Nat} {behind : Cursor} (signs_eq : c.signs = []) (fault_eq : c.fault = none) :
      Takes c (.ok ⟨.eof, line⟩, behind)
  | broken {e : MalformedNumber} {behind : Cursor} (signs_eq : c.signs = [])
      (fault_eq : c.fault = some e) : Takes c (.error e, behind)

theorem takes_sign (c : Cursor) : c.Takes c.sign := by
  -- along the comments that stand before the sign
  fun_induction sign c with
  | case1 c e behind h =>
    have ht := tokens_of_next_error h
    exact .broken (by rw [signs, ht]; rfl) (by rw [fault, ht])
  | case2 c t behind h hcomment _ ih =>
    have ht := tokens_of_next h
    rw [if_neg (by simp [hcomment])] at ht
    have hsigns : c.signs = behind.signs := by simp [signs, ht, Token.signs, hcomment]
    have hfault : c.fault = behind.fault := by simp [fault, ht]
    generalize behind.sign = x at ih ⊢
    cases ih with
    | sign ne_eof signs_eq fault_eq =>
      exact .sign ne_eof (hsigns.trans signs_eq) (hfault.trans fault_eq)
    | eof signs_eq fault_eq => exact .eof (hsigns.trans signs_eq) (hfault.trans fault_eq)
    | broken signs_eq fault_eq => exact .broken (hsigns.trans signs_eq) (hfault.trans fault_eq)
  | case3 c t behind h hcomment =>
    have ht := tokens_of_next h
    by_cases heof : t.terminal = .eof
    · rw [if_pos heof] at ht
      rw [heof]
      exact .eof (by simp [signs, ht, Token.signs, heof]) (by simp [fault, ht])
    · rw [if_neg heof] at ht
      exact .sign heof (by simp only [signs, ht, Token.signs, List.filterMap_cons])
        (by simp [fault, ht])

theorem signs_of_rest_nil (h : c.rest = []) : c.signs = [] ∧ c.fault = none := by
  have ht := takes_sign c
  rw [sign_of_rest_nil h] at ht
  cases ht with
  | sign ne_eof => exact absurd rfl ne_eof
  | eof signs_eq fault_eq => exact ⟨signs_eq, fault_eq⟩

theorem rest_lt_of_sign {s : Sign} (h : c.sign = (.ok s, behind)) (hs : s.terminal ≠ .eof) :
    behind.rest.length < c.rest.length := by
  fun_induction sign c with
  | case1 c e between heq => cases h
  | case2 c t between heq hcomment hlt ih => exact Nat.lt_trans (ih h) hlt
  | case3 c t between heq hcomment =>
    cases h
    exact rest_lt_of_next heq hs

/-- Every sign takes at least one character. -/
theorem length_signs_le (c : Cursor) : c.signs.length ≤ c.rest.length := by
  induction hn : c.rest.length using Nat.strongRecOn generalizing c with
  | ind n ih =>
    have ht := takes_sign c
    cases hsign : c.sign with
    | mk s behind =>
      rw [hsign] at ht
      cases ht with
      | sign ne_eof signs_eq fault_eq =>
        have hlt := rest_lt_of_sign hsign ne_eof
        have hle := ih _ (by omega) behind rfl
        rw [signs_eq, List.length_cons]
        omega
      | eof signs_eq fault_eq => simp [signs_eq]
      | broken signs_eq fault_eq => simp [signs_eq]

end Cursor

/-! ### Names -/

/-- Letters and underscores that spell no keyword. -/
def IsName (x : String) : Prop :=
  x.toList ≠ [] ∧ (∀ c ∈ x.toList, isNameChar c = true) ∧ keyword? x = none

instance (x : String) : Decidable (IsName x) := inferInstanceAs (Decidable (_ ∧ _ ∧ _))

theorem keyword?_ne_ident (name x : String) : keyword? name ≠ some (.ident x) := by
  unfold keyword?
  split <;> simp

theorem isName_of_scan {c : Char} {rest : List Char} {x : String}
    (h : (scan c rest).terminal = some (.ident x)) : IsName x := by
  unfold scan at h
  split at h
  · cases h
  split at h
  · simp [spanning] at h
  split at h
  · unfold quoted at h
    split at h <;> cases h
  split at h
  · rename_i hc
    simp only [spanning, Option.some.injEq] at h
    cases hk : keyword? (String.ofList (c :: rest.takeWhile isNameChar)) with
    | some t =>
      rw [hk, Option.getD_some] at h
      subst h
      exact absurd hk (keyword?_ne_ident _ x)
    | none =>
      rw [hk, Option.getD_none] at h
      cases h
      refine ⟨by simp, ?_, hk⟩
      intro d hd
      rw [String.toList_ofList] at hd
      rcases List.mem_cons.mp hd with rfl | hd
      · exact hc
      · exact List.all_eq_true.mp List.all_takeWhile d hd
  · unfold symbol lone at h
    split at h
    · split at h <;> cases h
    · split at h
      · cases h
      · split at h <;> cases h

theorem Cursor.isName_of_next {c behind : Cursor} {t : Token} {x : String}
    (h : c.next = (.ok t, behind)) (ht : t.terminal = .ident x) : IsName x := by
  unfold next at h
  simp only at h
  split at h
  · cases h
    cases ht
  · rename_i ch rest _
    simp only [Scan.token, Prod.mk.injEq] at h
    obtain ⟨htoken, -⟩ := h
    split at htoken
    · rename_i u hu
      cases htoken
      exact isName_of_scan (hu.trans (congrArg some ht))
    · cases htoken

theorem Cursor.isName_of_sign {c behind : Cursor} {s : Sign} {x : String}
    (h : c.sign = (.ok s, behind)) (hs : s.terminal = .ident x) : IsName x := by
  fun_induction sign c with
  | case1 c e behind' heq => cases h
  | case2 c t behind' heq hcomment _ ih => exact ih h
  | case3 c t behind' heq hcomment =>
    cases h
    exact isName_of_next heq hs

end MeowLang.Lexer
