import MeowLang.Proofs.Token.Readings
import MeowLang.Text.WordChar

/-! Where tokens stand in a text, and what stands next to them. The word `set` and a comment end
where no letter follows, so a blank or a line break stands before a name that comes next; and where
an equals sign comes after a name, nothing that words are made of follows it. -/
namespace MeowLang

def Token.sign (t : Token) : Sign := ⟨t.terminal, t.line⟩

namespace Text

theorem isWordChar_of_isNameChar {c : Char} (h : Lexer.isNameChar c = true) :
    isWordChar c = true := by
  have hrange {first last : Nat} (hmem : (first, last) ∈ wordRanges) (hfirst : first ≤ c.toNat)
      (hlast : c.toNat ≤ last) : isWordChar c = true := by
    refine List.any_eq_true.mpr ⟨_, hmem, ?_⟩
    simp [hfirst, hlast]
  delta Lexer.isNameChar Char.isAlpha Char.isUpper Char.isLower at h
  simp only [Bool.or_eq_true, Bool.and_eq_true, decide_eq_true_eq, beq_iff_eq, ge_iff_le,
    UInt32.le_iff_toNat_le] at h
  rcases h with (⟨hfirst, hlast⟩ | ⟨hfirst, hlast⟩) | rfl
  · exact hrange (.tail _ (.head _)) hfirst hlast
  · exact hrange (.tail _ (.tail _ (.tail _ (.head _)))) hfirst hlast
  · decide

theorem not_isWordChar_of_isGap {c : Char} (h : Lexer.isGap c = true) : isWordChar c = false := by
  simp only [Lexer.isGap, Bool.or_eq_true, beq_iff_eq] at h
  rcases h with rfl | (rfl | rfl) | rfl <;> decide +kernel

end Text

namespace Lexer

variable {c : Char} {rest : List Char} {t : Terminal}

/-! ### What lexemes start and end with -/

/-- What a lexeme is where it spells a terminal. -/
inductive Spells (c : Char) (rest : List Char) : Terminal → Prop
  | comment (head_eq : c = '/') (ends : ∀ d ∈ (scan c rest).rest.head?, d = '\n') :
      Spells c rest .comment
  | number {value : Float} : Spells c rest (.number value)
  | string {body : String} : Spells c rest (.string body)
  | keyword {name : String} {t : Terminal} (keyword_eq : keyword? name = some t)
      (ends : ∀ d ∈ (scan c rest).rest.head?, isNameChar d = false) : Spells c rest t
  | ident {name : String} (lexeme_eq : (scan c rest).lexeme = name.toList) :
      Spells c rest (.ident name)
  | illegal : Spells c rest .illegal
  | mark {m : Mark} (mark_eq : single? c = some m ∨ ∃ d, double? c d = some m) :
      Spells c rest (.mark m)

theorem not_of_mem_head?_spanning {p : Char → Bool} {terminal : List Char → Option Terminal}
    {d : Char} (h : d ∈ (spanning p c rest terminal).rest.head?) : p d = false :=
  not_of_mem_head?_dropWhile h

theorem spells_of_symbol (hscan : scan c rest = symbol c rest)
    (h : (scan c rest).terminal = some t) : Spells c rest t := by
  have hlone (behind : List Char) (h : (lone c behind).terminal = some t) : Spells c rest t := by
    cases hm : single? c with
    | none =>
      simp only [lone, hm] at h
      cases h
      exact .illegal
    | some m =>
      simp only [lone, hm] at h
      cases h
      exact .mark (.inl hm)
  rw [hscan, symbol.eq_def] at h
  split at h
  · exact hlone [] h
  · rename_i d behind
    split at h
    · rename_i m hm
      cases h
      exact .mark (.inr ⟨d, hm⟩)
    · exact hlone (d :: behind) h

theorem spells_of_word (hscan : scan c rest = spanning isNameChar c rest fun cs =>
      some ((keyword? (String.ofList cs)).getD (.ident (String.ofList cs))))
    (h : (scan c rest).terminal = some t) : Spells c rest t := by
  have hends : ∀ d ∈ (scan c rest).rest.head?, isNameChar d = false := by
    rw [hscan]
    exact fun d hd => not_of_mem_head?_spanning hd
  have hlexeme : (scan c rest).lexeme = c :: rest.takeWhile isNameChar := by rw [hscan]; rfl
  rw [hscan] at h
  simp only [spanning] at h
  cases hk : keyword? (String.ofList (c :: rest.takeWhile isNameChar)) with
  | none =>
    rw [hk] at h
    cases h
    exact .ident (by rw [hlexeme, String.toList_ofList])
  | some u =>
    rw [hk] at h
    cases h
    exact .keyword hk hends

theorem spells (h : (scan c rest).terminal = some t) : Spells c rest t := by
  by_cases hcomment : (c == '/' && rest.head? == some '/') = true
  · have hscan : scan c rest = spanning (· != '\n') c rest fun _ => some .comment := by
      rw [scan, if_pos hcomment]
    rw [hscan] at h
    cases h
    refine .comment (beq_iff_eq.mp (Bool.and_eq_true_iff.mp hcomment).1) fun d hd => ?_
    rw [hscan] at hd
    simpa using not_of_mem_head?_spanning hd
  by_cases hdigit : c.isDigit = true
  · rw [scan_of_isDigit hdigit] at h
    obtain ⟨value, -, rfl⟩ := Option.map_eq_some_iff.mp h
    exact .number
  by_cases hquote : (c == '"') = true
  · rw [scan, if_neg hcomment, if_neg hdigit, if_pos hquote, quoted] at h
    split at h <;> cases h <;> exact .string
  by_cases hname : isNameChar c = true
  · exact spells_of_word
      (by rw [scan, if_neg hcomment, if_neg hdigit, if_neg hquote, if_pos hname]) h
  · exact spells_of_symbol
      (by rw [scan, if_neg hcomment, if_neg hdigit, if_neg hquote, if_neg hname]) h

theorem keyword?_ne_comment (name : String) : keyword? name ≠ some .comment := by
  unfold keyword?
  split <;> simp

theorem keyword?_ne_assign (name : String) : keyword? name ≠ some (.mark .assign) := by
  unfold keyword?
  split <;> simp

theorem comment_of_scan (h : (scan c rest).terminal = some .comment) :
    c = '/' ∧ ∀ d ∈ (scan c rest).rest.head?, d = '\n' := by
  cases spells h with
  | comment head_eq ends => exact ⟨head_eq, ends⟩
  | keyword keyword_eq => exact absurd keyword_eq (keyword?_ne_comment _)

theorem setWord_of_scan (h : (scan c rest).terminal = some (.mark .setWord)) :
    ∀ d ∈ (scan c rest).rest.head?, isNameChar d = false := by
  cases spells h with
  | keyword keyword_eq ends => exact ends
  | mark mark_eq =>
    exfalso
    rcases mark_eq with hm | ⟨d, hm⟩
    · unfold single? at hm
      split at hm <;> simp at hm
    · unfold double? at hm
      split at hm <;> simp at hm

theorem lexeme_of_scan_ident {x : String} (h : (scan c rest).terminal = some (.ident x)) :
    (scan c rest).lexeme = x.toList := by
  cases spells h with
  | keyword keyword_eq => exact absurd keyword_eq (keyword?_ne_ident _ _)
  | ident lexeme_eq => exact lexeme_eq

theorem head_of_scan_assign (h : (scan c rest).terminal = some (.mark .assign)) : c = '=' := by
  cases spells h with
  | keyword keyword_eq => exact absurd keyword_eq (keyword?_ne_assign _)
  | mark mark_eq =>
    rcases mark_eq with hm | ⟨d, hm⟩
    · unfold single? at hm
      split at hm <;> simp at hm
      rfl
    · unfold double? at hm
      split at hm <;> simp at hm

/-! ### Lexemes in a text -/

namespace Cursor

variable {c behind : Cursor} {u : Token} {x : String}

theorem exists_scan_of_next (h : c.next = (.ok u, behind)) (hu : u.terminal ≠ .eof) :
    ∃ ch rest, c.rest = c.gap ++ ch :: rest ∧ (scan ch rest).terminal = some u.terminal ∧
      (scan ch rest).lexeme = u.lexeme.toList ∧ (scan ch rest).rest = behind.rest := by
  cases c.reads with
  | eof rest_eq next_eq =>
    cases h.symm.trans next_eq
    exact absurd rfl hu
  | @lexeme ch rest rest_eq next_eq =>
    obtain ⟨htoken, hbehind⟩ := Prod.mk.inj (h.symm.trans next_eq)
    refine ⟨ch, rest, rest_eq, ?_, ?_, by rw [hbehind]⟩
    · rw [Scan.token] at htoken
      split at htoken
      · rename_i hterminal
        cases htoken
        exact hterminal
      · cases htoken
    · rw [← lexeme_token, ← htoken]
      rfl

/-- No letter stands at a place. -/
def Unjoined (c : Cursor) : Prop := ∀ d ∈ c.rest.head?, isNameChar d = false

theorem unjoined_of_setWord (h : c.next = (.ok u, behind)) (hu : u.terminal = .mark .setWord) :
    behind.Unjoined := by
  obtain ⟨ch, rest, -, hterminal, -, hrest⟩ := exists_scan_of_next h (by simp [hu])
  rw [Unjoined, ← hrest]
  exact setWord_of_scan (hterminal.trans (congrArg some hu))

theorem unjoined_of_comment (h : c.next = (.ok u, behind)) (hu : u.terminal = .comment) :
    behind.Unjoined := by
  obtain ⟨ch, rest, -, hterminal, -, hrest⟩ := exists_scan_of_next h (by simp [hu])
  intro d hd
  rw [← hrest] at hd
  rw [(comment_of_scan (hterminal.trans (congrArg some hu))).2 d hd]
  rfl

theorem lexeme_of_ident (h : c.next = (.ok u, behind)) (hu : u.terminal = .ident x) :
    u.lexeme = x := by
  obtain ⟨ch, rest, -, hterminal, hlexeme, -⟩ := exists_scan_of_next h (by simp [hu])
  rw [lexeme_of_scan_ident (hterminal.trans (congrArg some hu))] at hlexeme
  exact String.toList_inj.mp hlexeme.symm

/-- Where no letter stands, a name that comes next does not start yet. -/
theorem gap_ne_nil (hc : c.Unjoined) (h : c.next = (.ok u, behind)) (hu : u.terminal = .ident x) :
    c.gap ≠ [] := by
  intro hgap
  have htaken := rest_eq_taken c
  rw [taken, hgap, h, List.nil_append, Reading.lexeme, lexeme_of_ident h hu] at htaken
  obtain ⟨hne, hletters, -⟩ := isName_of_next h hu
  obtain ⟨d, ds, hds⟩ := List.exists_cons_of_ne_nil hne
  rw [hds] at htaken hletters
  exact Bool.false_ne_true ((hc d (by rw [htaken]; rfl)).symm.trans (hletters d (.head _)))

/-- Before a comment or an equals sign there is no character of a word. -/
theorem not_isWordChar_of_next (h : c.next = (.ok u, behind))
    (hu : u.terminal = .comment ∨ u.terminal = .mark .assign) :
    ∀ d ∈ c.rest.head?, Text.isWordChar d = false := by
  obtain ⟨ch, rest, hrest, hterminal, -⟩ :=
    exists_scan_of_next h (by rcases hu with hu | hu <;> simp [hu])
  intro d hd
  rw [hrest] at hd
  cases hgap : c.gap with
  | cons g gs =>
    rw [hgap] at hd
    cases hd
    have hmem : d ∈ c.rest.takeWhile isGap := by rw [← gap, hgap]; exact .head _
    exact Text.not_isWordChar_of_isGap (List.all_eq_true.mp List.all_takeWhile d hmem)
  | nil =>
    rw [hgap] at hd
    cases hd
    rcases hu with hu | hu
    · obtain ⟨rfl, -⟩ := comment_of_scan (hterminal.trans (congrArg some hu))
      decide +kernel
    · obtain rfl := head_of_scan_assign (hterminal.trans (congrArg some hu))
      decide +kernel

/-! ### Signs and the readings they come from -/

theorem after_add (m n : Nat) (c : Cursor) : c.after (m + n) = (c.after m).after n := by
  induction m generalizing c with
  | zero => rw [Nat.zero_add]; rfl
  | succ m ih => rw [Nat.succ_add]; exact ih c.next.2

theorem after_succ_of_next {n : Nat} {r : Reading} (h : (c.after n).next = (r, behind)) :
    c.after (n + 1) = behind := by
  rw [after_add, after, h]
  rfl

/-- A sign is the token behind some comments. -/
theorem exists_next_of_sign {s : Sign} (h : c.sign = (.ok s, behind)) :
    ∃ n u, (c.after n).next = (.ok u, behind) ∧ u.sign = s ∧
      (c.Unjoined → (c.after n).Unjoined) := by
  fun_induction sign c with
  | case1 c e between heq => cases h
  | case2 c t between heq hcomment _ ih =>
    obtain ⟨n, u, hnext, hu, hjoined⟩ := ih h
    refine ⟨n + 1, u, ?_, hu, fun _ => ?_⟩
    · rwa [after, heq]
    · rw [after, heq]
      exact hjoined (unjoined_of_comment heq hcomment)
  | case3 c t between heq hcomment =>
    cases h
    exact ⟨0, t, heq, rfl, id⟩

theorem not_isWordChar_of_sign {s : Sign} (h : c.sign = (.ok s, behind))
    (hs : s.terminal = .mark .assign) : ∀ d ∈ c.rest.head?, Text.isWordChar d = false := by
  rw [sign.eq_def] at h
  split at h
  · cases h
  · rename_i t between heq
    split at h
    · exact not_isWordChar_of_next heq (.inl ‹_›)
    · cases h
      exact not_isWordChar_of_next heq (.inr hs)

/-- Where a name is read with no letter right before it, the text before it ends with a blank or a
line break, and its line breaks give the line of the name. -/
theorem name_stands {text : String} {n : Nat} (h : ((start text).after n).next = (.ok u, behind))
    (hu : u.terminal = .ident x) (hc : ((start text).after n).Unjoined) :
    ∃ before, text.toList = before ++ x.toList ++ behind.rest ∧ u.line = 1 + before.count '\n' ∧
      ∃ d ∈ before.getLast?, isGap d = true := by
  have htext : text.toList = _ := rest_eq_takenBy n (start text)
  have horder := inOrder (line_after n (start text))
  have hrest := horder.rest_eq
  have hline := horder.reading_line
  rw [h, Reading.lexeme, lexeme_of_ident h hu] at hrest
  rw [h] at hline
  refine ⟨(start text).takenBy n ++ ((start text).after n).gap, ?_, hline, ?_⟩
  · rw [htext, hrest]
    simp only [List.append_assoc]
  · have hgap := gap_ne_nil hc h hu
    refine ⟨_, ?_, List.all_eq_true.mp List.all_takeWhile _ (List.getLast_mem hgap)⟩
    rw [List.getLast?_append, List.getLast?_eq_some_getLast hgap]
    rfl

end Cursor

end Lexer

end MeowLang
