import MeowLang.Proofs.Program.Equality
import MeowLang.Proofs.Program.Progress

/-! What a program says. The names, literals and operators of a text, in the order they are
written in, are the content of the text; a program has a content as well, gathered from its parts
in the order they are written in. A reading either complains or takes all the content it goes
past into its result, so that a text without complaints and its program have the same content. -/
namespace MeowLang

inductive Item where
  | name (x : String)
  | number (value : Float)
  | text (body : String)
  | truth (value : Bool)
  | op (o : Op)

/-- The operator a mark spells, before an operand or between two. -/
def Mark.op? (m : Mark) : Option Op := m.binaryOp?.or m.unaryOp?

def Terminal.item? : Terminal → Option Item
  | .ident x => some (.name x)
  | .number value => some (.number value)
  | .string body => some (.text body)
  | .boolean value => some (.truth value)
  | .mark m => m.op?.map .op
  | .eof | .illegal | .comment => none

def Token.items (tokens : List Token) : List Item := tokens.filterMap (·.terminal.item?)

mutual

def Expr.items : Expr → List Item
  | .ident x _ => [.name x]
  | .number value _ => [.number value]
  | .string body _ => [.text body]
  | .bool value _ => [.truth value]
  | .array es _ => itemsOfExprs es
  | .object entries _ => itemsOfEntries entries
  | .prefixed op e _ => .op op :: e.items
  | .between op l r _ => l.items ++ .op op :: r.items
  | .cond test yes no _ => test.items ++ itemsOfStmts yes ++ itemsOfBranch no
  | .function params body _ => params.map .name ++ itemsOfStmts body
  | .call callee args _ => callee.items ++ itemsOfExprs args
  | .index c i _ => c.items ++ i.items
  | .kindOf e _ => e.items
  | .loop body _ => itemsOfStmts body
  | .foreign _ => []
termination_by structural e => e

def Stmt.items : Stmt → List Item
  | .bind x e _ => .name x :: e.items
  | .rebind x e _ => .name x :: e.items
  | .giveBack e _ => itemsOfResult e
  | .expr e _ => e.items
  | .load name _ => [.text name]
  | .leave _ | .again _ | .foreign _ => []
termination_by structural s => s

def itemsOfExprs : List Expr → List Item
  | [] => []
  | e :: rest => e.items ++ itemsOfExprs rest
termination_by structural es => es

def itemsOfEntries : List (Expr × Expr) → List Item
  | [] => []
  | (k, v) :: rest => k.items ++ v.items ++ itemsOfEntries rest
termination_by structural es => es

def itemsOfStmts : List Stmt → List Item
  | [] => []
  | s :: rest => s.items ++ itemsOfStmts rest
termination_by structural ss => ss

def itemsOfBranch : Option (List Stmt) → List Item
  | none => []
  | some body => itemsOfStmts body
termination_by structural b => b

def itemsOfResult : Option Expr → List Item
  | none => []
  | some e => e.items
termination_by structural e => e

end

theorem itemsOfStmts_append (ss ts : List Stmt) :
    itemsOfStmts (ss ++ ts) = itemsOfStmts ss ++ itemsOfStmts ts := by
  induction ss with
  | nil => rfl
  | cons s ss ih => rw [List.cons_append, itemsOfStmts, itemsOfStmts, ih, List.append_assoc]

/-! ### Content read so far -/

namespace Sign

def items (ss : List Sign) : List Item := ss.filterMap (·.terminal.item?)

theorem items_eq (ss : List Sign) :
    items ss = (Sign.first ss).item?.toList ++ items ss.tail := by
  cases ss with
  | nil => rfl
  | cons s ss =>
    rw [items, List.filterMap_cons, Sign.first, List.tail_cons]
    cases s.terminal.item? <;> rfl

theorem items_signs (tokens : List Token) : items (Token.signs tokens) = Token.items tokens := by
  rw [items, Token.signs, List.filterMap_filterMap, Token.items]
  congr 1
  funext t
  cases t.terminal <;> simp [Terminal.item?]

end Sign

namespace Reader

/-- Unless something was complained of, `done` is the content of `all` before the current sign. -/
def Upto (all done : List Item) (r : Reader) : Prop :=
  r.errors = [] → all = done ++ Sign.items r.signs

/-- Unless something was complained of, `done` is the content of `all` up to the current sign,
with that sign. -/
def Through (all done : List Item) (r : Reader) : Prop :=
  r.errors = [] → all = done ++ Sign.items r.signs.tail

variable {all done : List Item} {r : Reader} {t : Terminal}

theorem Upto.through_append (h : r.Upto all done) (ht : r.current = t) :
    r.Through all (done ++ t.item?.toList) := by
  intro he
  rw [h he, Sign.items_eq, ← r.current_eq, ht, List.append_assoc]

/-- A sign without content is gone past. -/
theorem Upto.through (h : r.Upto all done) (ht : r.current = t) (hi : t.item? = none) :
    r.Through all done := by
  have happend := h.through_append ht
  rwa [hi, Option.toList_none, List.append_nil] at happend

theorem through_of_errors (h : r.errors ≠ []) : r.Through all done := fun he => absurd he h

end Reader

namespace Parse

open Reader

variable {α β : Type} {r : Reader} {all done : List Item} {R : β → Reader → Prop}

/-- A reading has ended with a result that `Q` holds of, or with a complaint. -/
abbrev Keeps (Q : α → Reader → Prop) : Reading α × Reader → Prop :=
  Exits.Meets ⟨fun r' => r'.errors ≠ [], fun _ => True, True⟩ Q

theorem keeps_peek {f : Terminal → Parse β} (h : Keeps R (f r.peek r)) :
    Keeps R ((peek >>= f) r) := h

theorem keeps_current {f : Terminal → Parse β} (h : Keeps R (f r.current r)) :
    Keeps R ((current >>= f) r) := h

theorem keeps_line {f : Int → Parse β} (h : ∀ l, Keeps R (f l r)) :
    Keeps R ((line >>= f) r) := h _

theorem keeps_complain (e : SyntaxError) : Keeps R ((complain e : Parse β) r) := by
  change (r.record e).errors ≠ []
  simp

theorem keeps_complainOnce (e : SyntaxError) : Keeps R ((complainOnce e : Parse β) r) := by
  change (if r.errors.getLast? = some e then r else r.record e).errors ≠ []
  split
  · rename_i h
    intro hnil
    rw [hnil] at h
    cases h
  · simp

/-- Where reading goes on, the sign behind the current one becomes the current one. -/
theorem keeps_move {f : Unit → Parse β}
    (h : ∀ r', r'.signs = r.signs.tail → r'.errors = r.errors → Keeps R (f () r')) :
    Keeps R ((advance >>= f) r) := by
  rw [bind_apply, advance]
  rcases r.advance_cases with ⟨r', ha, hs, -, he⟩ | ⟨e, ha, -, -⟩
  · rw [ha]
    exact h r' hs he
  · rw [ha]
    trivial

theorem keeps_advance {f : Unit → Parse β} (hr : r.Through all done)
    (h : ∀ r', r'.current = r.peek → r'.Upto all done → Keeps R (f () r')) :
    Keeps R ((advance >>= f) r) := by
  refine keeps_move fun r' hs he => h r' ?_ ?_
  · rw [r'.current_eq, r.peek_eq, hs]
  · intro he'
    rw [hs]
    exact hr (he ▸ he')

/-- Going on to a sign without content. -/
theorem keeps_skip {f : Unit → Parse β} {t : Terminal} (hr : r.Through all done)
    (ht : r.peek = t) (hi : t.item? = none)
    (h : ∀ r', r'.current = t → r'.Through all done → Keeps R (f () r')) :
    Keeps R ((advance >>= f) r) :=
  keeps_advance hr fun r' hc hu => h r' (hc.trans ht) (hu.through (hc.trans ht) hi)

theorem keeps_expect {k : Kind} {f : Unit → Parse β} (hr : r.Through all done)
    (h : ∀ r', r'.current.kind = k → r'.Upto all done → Keeps R (f () r')) :
    Keeps R ((expect k >>= f) r) := by
  rw [expect, bind_assoc]
  refine keeps_peek ?_
  by_cases hk : r.peek.kind = k
  · rw [if_pos hk]
    exact keeps_advance hr fun r' hc hu => h r' (by rw [hc, hk]) hu
  · rw [if_neg hk]
    exact keeps_complain (R := R) _

theorem keeps_expect_of_errors {k : Kind} {f : Unit → Parse β} (hr : r.errors ≠ [])
    (h : ∀ r', r'.errors ≠ [] → Keeps R (f () r')) : Keeps R ((expect k >>= f) r) := by
  rw [expect, bind_assoc]
  refine keeps_peek ?_
  by_cases hk : r.peek.kind = k
  · rw [if_pos hk]
    exact keeps_move fun r' _ he => h r' (he ▸ hr)
  · rw [if_neg hk]
    exact keeps_complain (R := R) _

theorem eq_mark_of_kind {t : Terminal} {m : Mark} (h : t.kind = .mark m) : t = .mark m := by
  cases t <;> cases h
  rfl

/-- The mark that must follow, if it has no content. -/
theorem keeps_expect_mark {m : Mark} {f : Unit → Parse β} (hr : r.Through all done)
    (hm : m.op? = none) (h : ∀ r', r'.Through all done → Keeps R (f () r')) :
    Keeps R ((expect (.mark m) >>= f) r) :=
  keeps_expect hr fun r' hk hu =>
    h r' (hu.through (eq_mark_of_kind hk) (by rw [Terminal.item?, hm]; rfl))

theorem keeps_expectName {f : String → Parse β} (hr : r.Through all done)
    (h : ∀ x r', r'.Through all (done ++ [.name x]) → Keeps R (f x r')) :
    Keeps R ((expectName >>= f) r) := by
  rw [expectName, bind_assoc]
  refine keeps_expect hr fun r' hk hu => ?_
  rw [bind_assoc]
  refine keeps_current ?_
  cases hc : r'.current with
  | ident x => exact h x r' (hu.through_append hc)
  | _ => rw [hc] at hk; cases hk

theorem keeps_expectText {f : String → Parse β} (hr : r.Through all done)
    (h : ∀ b r', r'.Through all (done ++ [.text b]) → Keeps R (f b r')) :
    Keeps R ((expectText >>= f) r) := by
  rw [expectText, bind_assoc]
  refine keeps_expect hr fun r' hk hu => ?_
  rw [bind_assoc]
  refine keeps_current ?_
  cases hc : r'.current with
  | string b => exact h b r' (hu.through_append hc)
  | _ => rw [hc] at hk; cases hk

theorem keeps_skipSemicolon {f : Unit → Parse β} (hr : r.Through all done)
    (h : ∀ r', r'.Through all done → Keeps R (f () r')) :
    Keeps R ((skipSemicolon >>= f) r) := by
  rw [skipSemicolon, bind_assoc]
  refine keeps_peek ?_
  by_cases hp : r.peek = .mark .semicolon
  · rw [if_pos hp]
    exact keeps_skip hr hp rfl fun r' _ ht => h r' ht
  · rw [if_neg hp]
    exact h r hr

end Parse

/-! ### Each reading -/

namespace Grammar

open Parse Reader

variable {all done : List Item} {r : Reader}

theorem names_keeps (n : Nat) (hr : r.Through all done) :
    Keeps (fun xs => Through all (done ++ xs.map .name)) (names n r) := by
  induction n generalizing r done with
  | zero => trivial
  | succ n ih =>
    refine keeps_advance hr fun r₁ _ h₁ => keeps_current ?_
    cases hc : r₁.current with
    | ident x =>
      have hx : r₁.Through all (done ++ [.name x]) := h₁.through_append hc
      refine keeps_peek ?_
      by_cases hp : r₁.peek = .mark .comma
      · simp only [if_pos hp]
        refine keeps_skip hx hp rfl fun r₂ _ h₂ => (ih h₂).bind fun xs r₃ h₃ => ?_
        rwa [List.append_assoc] at h₃
      · simp only [if_neg hp]
        exact hx
    | _ => exact keeps_complain _

theorem params_keeps (n : Nat) (hr : r.Through all done) :
    Keeps (fun xs => Through all (done ++ xs.map .name)) (params n r) := by
  refine keeps_peek ?_
  by_cases hp : r.peek = .mark .rightParen
  · rw [if_pos hp]
    refine keeps_skip hr hp rfl fun r₁ _ h₁ => ?_
    change r₁.Through all (done ++ [])
    rwa [List.append_nil]
  · rw [if_neg hp]
    exact (names_keeps n hr).bind fun xs r₁ h₁ => keeps_expect_mark h₁ rfl fun r₂ h₂ => h₂

/-- With the bound `n`, every reading takes all the content it goes past into its result. -/
structure Faithful (n : Nat) : Prop where
  expr : ∀ {all done power r}, lowestPrecedence ≤ power → Upto all done r →
    Keeps (fun e => Through all (done ++ e.items)) (expr n power r)
  climb : ∀ {all done power left r}, lowestPrecedence ≤ power →
    Through all (done ++ left.items) r →
    Keeps (fun e => Through all (done ++ e.items)) (climb n power left r)
  extend : ∀ {all done m left r}, r.current = .mark m → lowestPrecedence < m.precedence →
    Upto all (done ++ left.items) r →
    Keeps (fun e => Through all (done ++ e.items)) (extend n m left r)
  operand : ∀ {all done r}, Upto all done r →
    Keeps (fun e => Through all (done ++ e.items)) (operand n r)
  conditional : ∀ {all done r}, Through all done r →
    Keeps (fun e => Through all (done ++ e.items)) (conditional n r)
  items : ∀ {all done close r}, Mark.op? close = none → Through all done r →
    Keeps (fun es => Through all (done ++ itemsOfExprs es)) (items n close r)
  moreItems : ∀ {all done close r}, Through all done r →
    Keeps (fun es => Through all (done ++ itemsOfExprs es)) (moreItems n close r)
  entries : ∀ {all done r}, Through all done r →
    Keeps (fun es r' => Through all (done ++ itemsOfEntries es) r' ∧ r'.peek = .mark .rightBrace)
      (entries n r)
  block : ∀ {all done r}, Through all done r →
    Keeps (fun ss => Through all (done ++ itemsOfStmts ss)) (block n r)
  blockRest : ∀ {all done r}, Upto all done r →
    Keeps (fun ss => Through all (done ++ itemsOfStmts ss)) (blockRest n r)
  statement : ∀ {all done r}, Upto all done r →
    Exits.Meets ⟨Through all done, fun _ => True, True⟩
      (fun s => Through all (done ++ s.items)) (statement n r)

namespace Faithful

variable {n : Nat} (h : Faithful n)

include h

theorem expr_succ {power : Nat} (hp : lowestPrecedence ≤ power) (hr : r.Upto all done) :
    Keeps (fun e => Through all (done ++ e.items)) (Grammar.expr (n + 1) power r) :=
  (h.operand hr).bind fun _ _ h₁ => h.climb hp h₁

theorem climb_succ {power : Nat} {left : Expr} (hp : lowestPrecedence ≤ power)
    (hr : r.Through all (done ++ left.items)) :
    Keeps (fun e => Through all (done ++ e.items)) (Grammar.climb (n + 1) power left r) := by
  refine keeps_peek ?_
  cases hpeek : r.peek with
  | mark m =>
    by_cases hm : power < m.precedence
    · simp only [if_pos hm]
      refine keeps_advance hr fun r₁ hc h₁ => ?_
      exact (h.extend (hc.trans hpeek) (Nat.lt_of_le_of_lt hp hm) h₁).bind fun _ _ h₂ =>
        h.climb hp h₂
    · simp only [if_neg hm]
      exact hr
  | _ => exact hr

theorem extend_succ {m : Mark} {left : Expr} (hc : r.current = .mark m)
    (hm : lowestPrecedence < m.precedence) (hr : r.Upto all (done ++ left.items)) :
    Keeps (fun e => Through all (done ++ e.items)) (Grammar.extend (n + 1) m left r) := by
  refine keeps_line fun line => ?_
  have hinfix : ∀ op, m.binaryOp? = some op → Keeps (fun e => Through all (done ++ e.items)) ((do
      advance
      let right ← Grammar.expr n m.precedence
      pure (Expr.between op left right line) : Parse Expr) r) := by
    intro op hop
    have hthrough := hr.through_append hc
    rw [Terminal.item?, Mark.op?, hop] at hthrough
    refine keeps_advance hthrough fun r₁ _ h₁ =>
      (h.expr (Nat.le_of_lt hm) h₁).bind fun right r₂ h₂ => ?_
    change r₂.Through all (done ++ (left.items ++ .op op :: right.items))
    simpa using h₂
  cases m with
  | leftParen =>
    refine (h.items rfl (hr.through hc rfl)).bind fun args r₁ h₁ => ?_
    change r₁.Through all (done ++ (left.items ++ itemsOfExprs args))
    rwa [← List.append_assoc]
  | leftBracket =>
    refine keeps_advance (hr.through hc rfl) fun r₁ _ h₁ =>
      (h.expr (Nat.le_refl _) h₁).bind fun position r₂ h₂ =>
        keeps_expect_mark h₂ rfl fun r₃ h₃ => ?_
    change r₃.Through all (done ++ (left.items ++ position.items))
    rwa [← List.append_assoc]
  | equal | notEqual | lessEqual | greaterEqual | shiftLeft | shiftRight | less | greater | plus
  | minus | star | slash | percent | member | ampersand | pipe | caret => exact hinfix _ rfl
  | _ => exact absurd hm (Nat.lt_irrefl _)

theorem operand_succ (hr : r.Upto all done) :
    Keeps (fun e => Through all (done ++ e.items)) (Grammar.operand (n + 1) r) := by
  refine keeps_line fun line => keeps_current ?_
  cases hc : r.current with
  | ident x | number x | string b | boolean b => exact hr.through_append hc
  | mark m =>
    have hprefix : ∀ op, m.op? = some op → Keeps (fun e => Through all (done ++ e.items)) ((do
        advance
        let inner ← Grammar.expr n prefixPrecedence
        pure (Expr.prefixed op inner line) : Parse Expr) r) := by
      intro op hop
      have hthrough := hr.through_append hc
      rw [Terminal.item?, hop] at hthrough
      refine keeps_advance hthrough fun r₁ _ h₁ =>
        (h.expr (by decide) h₁).bind fun inner r₂ h₂ => ?_
      rwa [List.append_assoc] at h₂
    cases m with
    | leftParen =>
      refine keeps_advance (hr.through hc rfl) fun r₁ _ h₁ => ?_
      have hinner : Keeps (fun o r₂ => (∀ e ∈ o, r₂.Through all (done ++ e.items)) ∧
          (o = none → r₂.errors ≠ [])) (attempt (Grammar.expr n lowestPrecedence) r₁) := by
        refine (h.expr (Nat.le_refl _) h₁).attempt (fun e r₂ h₂ => ⟨?_, nofun⟩)
          (fun r₂ h₂ => ⟨nofun, fun _ => h₂⟩) (fun _ => id) id
        rintro _ ⟨⟩
        exact h₂
      refine hinner.bind fun o r₂ h₂ => ?_
      cases o with
      | some e => exact keeps_expect_mark (h₂.1 e rfl) rfl fun r₃ h₃ => h₃
      | none => exact keeps_expect_of_errors (h₂.2 rfl) fun r₃ h₃ => h₃
    | ifWord => exact h.conditional (hr.through hc rfl)
    | functionWord =>
      refine keeps_expect_mark (hr.through hc rfl) rfl fun r₁ h₁ => ?_
      refine (params_keeps n h₁).bind fun xs r₂ h₂ => keeps_expect_mark h₂ rfl fun r₃ h₃ => ?_
      refine (h.block h₃).bind fun body r₄ h₄ => ?_
      rwa [List.append_assoc] at h₄
    | leftBracket =>
      exact (h.items rfl (hr.through hc rfl)).bind fun _ _ h₁ => h₁
    | leftBrace =>
      exact (h.entries (hr.through hc rfl)).bind fun _ r₁ h₁ =>
        keeps_skip h₁.1 h₁.2 rfl fun _ _ h₂ => h₂
    | typeofWord =>
      exact keeps_advance (hr.through hc rfl) fun _ _ h₁ =>
        (h.expr (by decide) h₁).bind fun _ _ h₂ => h₂
    | loopWord =>
      exact keeps_expect_mark (hr.through hc rfl) rfl fun _ h₁ => (h.block h₁).bind fun _ _ h₂ => h₂
    | bang | minus | plus => exact hprefix _ rfl
    | _ => exact keeps_complain _
  | _ => exact keeps_complain _

theorem conditional_succ (hr : r.Through all done) :
    Keeps (fun e => Through all (done ++ e.items)) (Grammar.conditional (n + 1) r) := by
  refine keeps_line fun line => keeps_expect_mark hr rfl fun r₁ h₁ => ?_
  refine keeps_advance h₁ fun r₂ _ h₂ => (h.expr (Nat.le_refl _) h₂).bind fun test r₃ h₃ => ?_
  refine keeps_expect_mark h₃ rfl fun r₄ h₄ => keeps_expect_mark h₄ rfl fun r₅ h₅ => ?_
  refine (h.block h₅).bind fun yes r₆ h₆ => keeps_peek ?_
  by_cases helse : r₆.peek = .mark .elseWord
  · rw [if_pos helse]
    refine keeps_skip h₆ helse rfl fun r₇ _ h₇ => keeps_peek ?_
    by_cases hif : r₇.peek = .mark .ifWord
    · rw [if_pos hif]
      refine keeps_skip h₇ hif rfl fun r₈ _ h₈ => (h.conditional h₈).bind fun nested r₉ h₉ => ?_
      change r₉.Through all (done ++ (test.items ++ itemsOfStmts yes ++ (nested.items ++ [])))
      simpa using h₉
    · rw [if_neg hif]
      refine keeps_expect_mark h₇ rfl fun r₈ h₈ => (h.block h₈).bind fun no r₉ h₉ => ?_
      change r₉.Through all (done ++ (test.items ++ itemsOfStmts yes ++ itemsOfStmts no))
      simpa using h₉
  · rw [if_neg helse]
    change r₆.Through all (done ++ (test.items ++ itemsOfStmts yes ++ []))
    simpa using h₆

theorem items_succ {close : Mark} (hclose : close.op? = none) (hr : r.Through all done) :
    Keeps (fun es => Through all (done ++ itemsOfExprs es)) (Grammar.items (n + 1) close r) := by
  refine keeps_peek ?_
  by_cases hp : r.peek = .mark close
  · rw [if_pos hp]
    refine keeps_skip hr hp (by rw [Terminal.item?, hclose]; rfl) fun r₁ _ h₁ => ?_
    change r₁.Through all (done ++ [])
    rwa [List.append_nil]
  · rw [if_neg hp]
    refine keeps_advance hr fun r₁ _ h₁ => (h.expr (Nat.le_refl _) h₁).bind fun first r₂ h₂ => ?_
    refine (h.moreItems h₂).bind fun more r₃ h₃ => keeps_expect_mark h₃ hclose fun r₄ h₄ => ?_
    rwa [List.append_assoc] at h₄

theorem moreItems_succ {close : Mark} (hr : r.Through all done) :
    Keeps (fun es => Through all (done ++ itemsOfExprs es))
      (Grammar.moreItems (n + 1) close r) := by
  have hnil : ∀ r₁ : Reader, r₁.Through all done → r₁.Through all (done ++ itemsOfExprs []) := by
    intro r₁ h₁
    rwa [itemsOfExprs, List.append_nil]
  refine keeps_peek ?_
  by_cases hp : r.peek = .mark .comma
  · rw [if_pos hp]
    refine keeps_skip hr hp rfl fun r₁ _ h₁ => keeps_peek ?_
    by_cases hclose : r₁.peek = .mark close
    · rw [if_pos hclose]
      exact hnil r₁ h₁
    · rw [if_neg hclose]
      refine keeps_advance h₁ fun r₂ _ h₂ => (h.expr (Nat.le_refl _) h₂).bind fun item r₃ h₃ => ?_
      refine (h.moreItems h₃).bind fun more r₄ h₄ => ?_
      rwa [List.append_assoc] at h₄
  · rw [if_neg hp]
    exact hnil r hr

theorem entries_succ (hr : r.Through all done) :
    Keeps (fun es r' => Through all (done ++ itemsOfEntries es) r' ∧ r'.peek = .mark .rightBrace)
      (Grammar.entries (n + 1) r) := by
  refine keeps_peek ?_
  by_cases hp : r.peek = .mark .rightBrace
  · rw [if_pos hp]
    refine ⟨?_, hp⟩
    rwa [itemsOfEntries, List.append_nil]
  · rw [if_neg hp]
    refine keeps_advance hr fun r₁ _ h₁ => (h.expr (Nat.le_refl _) h₁).bind fun key r₂ h₂ => ?_
    refine keeps_expect_mark h₂ rfl fun r₃ h₃ => keeps_advance h₃ fun r₄ _ h₄ => ?_
    refine (h.expr (Nat.le_refl _) h₄).bind fun value r₅ h₅ => keeps_peek ?_
    have hmore : ∀ r₆ : Reader, r₆.Through all (done ++ key.items ++ value.items) →
        Keeps (fun es r' => Through all (done ++ itemsOfEntries es) r' ∧
          r'.peek = .mark .rightBrace)
          ((Grammar.entries n >>= fun more => pure ((key, value) :: more)) r₆) := by
      refine fun r₆ h₆ => (h.entries h₆).bind fun more r₇ h₇ => ⟨?_, h₇.2⟩
      have h₈ := h₇.1
      simp only [List.append_assoc] at h₈
      simpa only [itemsOfEntries, List.append_assoc] using h₈
    by_cases hclose : r₅.peek = .mark .rightBrace
    · rw [if_pos hclose]
      exact hmore r₅ h₅
    · rw [if_neg hclose]
      exact keeps_expect_mark h₅ rfl hmore

theorem block_succ (hr : r.Through all done) :
    Keeps (fun ss => Through all (done ++ itemsOfStmts ss)) (Grammar.block (n + 1) r) :=
  keeps_advance hr fun _ _ h₁ => h.blockRest h₁

/-- A statement that fails has been complained of, or has no content. -/
theorem attempt_statement (hr : r.Upto all done) :
    Keeps (fun o => Through all (done ++ itemsOfStmts o.toList))
      (attempt (Grammar.statement n) r) := by
  refine (h.statement hr).attempt (fun s r' h₁ => ?_) (fun r' h₁ => ?_) (fun _ => id) id
  · simpa [itemsOfStmts] using h₁
  · simpa [itemsOfStmts] using h₁

theorem blockRest_succ (hr : r.Upto all done) :
    Keeps (fun ss => Through all (done ++ itemsOfStmts ss)) (Grammar.blockRest (n + 1) r) := by
  have hmore : Keeps (fun ss => Through all (done ++ itemsOfStmts ss)) ((do
      let first ← attempt (Grammar.statement n)
      advance
      let more ← Grammar.blockRest n
      pure (first.toList ++ more) : Parse (List Stmt)) r) := by
    refine (h.attempt_statement hr).bind fun first r₁ h₁ => keeps_advance h₁ fun r₂ _ h₂ => ?_
    refine (h.blockRest h₂).bind fun more r₃ h₃ => ?_
    change r₃.Through all (done ++ itemsOfStmts (first.toList ++ more))
    rwa [itemsOfStmts_append, ← List.append_assoc]
  refine keeps_current ?_
  cases hc : r.current with
  | eof => exact keeps_complainOnce _
  | mark m =>
    cases m with
    | rightBrace =>
      change r.Through all (done ++ [])
      rw [List.append_nil]
      exact hr.through hc rfl
    | _ => exact hmore
  | _ => exact hmore

/-- Only a semicolon fails without a complaint. -/
theorem statement_keeps (hr : r.Upto all done) (hsemicolon : r.current ≠ .mark .semicolon) :
    Keeps (fun s => Through all (done ++ s.items)) (Grammar.statement (n + 1) r) := by
  have hvalue : ∀ (g : Expr → Stmt) (front : List Item), (∀ e, (g e).items = front ++ e.items) →
      ∀ r₁ : Reader, r₁.Upto all (done ++ front) →
        Keeps (fun s => Through all (done ++ s.items)) ((do
          let value ← Grammar.expr n lowestPrecedence
          skipSemicolon
          pure (g value) : Parse Stmt) r₁) := by
    refine fun g front hg r₁ h₁ => (h.expr (Nat.le_refl _) h₁).bind fun e r₂ h₂ =>
      keeps_skipSemicolon h₂ fun r₃ h₃ => ?_
    change r₃.Through all (done ++ (g e).items)
    rwa [hg, ← List.append_assoc]
  have hnamed : ∀ g : String → Expr → Stmt, (∀ x e, (g x e).items = .name x :: e.items) →
      r.Through all done → Keeps (fun s => Through all (done ++ s.items)) ((do
        let name ← expectName
        expect (.mark .assign)
        advance
        let value ← Grammar.expr n lowestPrecedence
        skipSemicolon
        pure (g name value) : Parse Stmt) r) := fun g hg h₁ =>
    keeps_expectName h₁ fun x r₂ h₂ => keeps_expect_mark h₂ rfl fun r₃ h₃ =>
      keeps_advance h₃ fun r₄ _ h₄ => hvalue (g x) [.name x] (hg x) r₄ h₄
  have hwhole : ∀ line, Keeps (fun s => Through all (done ++ s.items)) ((do
      let value ← Grammar.expr n lowestPrecedence
      skipSemicolon
      pure (Stmt.expr value line) : Parse Stmt) r) := fun line =>
    hvalue _ [] (fun _ => rfl) r (by rwa [List.append_nil])
  have hdone : ∀ s : Stmt, s.items = [] → r.Through all done →
      Keeps (fun s => Through all (done ++ s.items))
        ((skipSemicolon >>= fun _ => pure s : Parse Stmt) r) := by
    refine fun s hs h₁ => keeps_skipSemicolon h₁ fun r₂ h₂ => ?_
    change r₂.Through all (done ++ s.items)
    rwa [hs, List.append_nil]
  refine keeps_line fun line => keeps_current ?_
  cases hc : r.current with
  | mark m =>
    cases m with
    | semicolon => exact absurd hc hsemicolon
    | setWord => exact hnamed _ (fun _ _ => rfl) (hr.through hc rfl)
    | anewWord => exact hnamed _ (fun _ _ => rfl) (hr.through hc rfl)
    | returnWord =>
      have hthrough := hr.through hc rfl
      have hnone := hdone (.giveBack none line) rfl hthrough
      have hsome : Keeps (fun s => Through all (done ++ s.items)) ((do
          advance
          let value ← Grammar.expr n lowestPrecedence
          skipSemicolon
          pure (Stmt.giveBack (some value) line) : Parse Stmt) r) :=
        keeps_advance hthrough fun r₁ _ h₁ =>
          hvalue _ [] (fun _ => rfl) r₁ (by rwa [List.append_nil])
      refine keeps_peek ?_
      cases r.peek with
      | eof => exact hnone
      | mark m => cases m with
        | semicolon | rightBrace => exact hnone
        | _ => exact hsome
      | _ => exact hsome
    | includeWord =>
      exact keeps_expectText (hr.through hc rfl) fun b r₁ h₁ =>
        keeps_skipSemicolon h₁ fun r₂ h₂ => h₂
    | breakWord => exact hdone _ rfl (hr.through hc rfl)
    | continueWord => exact hdone _ rfl (hr.through hc rfl)
    | _ => exact hwhole line
  | _ => exact hwhole line

theorem statement_succ (hr : r.Upto all done) :
    Exits.Meets ⟨Through all done, fun _ => True, True⟩
      (fun s => Through all (done ++ s.items)) (Grammar.statement (n + 1) r) := by
  by_cases hsemicolon : r.current = .mark .semicolon
  · have hfail : Grammar.statement (n + 1) r = (.failed, r) := by
      rw [Grammar.statement, bind_apply]
      simp only [Parse.line, bind_apply, Parse.current, hsemicolon]
      rfl
    rw [hfail]
    exact hr.through hsemicolon rfl
  · exact (h.statement_keeps hr hsemicolon).mono (fun _ _ => id) (fun _ => through_of_errors)
      (fun _ => id) id

end Faithful

theorem faithful (n : Nat) : Faithful n := by
  induction n with
  | zero => constructor <;> intros <;> trivial
  | succ n h =>
    exact {
      expr := h.expr_succ
      climb := h.climb_succ
      extend := h.extend_succ
      operand := h.operand_succ
      conditional := h.conditional_succ
      items := h.items_succ
      moreItems := h.moreItems_succ
      entries := h.entries_succ
      block := h.block_succ
      blockRest := h.blockRest_succ
      statement := h.statement_succ }

theorem statements_keeps (n : Nat) (hr : r.Upto all done) :
    Keeps (fun ss r' => r'.errors = [] → all = done ++ itemsOfStmts ss) (statements n r) := by
  induction n generalizing r done with
  | zero => trivial
  | succ n ih =>
    by_cases hc : r.current = .eof
    · rw [statements_of_eof hc]
      intro he
      rw [hr he, (r.signs_of_current hc).1]
      rfl
    · rw [statements_of_ne_eof hc]
      refine ((faithful n).attempt_statement hr).bind fun first r₁ h₁ => ?_
      refine keeps_advance h₁ fun r₂ _ h₂ => (ih h₂).bind fun more r₃ h₃ he => ?_
      rw [h₃ he, itemsOfStmts_append, List.append_assoc]

end Grammar

/-- A text without complaints and the program read from it have the same content, item by item. -/
theorem content_is_kept (source : String) (parsed : Parsed)
    (h : Parsed.ofSource source = .ok parsed) (herrors : parsed.errors = []) :
    ∃ tokens, tokenize source = .ok tokens ∧
      Token.items tokens = itemsOfStmts parsed.program := by
  rcases Parsed.ofSource_cases source with
    ⟨e, -, he⟩ | ⟨tokens, r, program, r', ht, -, hs, -, -, hrun, -, hparsed⟩
  · rw [h] at he
    cases he
  · rw [h] at hparsed
    cases hparsed
    refine ⟨tokens, ht, ?_⟩
    have hstart : r.Upto (Token.items tokens) [] := by
      intro _
      rw [hs, Sign.items_signs]
      rfl
    have hkeeps := Grammar.statements_keeps (Grammar.bound source) hstart
    rw [hrun] at hkeeps
    exact hkeeps herrors

theorem content_is_kept_in_an_array :
    ∃ tokens, tokenize "-\"a\"+[!\"b\"]" = .ok tokens ∧
      Token.items tokens = [.op .sub, .text "a", .op .add, .op .not, .text "b"] := by
  have hparsed : Parsed.ofSource "-\"a\"+[!\"b\"]" = .ok ⟨[.expr
      (.between .add (.prefixed .sub (.string "a" 1) 1)
        (.array [.prefixed .not (.string "b" 1) 1] 1) 1) 1], []⟩ := by decide +kernel
  exact content_is_kept _ _ hparsed rfl

end MeowLang
