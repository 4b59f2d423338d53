import MeowLang.Proofs.Program.Progress

/-! The programs that reading makes. Whatever a text holds and whatever is complained of, every
node that is read is one of the language, with operators that have a spelling and with names that
are no words of fixed meaning: a node is made only once all its parts have been read. -/
namespace MeowLang

open Lexer (IsName)

mutual

inductive Expr.Formed : Expr → Prop
  | ident {x : String} {line : Int} (name : IsName x) : Expr.Formed (.ident x line)
  | number {value : Float} {line : Int} : Expr.Formed (.number value line)
  | string {body : String} {line : Int} : Expr.Formed (.string body line)
  | bool {value : Bool} {line : Int} : Expr.Formed (.bool value line)
  | array {items : List Expr} {line : Int} (parts : ∀ e ∈ items, e.Formed) :
      Expr.Formed (.array items line)
  | object {entries : List (Expr × Expr)} {line : Int} (keys : ∀ p ∈ entries, p.1.Formed)
      (values : ∀ p ∈ entries, p.2.Formed) : Expr.Formed (.object entries line)
  | prefixed {m : Mark} {op : Op} {e : Expr} {line : Int} (spells : m.unaryOp? = some op)
      (operand : e.Formed) : Expr.Formed (.prefixed op e line)
  | between {m : Mark} {op : Op} {l r : Expr} {line : Int} (spells : m.binaryOp? = some op)
      (left : l.Formed) (right : r.Formed) : Expr.Formed (.between op l r line)
  | cond {test : Expr} {yes : List Stmt} {no : Option (List Stmt)} {line : Int}
      (part : test.Formed) (first : ∀ s ∈ yes, s.Formed)
      (second : ∀ b ∈ no, ∀ s ∈ b, s.Formed) :
      Expr.Formed (.cond test yes no line)
  | function {params : List String} {body : List Stmt} {line : Int}
      (names : ∀ x ∈ params, IsName x) (parts : ∀ s ∈ body, s.Formed) :
      Expr.Formed (.function params body line)
  | call {callee : Expr} {args : List Expr} {line : Int} (part : callee.Formed)
      (parts : ∀ e ∈ args, e.Formed) : Expr.Formed (.call callee args line)
  | index {c i : Expr} {line : Int} (collection : c.Formed) (position : i.Formed) :
      Expr.Formed (.index c i line)
  | kindOf {e : Expr} {line : Int} (operand : e.Formed) : Expr.Formed (.kindOf e line)
  | loop {body : List Stmt} {line : Int} (parts : ∀ s ∈ body, s.Formed) :
      Expr.Formed (.loop body line)

inductive Stmt.Formed : Stmt → Prop
  | bind {x : String} {e : Expr} {line : Int} (name : IsName x) (value : e.Formed) :
      Stmt.Formed (.bind x e line)
  | rebind {x : String} {e : Expr} {line : Int} (name : IsName x) (value : e.Formed) :
      Stmt.Formed (.rebind x e line)
  | giveBack {e : Option Expr} {line : Int} (value : ∀ v ∈ e, v.Formed) :
      Stmt.Formed (.giveBack e line)
  | expr {e : Expr} {line : Int} (value : e.Formed) : Stmt.Formed (.expr e line)
  | load {name : String} {line : Int} : Stmt.Formed (.load name line)
  | leave {line : Int} : Stmt.Formed (.leave line)
  | again {line : Int} : Stmt.Formed (.again line)

end

/-! ### Names in what is still to be read -/

def Sign.Named (ss : List Sign) : Prop := ∀ s ∈ ss, ∀ x, s.terminal = .ident x → IsName x

theorem Lexer.Cursor.named_signs (c : Cursor) : Sign.Named c.signs := by
  induction hn : c.rest.length using Nat.strongRecOn generalizing c with
  | ind n ih =>
    subst hn
    have ht := c.takes_sign
    rcases hsign : c.sign with ⟨_ | s, behind⟩
    all_goals
      rw [hsign] at ht
      intro t hmem x hx
    · cases ht with
      | broken signs_eq fault_eq =>
        rw [signs_eq] at hmem
        cases hmem
    · cases ht with
      | sign ne_eof signs_eq fault_eq =>
        rw [signs_eq] at hmem
        rcases List.mem_cons.mp hmem with rfl | hmem
        · exact isName_of_sign hsign hx
        · exact ih _ (rest_lt_of_sign hsign ne_eof) behind rfl t hmem x hx
      | eof signs_eq fault_eq =>
        rw [signs_eq] at hmem
        cases hmem

def Terminal.Named (t : Terminal) : Prop := ∀ x, t = .ident x → IsName x

theorem Reader.named_current {r : Reader} (h : Sign.Named r.signs) : r.current.Named := by
  intro x hx
  rw [r.current_eq] at hx
  cases hs : r.signs with
  | nil =>
    rw [hs] at hx
    cases hx
  | cons s ss =>
    rw [hs] at hx h
    exact h s List.mem_cons_self x hx

namespace Parse

variable {α β : Type} {Q : α → Prop} {R : β → Prop} {p : Parse α} {f : α → Parse β}

/-- Where all names are ones, a reading leaves only such names to be read, and `Q` holds of its
result if it has one. -/
def Builds (Q : α → Prop) (p : Parse α) : Prop :=
  ∀ r : Reader, Sign.Named r.signs →
    Exits.Meets ⟨fun r' => Sign.Named r'.signs, fun _ => True, True⟩
      (fun a r' => Q a ∧ Sign.Named r'.signs) (p r)

theorem builds_pure {a : α} (h : Q a) : Builds Q (pure a) := fun _ hr => ⟨h, hr⟩

theorem builds_fail : Builds Q (fail : Parse α) := fun _ hr => hr

theorem builds_complain (e : SyntaxError) : Builds Q (complain e : Parse α) := fun _ hr => hr

theorem builds_complainOnce (e : SyntaxError) : Builds Q (complainOnce e : Parse α) := by
  intro r hr
  unfold complainOnce
  split <;> exact hr

theorem builds_bind (hp : Builds Q p) (hf : ∀ a, Q a → Builds R (f a)) : Builds R (p >>= f) :=
  fun r hr => (hp r hr).bind fun a r' h => hf a h.1 r' h.2

/-- A step whose result does not matter. -/
theorem builds_then (hp : Builds (fun _ => True) p) (hf : ∀ a, Builds R (f a)) :
    Builds R (p >>= f) := builds_bind hp fun a _ => hf a

theorem builds_peek {f : Terminal → Parse β} (hf : ∀ t, Builds R (f t)) :
    Builds R (peek >>= f) := fun r hr => hf r.peek r hr

theorem builds_line {f : Int → Parse β} (hf : ∀ l, Builds R (f l)) : Builds R (line >>= f) :=
  fun r hr => hf r.line r hr

theorem builds_current {f : Terminal → Parse β} (hf : ∀ t : Terminal, t.Named → Builds R (f t)) :
    Builds R (current >>= f) := fun r hr => hf r.current (Reader.named_current hr) r hr

theorem advance_builds : Builds (fun _ => True) advance := by
  intro r hr
  unfold advance
  rcases r.advance_cases with ⟨r', ha, hs, -, -⟩ | ⟨e, ha, -, -⟩ <;> rw [ha]
  · refine ⟨trivial, ?_⟩
    rw [hs]
    exact fun s hmem => hr s (List.mem_of_mem_tail hmem)
  · trivial

theorem expect_builds (k : Kind) : Builds (fun _ => True) (expect k) := by
  refine builds_peek fun t => ?_
  split
  · exact advance_builds
  · exact builds_complain _

theorem builds_advance {f : Unit → Parse β} (hf : Builds R (f ())) : Builds R (advance >>= f) :=
  builds_then advance_builds fun _ => hf

theorem builds_expect {k : Kind} {f : Unit → Parse β} (hf : Builds R (f ())) :
    Builds R (expect k >>= f) := builds_then (expect_builds k) fun _ => hf

theorem builds_skipSemicolon {f : Unit → Parse β} (hf : Builds R (f ())) :
    Builds R (skipSemicolon >>= f) := by
  refine builds_then (builds_peek fun t => ?_) fun _ => hf
  split
  · exact advance_builds
  · exact builds_pure trivial

theorem expectName_builds : Builds IsName expectName := by
  refine builds_expect (builds_current fun t ht => ?_)
  cases t with
  | ident x => exact builds_pure (ht x rfl)
  | _ => exact builds_fail

theorem expectText_builds : Builds (fun _ => True) expectText := by
  refine builds_expect (builds_current fun t _ => ?_)
  cases t with
  | string b => exact builds_pure trivial
  | _ => exact builds_fail

theorem attempt_builds (hp : Builds Q p) : Builds (fun o => ∀ a ∈ o, Q a) (attempt p) := by
  refine fun r hr => (hp r hr).attempt (fun a r' h => ⟨?_, h.2⟩) (fun r' h => ⟨?_, h⟩)
    (fun _ => id) id
  · rintro _ ⟨⟩
    exact h.1
  · rintro _ ⟨⟩

theorem ofOption_builds (o : Option α) : Builds (fun a => o = some a) (ofOption o) := by
  cases o with
  | none => exact builds_fail
  | some a => exact builds_pure rfl

theorem builds_ite {c : Prop} [Decidable c] {q : Parse α} (hp : Builds Q p) (hq : Builds Q q) :
    Builds Q (if c then p else q) := by
  split
  · exact hp
  · exact hq

end Parse

/-! ### Each reading -/

namespace Grammar

open Parse

theorem names_builds (n : Nat) : Builds (fun xs => ∀ x ∈ xs, IsName x) (names n) := by
  induction n with
  | zero => exact fun _ _ => trivial
  | succ n ih =>
    refine builds_advance (builds_current fun t ht => ?_)
    cases t with
    | ident x =>
      refine builds_peek fun _ => builds_ite (builds_advance (builds_bind ih fun xs hxs => ?_)) ?_
      · exact builds_pure (List.forall_mem_cons.mpr ⟨ht x rfl, hxs⟩)
      · exact builds_pure (List.forall_mem_singleton.mpr (ht x rfl))
    | _ => exact builds_complain _

theorem params_builds (n : Nat) : Builds (fun xs => ∀ x ∈ xs, IsName x) (params n) :=
  builds_peek fun _ => builds_ite (builds_advance (builds_pure (List.forall_mem_nil _)))
    (builds_bind (names_builds n) fun _ hxs => builds_expect (builds_pure hxs))

/-- With the bound `n`, only nodes of the language are read. -/
structure Forms (n : Nat) : Prop where
  expr : ∀ power, Builds Expr.Formed (expr n power)
  climb : ∀ power left, left.Formed → Builds Expr.Formed (climb n power left)
  extend : ∀ m left, left.Formed → Builds Expr.Formed (extend n m left)
  operand : Builds Expr.Formed (operand n)
  conditional : Builds Expr.Formed (conditional n)
  items : ∀ close, Builds (fun es => ∀ e ∈ es, e.Formed) (items n close)
  moreItems : ∀ close, Builds (fun es => ∀ e ∈ es, e.Formed) (moreItems n close)
  entries : Builds (fun es => (∀ p ∈ es, p.1.Formed) ∧ ∀ p ∈ es, p.2.Formed) (entries n)
  block : Builds (fun ss => ∀ s ∈ ss, s.Formed) (block n)
  blockRest : Builds (fun ss => ∀ s ∈ ss, s.Formed) (blockRest n)
  statement : Builds Stmt.Formed (statement n)

namespace Forms

variable {n : Nat} (h : Forms n)

include h

theorem climb_succ (power : Nat) (left : Expr) (hl : left.Formed) :
    Builds Expr.Formed (Grammar.climb (n + 1) power left) := by
  refine builds_peek fun t => ?_
  cases t with
  | mark m =>
    refine builds_ite (builds_advance ?_) (builds_pure hl)
    exact builds_bind (h.extend m left hl) fun left hl => h.climb power left hl
  | _ => exact builds_pure hl

theorem extend_succ (m : Mark) (left : Expr) (hl : left.Formed) :
    Builds Expr.Formed (Grammar.extend (n + 1) m left) := by
  refine builds_line fun line => ?_
  have hinfix : Builds Expr.Formed (do
      let op ← ofOption m.binaryOp?
      advance
      let right ← Grammar.expr n m.precedence
      pure (Expr.between op left right line)) :=
    builds_bind (ofOption_builds _) fun op hop => builds_advance <|
      builds_bind (h.expr _) fun right hr => builds_pure (.between hop hl hr)
  cases m with
  | leftParen => exact builds_bind (h.items _) fun args ha => builds_pure (.call hl ha)
  | leftBracket =>
    exact builds_advance <| builds_bind (h.expr _) fun i hi =>
      builds_expect (builds_pure (.index hl hi))
  | _ => exact hinfix

theorem operand_succ : Builds Expr.Formed (Grammar.operand (n + 1)) := by
  refine builds_line fun line => builds_current fun t ht => ?_
  cases t with
  | ident x => exact builds_pure (.ident (ht x rfl))
  | number x => exact builds_pure .number
  | string b => exact builds_pure .string
  | boolean b => exact builds_pure .bool
  | mark m =>
    have hprefix : ∀ op, m.unaryOp? = some op → Builds Expr.Formed (do
        advance
        let inner ← Grammar.expr n prefixPrecedence
        pure (Expr.prefixed op inner line)) := fun op hop =>
      builds_advance <| builds_bind (h.expr _) fun e he => builds_pure (.prefixed hop he)
    cases m with
    | leftParen =>
      refine builds_advance <| builds_bind (attempt_builds (h.expr _)) fun o ho => builds_expect ?_
      cases o with
      | none => exact builds_fail
      | some e => exact builds_pure (ho e rfl)
    | ifWord => exact h.conditional
    | functionWord =>
      exact builds_expect <| builds_bind (params_builds n) fun xs hxs => builds_expect <|
        builds_bind h.block fun body hb => builds_pure (.function hxs hb)
    | leftBracket => exact builds_bind (h.items _) fun es hes => builds_pure (.array hes)
    | leftBrace =>
      exact builds_bind h.entries fun es hes => builds_advance (builds_pure (.object hes.1 hes.2))
    | typeofWord =>
      exact builds_advance <| builds_bind (h.expr _) fun e he => builds_pure (.kindOf he)
    | loopWord => exact builds_expect <| builds_bind h.block fun body hb => builds_pure (.loop hb)
    | bang | minus | plus => exact hprefix _ rfl
    | _ => exact builds_complain _
  | _ => exact builds_complain _

theorem conditional_succ : Builds Expr.Formed (Grammar.conditional (n + 1)) := by
  refine builds_line fun line => builds_expect <| builds_advance <|
    builds_bind (h.expr _) fun test ht => builds_expect <| builds_expect <|
      builds_bind h.block fun yes hy => builds_peek fun _ => builds_ite ?_ ?_
  · refine builds_advance <| builds_peek fun _ => builds_ite ?_ ?_
    · refine builds_advance <| builds_bind h.conditional fun nested hn => builds_pure ?_
      refine .cond ht hy ?_
      rintro _ ⟨⟩
      exact List.forall_mem_singleton.mpr (.expr hn)
    · refine builds_expect <| builds_bind h.block fun no hno => builds_pure (.cond ht hy ?_)
      rintro _ ⟨⟩
      exact hno
  · exact builds_pure (.cond ht hy (by rintro _ ⟨⟩))

theorem items_succ (close : Mark) :
    Builds (fun es => ∀ e ∈ es, e.Formed) (Grammar.items (n + 1) close) := by
  refine builds_peek fun _ => builds_ite (builds_advance (builds_pure (List.forall_mem_nil _))) ?_
  refine builds_advance <| builds_bind (h.expr _) fun e he =>
    builds_bind (h.moreItems close) fun es hes => builds_expect (builds_pure ?_)
  exact List.forall_mem_cons.mpr ⟨he, hes⟩

theorem moreItems_succ (close : Mark) :
    Builds (fun es => ∀ e ∈ es, e.Formed) (Grammar.moreItems (n + 1) close) := by
  have hnil : Builds (fun es : List Expr => ∀ e ∈ es, e.Formed) (pure []) :=
    builds_pure (List.forall_mem_nil _)
  refine builds_peek fun _ => builds_ite (builds_advance <| builds_peek fun _ => ?_) hnil
  refine builds_ite hnil <| builds_advance <| builds_bind (h.expr _) fun e he =>
    builds_bind (h.moreItems close) fun es hes => builds_pure ?_
  exact List.forall_mem_cons.mpr ⟨he, hes⟩

theorem entries_succ :
    Builds (fun es => (∀ p ∈ es, p.1.Formed) ∧ ∀ p ∈ es, p.2.Formed)
      (Grammar.entries (n + 1)) := by
  refine builds_peek fun _ => builds_ite ?_ ?_
  · exact builds_pure ⟨List.forall_mem_nil _, List.forall_mem_nil _⟩
  · refine builds_advance <| builds_bind (h.expr _) fun k hk => builds_expect <| builds_advance <|
      builds_bind (h.expr _) fun v hv => builds_peek fun _ => ?_
    have hmore : Builds (fun es => (∀ p ∈ es, p.1.Formed) ∧ ∀ p ∈ es, p.2.Formed)
        (Grammar.entries n >>= fun more => pure ((k, v) :: more)) :=
      builds_bind h.entries fun es hes => builds_pure
        ⟨List.forall_mem_cons.mpr ⟨hk, hes.1⟩, List.forall_mem_cons.mpr ⟨hv, hes.2⟩⟩
    exact builds_ite hmore (builds_expect hmore)

theorem attempt_statement :
    Builds (fun o => ∀ s ∈ o.toList, s.Formed) (attempt (Grammar.statement n)) := by
  intro r hr
  have ha := attempt_builds h.statement r hr
  exact ha.mono (fun o r' ho => ⟨fun s hs => ho.1 s (Option.mem_toList.mp hs), ho.2⟩)
    (fun _ => id) (fun _ => id) id

theorem blockRest_succ :
    Builds (fun ss => ∀ s ∈ ss, s.Formed) (Grammar.blockRest (n + 1)) := by
  have hmore : Builds (fun ss => ∀ s ∈ ss, s.Formed) (do
      let first ← attempt (Grammar.statement n)
      advance
      let more ← Grammar.blockRest n
      pure (first.toList ++ more)) :=
    builds_bind h.attempt_statement fun first hfirst => builds_advance <|
      builds_bind h.blockRest fun more hmore =>
        builds_pure (List.forall_mem_append.mpr ⟨hfirst, hmore⟩)
  refine builds_current fun t _ => ?_
  cases t with
  | eof => exact builds_complainOnce _
  | mark m =>
    cases m with
    | rightBrace => exact builds_pure (List.forall_mem_nil _)
    | _ => exact hmore
  | _ => exact hmore

theorem statement_succ : Builds Stmt.Formed (Grammar.statement (n + 1)) := by
  have hvalue : ∀ g : Expr → Stmt, (∀ e, e.Formed → (g e).Formed) → Builds Stmt.Formed (do
      let value ← Grammar.expr n lowestPrecedence
      skipSemicolon
      pure (g value)) := fun g hg =>
    builds_bind (h.expr _) fun e he => builds_skipSemicolon (builds_pure (hg e he))
  have hnamed : ∀ g : String → Expr → Stmt, (∀ x e, IsName x → e.Formed → (g x e).Formed) →
      Builds Stmt.Formed (do
        let name ← expectName
        expect (.mark .assign)
        advance
        let value ← Grammar.expr n lowestPrecedence
        skipSemicolon
        pure (g name value)) := fun g hg =>
    builds_bind expectName_builds fun x hx => builds_expect <| builds_advance <|
      hvalue (g x) fun e => hg x e hx
  refine builds_line fun line => builds_current fun t _ => ?_
  cases t with
  | mark m =>
    cases m with
    | semicolon => exact builds_fail
    | setWord => exact hnamed _ fun _ _ => .bind
    | anewWord => exact hnamed _ fun _ _ => .rebind
    | returnWord =>
      have hnone : Builds Stmt.Formed (do
          skipSemicolon
          pure (Stmt.giveBack none line)) :=
        builds_skipSemicolon (builds_pure (.giveBack (by rintro _ ⟨⟩)))
      have hsome : Builds Stmt.Formed (do
          advance
          let value ← Grammar.expr n lowestPrecedence
          skipSemicolon
          pure (Stmt.giveBack (some value) line)) :=
        builds_advance <| hvalue _ fun e he => .giveBack (by rintro _ ⟨⟩; exact he)
      refine builds_peek fun t => ?_
      cases t with
      | eof => exact hnone
      | mark m => cases m with
        | semicolon | rightBrace => exact hnone
        | _ => exact hsome
      | _ => exact hsome
    | includeWord =>
      exact builds_then expectText_builds fun _ => builds_skipSemicolon (builds_pure .load)
    | breakWord => exact builds_skipSemicolon (builds_pure .leave)
    | continueWord => exact builds_skipSemicolon (builds_pure .again)
    | _ => exact hvalue _ fun _ => .expr
  | _ => exact hvalue _ fun _ => .expr

end Forms

theorem forms (n : Nat) : Forms n := by
  induction n with
  | zero => constructor <;> intros <;> exact fun _ _ => trivial
  | succ n h =>
    exact {
      expr := fun power => builds_bind h.operand fun left hl => h.climb power left hl
      climb := h.climb_succ
      extend := h.extend_succ
      operand := h.operand_succ
      conditional := h.conditional_succ
      items := h.items_succ
      moreItems := h.moreItems_succ
      entries := h.entries_succ
      block := builds_advance h.blockRest
      blockRest := h.blockRest_succ
      statement := h.statement_succ }

theorem statements_builds (n : Nat) : Builds (fun ss => ∀ s ∈ ss, s.Formed) (statements n) := by
  induction n with
  | zero => exact fun _ _ => trivial
  | succ n ih =>
    refine builds_current fun t _ => ?_
    cases t with
    | eof => exact builds_pure (List.forall_mem_nil _)
    | _ =>
      exact builds_bind (forms n).attempt_statement fun first hfirst => builds_advance <|
        builds_bind ih fun more hmore =>
          builds_pure (List.forall_mem_append.mpr ⟨hfirst, hmore⟩)

end Grammar

/-- Every statement of a program that was read is one of the language. -/
theorem Parsed.formed_of_ofSource {source : String} {parsed : Parsed}
    (h : ofSource source = .ok parsed) : ∀ s ∈ parsed.program, s.Formed := by
  rcases ofSource_cases source with
    ⟨e, -, he⟩ | ⟨tokens, r, program, r', -, hr, -, -, -, hrun, -, hparsed⟩
  · rw [h] at he
    cases he
  · rw [h] at hparsed
    cases hparsed
    have hnamed : Sign.Named r.signs := by
      rcases Reader.start_cases source with ⟨r₁, hr₁, hs, -, -⟩ | ⟨e, he, -⟩
      · rw [hr] at hr₁
        cases hr₁
        rw [hs]
        exact Lexer.Cursor.named_signs _
      · rw [hr] at he
        cases he
    have hbuilds := Grammar.statements_builds (Grammar.bound source) r hnamed
    rw [hrun] at hbuilds
    exact hbuilds.1

end MeowLang
