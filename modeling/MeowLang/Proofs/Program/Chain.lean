import MeowLang.Proofs.Program.Equality
import MeowLang.Proofs.Program.Expressions
import MeowLang.Proofs.Program.Progress

/-! Chains of operands with operators between them. The tree of a chain is given for the chain as
a whole: it is parted at the last of the operators that bind least tightly. Reading decides from
one operator to the next, with one sign of lookahead, and comes to the same tree. -/
namespace MeowLang

open Parse Grammar

inductive Atom where
  | ident (name : String) (line : Nat)
  | number (value : Float) (line : Nat)
  | string (body : String) (line : Nat)
  | bool (value : Bool) (line : Nat)

namespace Atom

def sign : Atom → Sign
  | ident name line => ⟨.ident name, line⟩
  | number value line => ⟨.number value, line⟩
  | string body line => ⟨.string body, line⟩
  | bool value line => ⟨.boolean value, line⟩

def expr : Atom → Expr
  | ident name line => .ident name line
  | number value line => .number value line
  | string body line => .string body line
  | bool value line => .bool value line

end Atom

structure Link extends Written.InfixOp where
  line : Nat
  operand : Atom

structure Chain where
  first : Atom
  links : List Link

namespace Link

def power (l : Link) : Nat := l.mark.precedence

def signs (l : Link) : List Sign := [⟨.mark l.mark, l.line⟩, l.operand.sign]

/-! ### The tree of a chain -/

/-- Links parted at the last of those that bind least tightly. -/
structure Parting (ls : List Link) where
  before : List Link
  link : Link
  behind : List Link
  eq_append : ls = before ++ link :: behind
  power_le : ∀ l ∈ before, link.power ≤ l.power
  power_lt : ∀ l ∈ behind, link.power < l.power

namespace Parting

variable {l : Link} {ls : List Link}

theorem power_le_of_mem (p : Parting ls) (h : l ∈ ls) : p.link.power ≤ l.power := by
  rw [p.eq_append, List.mem_append, List.mem_cons] at h
  rcases h with h | rfl | h
  · exact p.power_le l h
  · exact Nat.le_refl _
  · exact Nat.le_of_lt (p.power_lt l h)

/-- The parting of longer links, from that of the links behind the first one. -/
def cons (l : Link) (p : Parting ls) : Parting (l :: ls) :=
  if h : l.power < p.link.power then
    ⟨[], l, ls, rfl, by simp, fun _ hk => Nat.lt_of_lt_of_le h (p.power_le_of_mem hk)⟩
  else
    ⟨l :: p.before, p.link, p.behind, congrArg (l :: ·) p.eq_append,
      List.forall_mem_cons.mpr ⟨Nat.le_of_not_lt h, p.power_le⟩, p.power_lt⟩

/-- Links can be parted if there are any. -/
def ofCons (l : Link) : (ls : List Link) → Parting (l :: ls)
  | [] => ⟨[], l, [], rfl, by simp, by simp⟩
  | k :: ls => cons l (ofCons k ls)

theorem eq_nil_of_before_append (p q : Parting ls) {ks : List Link}
    (hbefore : q.before = p.before ++ ks)
    (hbehind : p.link :: p.behind = ks ++ q.link :: q.behind) : ks = [] := by
  cases ks with
  | nil => rfl
  | cons k ks =>
    -- the link of `p` stands before that of `q`, which thus binds both more and no more tightly
    obtain ⟨rfl, hp⟩ := List.cons.inj hbehind
    have hle : q.link.power ≤ p.link.power := q.power_le _ (by simp [hbefore])
    have hlt : p.link.power < q.link.power := p.power_lt _ (by simp [hp])
    omega

/-- Links are parted in one way only. -/
theorem unique (p q : Parting ls) : p = q := by
  have happend := p.eq_append.symm.trans q.eq_append
  have hparts : q.before = p.before ∧ p.link :: p.behind = q.link :: q.behind := by
    rcases List.append_eq_append_iff.mp happend with ⟨ks, hb, hl⟩ | ⟨ks, hb, hl⟩
    · cases p.eq_nil_of_before_append q hb hl
      exact ⟨by simpa using hb, hl⟩
    · cases q.eq_nil_of_before_append p hb hl
      exact ⟨by simpa using hb.symm, hl.symm⟩
  obtain ⟨pb, pl, pa, _, _, _⟩ := p
  obtain ⟨qb, ql, qa, _, _, _⟩ := q
  obtain ⟨hb, hl⟩ := hparts
  cases hb
  cases hl
  rfl

theorem length_lt (p : Parting ls) : p.before.length < ls.length ∧ p.behind.length < ls.length := by
  have h := congrArg List.length p.eq_append
  simp only [List.length_append, List.length_cons] at h
  omega

end Parting

/-- The tree of an operand and the links behind it: a node for the operator that they are parted
at, with the trees of what stands before and behind that operator. -/
def tree (left : Expr) : List Link → Expr
  | [] => left
  | l :: ls =>
    .between (Parting.ofCons l ls).link.op (tree left (Parting.ofCons l ls).before)
      (tree (Parting.ofCons l ls).link.operand.expr (Parting.ofCons l ls).behind)
      (Parting.ofCons l ls).link.line
termination_by ls => ls.length
decreasing_by
  · exact (Parting.ofCons l ls).length_lt.1
  · exact (Parting.ofCons l ls).length_lt.2

theorem tree_nil (left : Expr) : tree left [] = left := by rw [tree]

theorem tree_of_parting {ls : List Link} (p : Parting ls) (left : Expr) :
    tree left ls =
      .between p.link.op (tree left p.before) (tree p.link.operand.expr p.behind) p.link.line := by
  cases ls with
  | nil => exact absurd p.eq_append (by simp)
  | cons l ls => rw [tree, (Parting.ofCons l ls).unique p]

/-! ### From one operator to the next -/

/-- An operator takes the links behind it that bind more tightly, and what it makes of them is
the operand that the others follow. -/
theorem tree_cons_append (l : Link) (tight rest : List Link) (left : Expr)
    (htight : ∀ k ∈ tight, l.power < k.power) (hrest : ∀ k ∈ rest.head?, k.power ≤ l.power) :
    tree left (l :: tight ++ rest) =
      tree (.between l.op left (tree l.operand.expr tight) l.line) rest := by
  induction hn : rest.length using Nat.strongRecOn generalizing rest with
  | ind n ih =>
    subst hn
    cases rest with
    | nil =>
      rw [List.append_nil, tree_nil,
        tree_of_parting (⟨[], l, tight, rfl, by simp, htight⟩ : Parting (l :: tight)), tree_nil]
    | cons k ks =>
      let p := Parting.ofCons k ks
      have hk : p.link.power ≤ l.power :=
        Nat.le_trans (p.power_le_of_mem List.mem_cons_self) (hrest k rfl)
      -- the operator that parts the rest parts the whole chain as well
      have hwhole : l :: tight ++ k :: ks = (l :: tight ++ p.before) ++ p.link :: p.behind := by
        rw [List.append_assoc, ← p.eq_append]
      have hbefore : ∀ x ∈ l :: tight ++ p.before, p.link.power ≤ x.power := by
        intro x hx
        simp only [List.cons_append, List.mem_cons, List.mem_append] at hx
        rcases hx with rfl | hx | hx
        · exact hk
        · exact Nat.le_of_lt (Nat.lt_of_le_of_lt hk (htight x hx))
        · exact p.power_le x hx
      have hhead : ∀ x ∈ p.before.head?, x.power ≤ l.power := by
        intro x hx
        refine hrest x ?_
        rw [p.eq_append]
        cases hb : p.before with
        | nil =>
          rw [hb] at hx
          cases hx
        | cons y ys =>
          rw [hb] at hx
          exact hx
      rw [tree_of_parting ⟨_, p.link, p.behind, hwhole, hbefore, p.power_lt⟩,
        tree_of_parting p, ih _ p.length_lt.1 p.before hhead rfl]

/-! ### Reading a chain -/

variable {r : Reader} {s : Sign} {errors : List SyntaxError}

theorem operand_of_atom {a : Atom} {ss : List Sign} (h : r.Shows (a.sign :: ss) errors) (n : Nat) :
    Grammar.operand (n + 1) r = (.got a.expr, r) := by
  have hcurrent : r.current = a.sign.terminal := by
    rw [r.current_eq, h.signs_eq]
    rfl
  have hline : r.line = a.sign.line := r.line_eq h.signs_eq
  rw [Grammar.operand, bind_apply]
  simp only [Parse.line, bind_apply, Parse.current, hcurrent, hline]
  cases a <;> rfl

/-- The links that bind more tightly than `power`, up to the first that does not. -/
theorem exists_tight (power : Nat) (ls : List Link) :
    ∃ tight rest, ls = tight ++ rest ∧ (∀ k ∈ tight, power < k.power) ∧
      ∀ k ∈ rest.head?, k.power ≤ power := by
  induction ls with
  | nil => exact ⟨[], [], rfl, by simp, by simp⟩
  | cons l ls ih =>
    by_cases h : power < l.power
    · obtain ⟨tight, rest, rfl, htight, hrest⟩ := ih
      exact ⟨l :: tight, rest, rfl, List.forall_mem_cons.mpr ⟨h, htight⟩, hrest⟩
    · refine ⟨[], l :: ls, rfl, by simp, fun k hk => ?_⟩
      cases hk
      exact Nat.le_of_not_lt h

theorem climb_of_head {n power : Nat} {rest : List Link} {left : Expr}
    (h : r.Shows (s :: rest.flatMap signs) errors) (hrest : ∀ k ∈ rest.head?, k.power ≤ power) :
    Grammar.climb (n + 1) power left r = (.got left, r) := by
  have hpeek : r.peek = Sign.first (rest.flatMap signs) := by
    rw [r.peek_eq, h.signs_eq, List.tail_cons]
  rw [Grammar.climb, bind_apply]
  simp only [Parse.peek, hpeek]
  cases rest with
  | nil => rfl
  | cons k ks =>
    have hk : ¬ power < k.mark.precedence := Nat.not_lt.mpr (hrest k rfl)
    simp only [List.flatMap_cons, signs, List.cons_append, Sign.first, if_neg hk]
    rfl

theorem climb_of_lt {power : Nat} {l : Link} {ls : List Link} (n : Nat) (left : Expr)
    (h : r.Shows (s :: (l :: ls).flatMap signs) errors) (hl : power < l.power) :
    ∃ r', r'.Shows (l.operand.sign :: ls.flatMap signs) errors ∧
      Grammar.climb (n + 2) power left r =
        (Grammar.expr n l.power >>= fun right =>
          Grammar.climb (n + 1) power (.between l.op left right l.line)) r' := by
  have hpeek : r.peek = .mark l.mark := by
    rw [r.peek_eq, h.signs_eq]
    rfl
  have hmark : power < l.mark.precedence := hl
  obtain ⟨r₁, h₁, hr₁⟩ := advance_of_shows h
  have hline : r₁.line = l.line := r₁.line_eq hr₁.signs_eq
  obtain ⟨r₂, h₂, hr₂⟩ := advance_of_shows hr₁
  refine ⟨r₂, hr₂, ?_⟩
  rw [Grammar.climb, bind_apply]
  simp only [Parse.peek, hpeek, if_pos hmark]
  rw [bind_of_got h₁, Written.extend_of_binaryOp l.spells, bind_assoc, bind_apply]
  simp only [Parse.line, hline, bind_assoc]
  rw [bind_of_got h₂]
  rfl

/-- Climbing from an operand reads the links that bind more tightly than asked for, and makes
their tree of them. -/
theorem climb_tree (n power : Nat) (tight rest : List Link) (left : Expr) (r : Reader) (s : Sign)
    (hr : r.Shows (s :: (tight ++ rest).flatMap signs) errors) (hn : 3 * tight.length + 1 ≤ n)
    (htight : ∀ k ∈ tight, power < k.power) (hrest : ∀ k ∈ rest.head?, k.power ≤ power) :
    ∃ r' s', Grammar.climb n power left r = (.got (tree left tight), r') ∧
      r'.Shows (s' :: rest.flatMap signs) errors := by
  -- on the bound: both the operand on the right and the rest of the way are read with a smaller one
  induction n using Nat.strongRecOn generalizing power tight rest left r s with
  | ind n ih =>
    cases tight with
    | nil =>
      obtain ⟨n, rfl⟩ : ∃ k, n = k + 1 := ⟨n - 1, by omega⟩
      rw [tree_nil]
      exact ⟨r, s, climb_of_head hr hrest, hr⟩
    | cons l ls =>
      obtain ⟨hl, hls⟩ := List.forall_mem_cons.mp htight
      obtain ⟨tight, loose, rfl, htighter, hloose⟩ := exists_tight l.power ls
      simp only [List.length_cons, List.length_append] at hn
      obtain ⟨n, rfl⟩ : ∃ k, n = k + 4 := ⟨n - 4, by omega⟩
      rw [List.cons_append, List.append_assoc] at hr
      obtain ⟨r₁, hr₁, hclimb⟩ := climb_of_lt (n + 2) left hr hl
      have hhead : ∀ k ∈ (loose ++ rest).head?, k.power ≤ l.power := by
        intro k hk
        cases loose with
        | nil => exact Nat.le_of_lt (Nat.lt_of_le_of_lt (hrest k hk) hl)
        | cons x xs => exact hloose k hk
      obtain ⟨r₂, s₂, hright, hr₂⟩ := ih (n + 1) (by omega) l.power tight (loose ++ rest)
        l.operand.expr r₁ l.operand.sign hr₁ (by omega) htighter hhead
      obtain ⟨r₃, s₃, hon, hr₃⟩ := ih (n + 3) (by omega) power loose rest
        (.between l.op left (tree l.operand.expr tight) l.line) r₂ s₂ hr₂ (by omega)
        (fun k hk => hls k (List.mem_append_right _ hk)) hrest
      have hexpr : Grammar.expr (n + 2) l.power r₁ = (.got (tree l.operand.expr tight), r₂) := by
        rw [Grammar.expr, bind_of_got (operand_of_atom hr₁ n), hright]
      refine ⟨r₃, s₃, ?_, hr₃⟩
      rw [hclimb, bind_of_got hexpr, hon, ← tree_cons_append l tight loose left htighter hloose]
      rfl

end Link

namespace Chain

def signs (c : Chain) : List Sign := c.first.sign :: c.links.flatMap Link.signs

def tree (c : Chain) : Expr := Link.tree c.first.expr c.links

variable {c : Chain} {r : Reader} {errors : List SyntaxError}

theorem expr_of_shows (h : r.Shows c.signs errors) (n : Nat) (hn : 3 * c.links.length + 2 ≤ n) :
    ∃ r' s, expr n lowestPrecedence r = (.got c.tree, r') ∧ r'.Shows [s] errors := by
  obtain ⟨n, rfl⟩ : ∃ k, n = k + 2 := ⟨n - 2, by omega⟩
  have hlinks : ∀ k ∈ c.links, lowestPrecedence < k.power := fun k _ =>
    Written.lowestPrecedence_lt k.spells
  obtain ⟨r', s, hclimb, hr'⟩ := Link.climb_tree (n + 1) lowestPrecedence c.links [] c.first.expr r
    c.first.sign (by rwa [List.append_nil]) (by omega) hlinks (by simp)
  refine ⟨r', s, ?_, hr'⟩
  rw [expr, bind_of_got (Link.operand_of_atom h n), hclimb, tree]

theorem statement_of_shows (h : r.Shows c.signs errors) (n : Nat)
    (hn : 3 * c.links.length + 3 ≤ n) :
    ∃ r' s, statement n r = (.got (.expr c.tree c.first.sign.line), r') ∧ r'.Shows [s] errors := by
  obtain ⟨n, rfl⟩ : ∃ k, n = k + 1 := ⟨n - 1, by omega⟩
  obtain ⟨r', s, hexpr, hr'⟩ := expr_of_shows h n (by omega)
  refine ⟨r', s, ?_, hr'⟩
  have hcurrent : r.current = c.first.sign.terminal := by
    rw [r.current_eq, h.signs_eq]
    rfl
  have hline : r.line = c.first.sign.line := r.line_eq h.signs_eq
  have hpeek : r'.peek = .eof := by
    rw [r'.peek_eq, hr'.signs_eq]
    rfl
  have hskip : skipSemicolon r' = (.got (), r') := by
    rw [skipSemicolon, bind_apply]
    simp only [Parse.peek, hpeek]
    rfl
  rw [statement, bind_apply]
  simp only [Parse.line, bind_apply, Parse.current, hcurrent, hline]
  cases hfirst : c.first <;>
    simp only [Atom.sign, bind_apply, hexpr, hskip] <;> rfl

theorem statements_of_shows (h : r.Shows c.signs errors) (n : Nat)
    (hn : 3 * c.links.length + 4 ≤ n) :
    ∃ r', statements n r = (.got [.expr c.tree c.first.sign.line], r') ∧ r'.errors = errors := by
  obtain ⟨n, rfl⟩ : ∃ k, n = k + 2 := ⟨n - 2, by omega⟩
  obtain ⟨r₁, s, hstmt, hr₁⟩ := statement_of_shows h (n + 1) (by omega)
  obtain ⟨r₂, hadvance, hr₂⟩ := advance_of_shows hr₁
  have hend : r₂.current = .eof := by
    rw [r₂.current_eq, hr₂.signs_eq]
    rfl
  have hcurrent : r.current ≠ .eof := by
    rw [r.current_eq, h.signs_eq]
    cases hfirst : c.first <;> simp [signs, hfirst, Sign.first, Atom.sign]
  refine ⟨r₂, ?_, hr₂.errors_eq⟩
  rw [statements_of_ne_eof hcurrent]
  simp only [bind_apply, attempt, hstmt, hadvance, statements_of_eof hend]
  rfl

end Chain

/-- A text of operands with operators between them is read without a complaint, as one
expression: the tree of the whole chain. -/
theorem chain_is_read_as_its_tree (source : String) (tokens : List Token) (c : Chain)
    (htokens : tokenize source = .ok tokens) (hsigns : Token.signs tokens = c.signs) :
    Parsed.ofSource source = .ok ⟨[.expr c.tree c.first.sign.line], []⟩ := by
  rcases Parsed.ofSource_cases source with
    ⟨e, he, -⟩ | ⟨tokens', r, program, r', ht, hr, hs, hf, herrors, hrun, -, hparsed⟩
  · rw [htokens] at he
    cases he
  · rw [htokens] at ht
    cases ht
    have hcount : 8 * r.count + 6 ≤ bound source := count_start_le hr
    have hlength : r.count = 2 * c.links.length + 1 := by
      rw [Reader.count, hs, hsigns, Chain.signs, List.length_cons, List.length_flatMap]
      simp [Link.signs, Nat.mul_comm]
    have hshows : r.Shows c.signs [] := ⟨hs.trans hsigns, hf, herrors⟩
    obtain ⟨r'', hread, herrors'⟩ := Chain.statements_of_shows hshows (bound source) (by omega)
    rw [hrun] at hread
    cases hread
    rw [hparsed, herrors']

theorem chain_is_read_as_its_tree_of_mixed_power :
    Parsed.ofSource "\"a\"-\"b\"*\"c\"-\"d\"" = .ok ⟨[.expr
      (.between .sub (.between .sub (.string "a" 1)
        (.between .mul (.string "b" 1) (.string "c" 1) 1) 1) (.string "d" 1) 1) 1], []⟩ := by
  let c : Chain := ⟨.string "a" 1, [⟨⟨.minus, .sub, rfl⟩, 1, .string "b" 1⟩,
    ⟨⟨.star, .mul, rfl⟩, 1, .string "c" 1⟩, ⟨⟨.minus, .sub, rfl⟩, 1, .string "d" 1⟩]⟩
  have htokens : tokenize "\"a\"-\"b\"*\"c\"-\"d\"" = .ok [⟨.string "a", "\"a\"", 1⟩,
      ⟨.mark .minus, "-", 1⟩, ⟨.string "b", "\"b\"", 1⟩, ⟨.mark .star, "*", 1⟩,
      ⟨.string "c", "\"c\"", 1⟩, ⟨.mark .minus, "-", 1⟩, ⟨.string "d", "\"d\"", 1⟩,
      ⟨.eof, "", 1⟩] := by decide +kernel
  have htree : c.tree = .between .sub (.between .sub (.string "a" 1)
      (.between .mul (.string "b" 1) (.string "c" 1) 1) 1) (.string "d" 1) 1 := by decide +kernel
  rw [← htree]
  exact chain_is_read_as_its_tree _ _ c htokens rfl

end MeowLang
