import MeowLang.Proofs.Evaluation.Guarded

/-! The frame of an evaluation. An expression leaves the names and the links of every scope that
was there as they were, and the value of a name too unless some `anew` of that name is in the
expression or in a function that was held. A `set` touches one name of the current scope. -/
namespace MeowLang

/-! ### Statements that give a name a new value -/

mutual

/-- An `anew` of `x` occurs somewhere in an expression. -/
inductive Expr.Rebinds (x : String) : Expr → Prop
  | part {e d : Expr} (mem : d ∈ e.parts) (inner : d.Rebinds x) : e.Rebinds x
  | block {e : Expr} {b : List Stmt} {t : Stmt} (block : b ∈ e.blocks) (mem : t ∈ b)
      (inner : t.Rebinds x) : e.Rebinds x
  | body {params : List String} {body : List Stmt} {line : Int} {t : Stmt} (mem : t ∈ body)
      (inner : t.Rebinds x) : Expr.Rebinds x (.function params body line)

inductive Stmt.Rebinds (x : String) : Stmt → Prop
  | here (e : Expr) (line : Int) : Stmt.Rebinds x (.rebind x e line)
  | part {t : Stmt} {e : Expr} (mem : e ∈ t.parts) (inner : e.Rebinds x) : t.Rebinds x

end

section
variable {x y : String} {e : Expr} {t : Stmt} {line : Int}

theorem Expr.rebinds_iff : e.Rebinds x ↔ (∃ d ∈ e.parts, d.Rebinds x) ∨
    (∃ b ∈ e.blocks, ∃ t ∈ b, t.Rebinds x) ∨
      ∃ params body line, e = .function params body line ∧ ∃ t ∈ body, t.Rebinds x := by
  constructor
  · intro h
    cases h with
    | part mem inner => exact .inl ⟨_, mem, inner⟩
    | block block mem inner => exact .inr (.inl ⟨_, block, _, mem, inner⟩)
    | body mem inner => exact .inr (.inr ⟨_, _, _, rfl, _, mem, inner⟩)
  · rintro (⟨d, mem, inner⟩ | ⟨b, block, t, mem, inner⟩ | ⟨params, body, line, rfl, t, mem, inner⟩)
    · exact .part mem inner
    · exact .block block mem inner
    · exact .body mem inner

theorem Stmt.rebinds_iff :
    t.Rebinds x ↔ (∃ e line, t = .rebind x e line) ∨ ∃ e ∈ t.parts, e.Rebinds x := by
  constructor
  · intro h
    cases h with
    | here e line => exact .inl ⟨e, line, rfl⟩
    | part mem inner => exact .inr ⟨_, mem, inner⟩
  · rintro (⟨e, line, rfl⟩ | ⟨e, mem, inner⟩)
    · exact .here e line
    · exact .part mem inner

variable {es : List Expr} {params : List String} {body yes : List Stmt} {d : Expr} {op : Op}

@[simp] theorem not_rebinds_ident : ¬ (Expr.ident y line).Rebinds x := by
  rw [Expr.rebinds_iff]
  simp [Expr.parts, Expr.blocks]

@[simp] theorem not_rebinds_number {z : Float} : ¬ (Expr.number z line).Rebinds x := by
  rw [Expr.rebinds_iff]
  simp [Expr.parts, Expr.blocks]

@[simp] theorem rebinds_array : (Expr.array es line).Rebinds x ↔ ∃ d ∈ es, d.Rebinds x := by
  rw [Expr.rebinds_iff]
  simp [Expr.parts, Expr.blocks]

@[simp] theorem rebinds_between :
    (Expr.between op d e line).Rebinds x ↔ d.Rebinds x ∨ e.Rebinds x := by
  rw [Expr.rebinds_iff]
  simp [Expr.parts, Expr.blocks]

@[simp] theorem rebinds_cond : (Expr.cond e yes none line).Rebinds x ↔
    e.Rebinds x ∨ ∃ t ∈ yes, t.Rebinds x := by
  rw [Expr.rebinds_iff]
  simp [Expr.parts, Expr.blocks]

@[simp] theorem rebinds_function : (Expr.function params body line).Rebinds x ↔
    ∃ t ∈ body, t.Rebinds x := by
  rw [Expr.rebinds_iff]
  simp [Expr.parts, Expr.blocks]

@[simp] theorem rebinds_call : (Expr.call e es line).Rebinds x ↔
    e.Rebinds x ∨ ∃ d ∈ es, d.Rebinds x := by
  rw [Expr.rebinds_iff]
  simp [Expr.parts, Expr.blocks]

@[simp] theorem rebinds_index :
    (Expr.index d e line).Rebinds x ↔ d.Rebinds x ∨ e.Rebinds x := by
  rw [Expr.rebinds_iff]
  simp [Expr.parts, Expr.blocks]

@[simp] theorem rebinds_bind : (Stmt.bind y e line).Rebinds x ↔ e.Rebinds x := by
  rw [Stmt.rebinds_iff]
  simp [Stmt.parts]

@[simp] theorem rebinds_rebind : (Stmt.rebind y e line).Rebinds x ↔ x = y ∨ e.Rebinds x := by
  rw [Stmt.rebinds_iff]
  simp [Stmt.parts, eq_comm]

@[simp] theorem rebinds_expr : (Stmt.expr e line).Rebinds x ↔ e.Rebinds x := by
  rw [Stmt.rebinds_iff]
  simp [Stmt.parts]

@[simp] theorem not_rebinds_giveBack_none : ¬ (Stmt.giveBack none line).Rebinds x := by
  rw [Stmt.rebinds_iff]
  simp [Stmt.parts]

@[simp] theorem rebinds_giveBack_some :
    (Stmt.giveBack (some e) line).Rebinds x ↔ e.Rebinds x := by
  rw [Stmt.rebinds_iff]
  simp [Stmt.parts]

end

/-! ### What stays of the scopes that were there -/

/-- The scopes of `old` are still there, and `view` shows the same of them. -/
def Scopes.Kept {α : Type} (old : Scopes) (view : List (String × Value) → α) (s : Scopes) : Prop :=
  old.size ≤ s.size ∧ ∀ i < old.size, view (s.bindings i) = view (old.bindings i)

namespace Scopes

variable {α : Type} {old s : Scopes} {view : List (String × Value) → α} {c : Nat} {x : String}
  {v : Value}

theorem Kept.refl (s : Scopes) (view : List (String × Value) → α) : s.Kept view s :=
  ⟨Nat.le_refl _, fun _ _ => rfl⟩

theorem Kept.push (h : old.Kept view s) (scope : Scope) : old.Kept view (s.push scope) := by
  refine ⟨by rw [size_push]; exact Nat.le_succ_of_le h.1, fun i hi => ?_⟩
  rw [bindings_push_of_lt (Nat.lt_of_lt_of_le hi h.1), h.2 i hi]

theorem Kept.set (h : old.Kept view s)
    (hv : ∀ i < old.size, view ((s.set c x v).bindings i) = view (s.bindings i)) :
    old.Kept view (s.set c x v) :=
  ⟨by rw [size_set]; exact h.1, fun i hi => (hv i hi).trans (h.2 i hi)⟩

/-- A set in a scope that is not among them. -/
theorem Kept.set_of_le (h : old.Kept view s) (hc : old.size ≤ c) : old.Kept view (s.set c x v) :=
  h.set fun i hi => by rw [bindings_set_of_ne (by omega)]

/-- `s'` is `s` but for what scope `c` gives the name `x`. -/
structure DiffersAt (s s' : Scopes) (c : Nat) (x : String) : Prop where
  size_eq : s'.size = s.size
  outer_eq : ∀ i, s'.outer? i = s.outer? i
  bindings_eq : ∀ i, i ≠ c → s'.bindings i = s.bindings i
  lookup_eq : ∀ y, y ≠ x → (s'.bindings c).lookup y = (s.bindings c).lookup y

theorem differsAt_set (s : Scopes) (c : Nat) (x : String) (v : Value) :
    s.DiffersAt (s.set c x v) c x where
  size_eq := size_set s c x v
  outer_eq i := outer?_set s c i x v
  bindings_eq _ hi := bindings_set_of_ne hi
  lookup_eq _ hy := lookup_bindings_set (.inr hy)

theorem DiffersAt.refl (s : Scopes) (c : Nat) (x : String) : s.DiffersAt s c x :=
  ⟨rfl, fun _ => rfl, fun _ _ => rfl, fun _ _ => rfl⟩

end Scopes

namespace Guard

/-- The scopes of `old` have kept their names; statements run in other scopes only. -/
def names (old : Scopes) : Guard.Open where
  state := old.Kept (List.map Prod.fst)
  place _ _ := True
  own c := old.size ≤ c
  region _ := True
  node _ _ := True
  expr _ _ _ := True
  stmt _ _ _ := True
  node_of_isData _ := trivial
  node_of_grows _ h := h
  place_of_grows _ h := h
  expr_of_grows _ h := h
  stmt_of_grows _ h := h
  region_of_mem_chain _ _ := trivial
  expr_part _ _ := trivial
  expr_block _ _ _ := trivial
  stmt_part _ _ := trivial
  stmt_inner _ _ _ := trivial
  closure _ _ _ := trivial
  place_of_closure _ := trivial
  stmt_of_closure _ _ := trivial
  state_push h _ _ := h.push _
  place_push _ _ := trivial
  own_size h := h.1
  stmt_of_library _ _ _ _ := trivial
  state_bind h hc _ := h.set_of_le hc
  state_rebind h _ hx := h.set fun j _ =>
    Scopes.keys_bindings_set_of_mem (Scopes.mem_keys_of_holder? hx) j

/-- The scopes of `old` have kept the value of `x`. Code that gives `x` a new value runs only
where the scopes of `old` are out of its reach. -/
def valueOf (old : Scopes) (x : String) : Guard.Open where
  state := old.Kept (List.lookup x)
  place _ _ := True
  own c := old.size ≤ c
  region _ := True
  node s v := ∀ f, v = .function f → (∀ t ∈ f.body, ¬ t.Rebinds x) ∨ s.Apart old.size f.scope
  expr s c e := ¬ e.Rebinds x ∨ s.Apart old.size c
  stmt s c t := ¬ t.Rebinds x ∨ s.Apart old.size c
  node_of_isData {s v} h f hf := by subst hf; cases h
  node_of_grows hg h f hf := (h f hf).imp_right fun ha => ha.grows hg
  place_of_grows _ h := h
  expr_of_grows hg h := h.imp_right fun ha => ha.grows hg
  stmt_of_grows hg h := h.imp_right fun ha => ha.grows hg
  region_of_mem_chain _ _ := trivial
  expr_part h hd := h.imp_left fun he hr => he (.part hd hr)
  expr_block h hb ht := h.imp_left fun he hr => he (.block hb ht hr)
  stmt_part h he := h.imp_left fun ht hr => ht (.part he hr)
  stmt_inner h ho hd := h.imp_right fun ha => ha.inner ho hd
  closure {s c params body line} _ h identity f hf := by
    cases hf
    exact h.imp_left fun he t ht hr => he (.body ht hr)
  place_of_closure _ := trivial
  stmt_of_closure {s f t} h ht := (h f rfl).imp_left fun hb => hb t ht
  state_push h _ _ := h.push _
  place_push _ _ := trivial
  own_size h := h.1
  stmt_of_library h _ _ _ := .inr (Scopes.apart_push_push h.1)
  state_bind h hc _ := h.set_of_le hc
  state_rebind {s c y e line i v} h ht hy := by
    refine h.set fun j hj => Scopes.lookup_bindings_set ?_
    by_cases hxy : x = y
    · subst hxy
      have ha : s.Apart old.size c := ht.resolve_left fun hn => hn (.here e line)
      have hi := ha i (Scopes.outward_of_mem_chain (Scopes.mem_chain_of_holder? hy))
      exact .inl (by omega)
    · exact .inr hxy

end Guard

open Guard

section
variable {site : Site} {n : Nat} {m : Machine} {e : Expr} {x : String}

theorem keys_evalExpr {i : Nat} (hi : i < m.scopes.size) :
    ((evalExpr site n e m).2.scopes.bindings i).map Prod.fst =
      (m.scopes.bindings i).map Prod.fst := by
  have hinv : (names m.scopes).Inv m :=
    ⟨.refl _ _, trivial, fun _ _ _ _ _ _ => trivial⟩
  have hpost := ((names m.scopes).guarded n).expr site e m ⟨hinv, trivial⟩
  exact hpost.inv.state.2 i hi

/-- No function that is held, at any depth, has an `anew` of `x` in it. -/
def Machine.NeverRebinds (m : Machine) (x : String) : Prop :=
  ∀ i, ∀ p ∈ m.scopes.bindings i, ∀ f, (Value.function f).Within p.2 →
    ∀ t ∈ f.body, ¬ t.Rebinds x

theorem lookup_evalExpr {i : Nat} (he : ¬ e.Rebinds x) (hm : m.NeverRebinds x)
    (hi : i < m.scopes.size) :
    ((evalExpr site n e m).2.scopes.bindings i).lookup x = (m.scopes.bindings i).lookup x := by
  have hinv : (valueOf m.scopes x).Inv m := by
    refine ⟨.refl _ _, trivial, fun j _ p hp u hu f hf => ?_⟩
    subst hf
    exact .inl (hm j p hp f hu)
  have hpost := ((valueOf m.scopes x).guarded n).expr site e m ⟨hinv, .inl he⟩
  exact hpost.inv.state.2 i hi

/-- A `set` is its expression and then, if that has a value, a change of one name of the
current scope. -/
theorem exec_bind (line : Int) :
    exec site (n + 1) (.bind x e line) m =
      match evalExpr site n e m with
      | (.value v, m') => (.value .null, { m' with scopes := m'.scopes.set m.current x v })
      | p => p := by
  have hr := (brackets n).expr site e m
  simp only [exec, Eval.bind_apply]
  cases heq : evalExpr site n e m with
  | mk r m' =>
    rw [heq] at hr
    have hc : m'.current = m.current := hr.current_eq
    cases r with
    | value v => simp only [Eval.bindName, hc]; rfl
    | signal t => rfl
    | halted h => rfl
    | exhausted => rfl

theorem differsAt_bind (line : Int) :
    (evalExpr site n e m).2.scopes.DiffersAt (exec site (n + 1) (.bind x e line) m).2.scopes
      m.current x := by
  rw [exec_bind]
  split
  · rename_i heq
    rw [heq]
    exact Scopes.differsAt_set _ _ _ _
  · exact .refl _ _ _

theorem lookup_bind {v : Value} (line : Int) (hv : (evalExpr site n e m).1 = .value v)
    (hc : m.current < m.scopes.size) :
    ((exec site (n + 1) (.bind x e line) m).2.scopes.bindings m.current).lookup x = some v := by
  have hg := ((brackets n).expr site e m).grows
  rw [exec_bind]
  cases heq : evalExpr site n e m with
  | mk r m' =>
    rw [heq] at hv hg
    cases hv
    have hc' : m.current < m'.scopes.size := Nat.lt_of_lt_of_le hc hg.size_le
    simp only [Scopes.bindings_set_self hc', Assoc.lookup_insert_self]

/-- What an expression leaves of the scopes that were there: their names and links, and the
value of every name that neither it nor a function that is held gives a new value. A `set` of
its value then changes one name of the current scope, and nothing else. -/
theorem evaluation_keeps_scopes (site : Site) (n : Nat) (e : Expr) (m : Machine) :
    (∀ i < m.scopes.size,
      ((evalExpr site n e m).2.scopes.bindings i).map Prod.fst =
        (m.scopes.bindings i).map Prod.fst ∧
      (evalExpr site n e m).2.scopes.outer? i = m.scopes.outer? i) ∧
    (∀ x, ¬ e.Rebinds x → m.NeverRebinds x → ∀ i < m.scopes.size,
      ((evalExpr site n e m).2.scopes.bindings i).lookup x = (m.scopes.bindings i).lookup x) ∧
    (∀ x line,
      (evalExpr site n e m).2.scopes.DiffersAt (exec site (n + 1) (.bind x e line) m).2.scopes
        m.current x ∧
      ∀ v, (evalExpr site n e m).1 = .value v → m.current < m.scopes.size →
        ((exec site (n + 1) (.bind x e line) m).2.scopes.bindings m.current).lookup x =
          some v) := by
  have hg := ((brackets n).expr site e m).grows
  refine ⟨fun i hi => ⟨keys_evalExpr hi, hg.outer_eq i hi⟩, fun x he hm i hi => ?_,
    fun x line => ⟨differsAt_bind line, fun v hv hc => lookup_bind line hv hc⟩⟩
  exact lookup_evalExpr he hm hi

end

theorem not_rebinds_bool (x : String) (b : Bool) (line : Int) :
    ¬ (Expr.bool b line).Rebinds x := by
  intro h
  cases h with
  | part mem => cases mem
  | block block => cases block

/-- A block that sets a name of its own, where the scope around it binds the same name. -/
theorem evaluation_keeps_scopes_around_block :
    let m : Machine := ⟨⟨#[⟨[("x", .bool true)], none⟩]⟩, 0, 0, [], .start ⟨[], []⟩ []⟩
    let e := Expr.cond (.bool true 1) [.bind "x" (.bool false 1) 1] none 1
    ¬ e.Rebinds "x" ∧ m.NeverRebinds "x" ∧
      ((evalExpr ⟨"main", ""⟩ 9 e m).2.scopes.bindings 1).lookup "x" = some (.bool false) ∧
      ((evalExpr ⟨"main", ""⟩ 9 e m).2.scopes.bindings 0).lookup "x" = some (.bool true) := by
  have he : ¬ (Expr.cond (.bool true 1) [.bind "x" (.bool false 1) 1] none 1).Rebinds "x" := by
    intro h
    cases h with
    | part mem inner =>
      rw [List.mem_singleton.mp mem] at inner
      exact not_rebinds_bool _ _ _ inner
    | block block mem inner =>
      cases List.mem_singleton.mp block
      cases List.mem_singleton.mp mem
      cases inner with
      | part mem inner =>
        rw [List.mem_singleton.mp mem] at inner
        exact not_rebinds_bool _ _ _ inner
  intro m e
  have hm : m.NeverRebinds "x" := by
    intro i p hp f hf
    have hi : i < 1 := Scopes.lt_of_mem_bindings hp
    obtain rfl : i = 0 := by omega
    rw [List.mem_singleton.mp hp] at hf
    cases hf
  exact ⟨he, hm, rfl,
    (evaluation_keeps_scopes ⟨"main", ""⟩ 9 e m).2.1 "x" he hm 0 (Nat.zero_lt_one)⟩

end MeowLang
