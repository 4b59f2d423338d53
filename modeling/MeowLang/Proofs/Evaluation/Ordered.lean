import MeowLang.Proofs.Evaluation.Guarded

/-! Scopes are made after the scopes around them. So a way outward only goes down, what a scope
sees is there from the time it is made, and every function that is held has a scope to run in. -/
namespace MeowLang

namespace Scopes

variable {s s' : Scopes} {c i : Nat}

/-- Every scope is younger than the one around it. -/
def Ordered (s : Scopes) : Prop := ∀ i o, s.outer? i = some o → o < i

theorem Ordered.le_of_outward (h : s.Ordered) (hi : s.Outward c i) : i ≤ c := by
  induction hi with
  | refl => exact Nat.le_refl c
  | tail _ hstep ih =>
    have hlt := h _ _ hstep
    omega

theorem Ordered.le_of_mem_chain (h : s.Ordered) (hi : i ∈ s.chain c) : i ≤ c :=
  h.le_of_outward (outward_of_mem_chain hi)

theorem Ordered.push (h : s.Ordered) {scope : Scope}
    (ho : ∀ o, scope.outer = some o → o < s.size) : (s.push scope).Ordered := by
  intro i o hio
  have hi := lt_of_outer? hio
  rw [size_push] at hi
  rcases Nat.lt_succ_iff_lt_or_eq.mp hi with hi | rfl
  · rw [outer?_push_of_lt hi] at hio
    exact h i o hio
  · rw [outer?_push_self] at hio
    exact ho o hio

theorem Ordered.set (h : s.Ordered) (i : Nat) (x : String) (v : Value) : (s.set i x v).Ordered := by
  intro j o hj
  rw [outer?_set] at hj
  exact h j o hj

theorem Ordered.acyclic (h : s.Ordered) : s.Acyclic := by
  have descends : ∀ {i j}, Relation.TransGen (fun i o => s.outer? i = some o) i j → j < i := by
    intro i j hij
    induction hij with
    | single hstep => exact h _ _ hstep
    | tail _ hstep ih => exact Nat.lt_trans (h _ _ hstep) ih
  exact fun i hi => Nat.lt_irrefl i (descends hi)

/-- The way outward from a scope stays as it is while other scopes are made. -/
theorem chain_of_grows (h : s.Ordered) (hg : s.Grows s') (hc : c < s.size) :
    s'.chain c = s.chain c := by
  have from_eq : ∀ n c, c < s.size → s'.chainFrom n c = s.chainFrom n c := by
    intro n
    induction n with
    | zero => exact fun _ _ => rfl
    | succ n ih =>
      intro c hc
      simp only [chainFrom, hg.outer_eq c hc]
      split
      · rename_i o ho
        have hlt := h c o ho
        rw [ih o (by omega)]
      · rfl
  rw [chain, from_eq _ c hc, h.acyclic.chainFrom_eq (Nat.lt_succ_of_le hg.size_le)]

/-- Seen from a scope that was there before, a name has the value it had if the scopes on the way
outward give it the same values. -/
theorem get?_congr (h : s.Ordered) (hg : s.Grows s') (hc : c < s.size) {x : String}
    (hsame : ∀ i ∈ s.chain c, (s'.bindings i).lookup x = (s.bindings i).lookup x) :
    s'.get? c x = s.get? c x := by
  simp only [get?, chain_of_grows h hg hc, ← List.head?_filterMap, List.filterMap_congr hsame]

end Scopes

/-! ### Every state is ordered -/

/-- Scopes are ordered, and every function that is held has a scope that is there. -/
def Guard.ordered : Guard.Open where
  state s := s.Ordered
  place s c := c < s.size
  own _ := True
  region _ := True
  node s v := ∀ f, v = .function f → f.scope < s.size
  expr _ _ _ := True
  stmt _ _ _ := True
  node_of_isData h := by
    rintro f rfl
    cases h
  node_of_grows hg h f hf := Nat.lt_of_lt_of_le (h f hf) hg.size_le
  place_of_grows hg h := Nat.lt_of_lt_of_le h hg.size_le
  expr_of_grows _ h := h
  stmt_of_grows _ h := h
  region_of_mem_chain _ _ := trivial
  expr_part _ _ := trivial
  expr_block _ _ _ := trivial
  stmt_part _ _ := trivial
  stmt_inner _ _ _ := trivial
  closure hc _ _ := by
    rintro f ⟨⟩
    exact hc
  place_of_closure h := h _ rfl
  stmt_of_closure _ _ := trivial
  state_push h ho _ := h.push ho
  place_push {s scope} _ _ := by
    rw [Scopes.size_push]
    exact Nat.lt_succ_self _
  own_size _ := trivial
  stmt_of_library _ _ _ _ := trivial
  state_bind h _ _ := h.set _ _ _
  state_rebind h _ _ := h.set _ _ _

variable {m : Machine}

/-- A machine that has run nothing holds the functions of the prelude only. -/
theorem Guard.held_start {g : Guard} (world : World) (i : Nat) :
    g.HeldIn (Machine.start world).scopes ((Machine.start world).scopes.bindings i) := by
  intro p hp
  rcases Scopes.mem_bindings_push hp with hp | hp
  · rcases Scopes.mem_bindings_push hp with hp | hp
    · exact absurd (Scopes.lt_of_mem_bindings hp) (Nat.not_lt_zero i)
    · exact heldIn_instantiate 0 Library.prelude p hp
  · cases hp

theorem Guard.ordered_start (world : World) : Guard.ordered.Inv (.start world) := by
  have empty : Scopes.empty.Ordered := fun i _ h =>
    absurd (Scopes.lt_of_outer? h) (Nat.not_lt_zero i)
  have prelude : (Scopes.empty.push ⟨Library.instantiate 0 Library.prelude, none⟩).Ordered :=
    empty.push (by simp)
  have roots : (Machine.start world).scopes.Ordered := by
    apply prelude.push
    rintro o ⟨⟩
    exact Nat.zero_lt_one
  exact ⟨roots, Nat.lt_succ_self 1, fun i _ => held_start world i⟩

theorem Guard.ordered_program (h : Guard.ordered.Inv m) (site : Site) (program : Program) :
    Guard.ordered.Pre ⟨site, .program program .null, m⟩ :=
  ⟨h, trivial, fun _ _ => trivial, held_of_data Value.madeOf_null⟩

theorem Machine.Rests.ordered (h : m.Rests) : Guard.ordered.Inv m := by
  induction h with
  | start world => exact Guard.ordered_start world
  | run _ site n program ih => exact (Guard.ordered_program ih site program).final n
  | wait _ world ih => exact ⟨ih.state, ih.place, ih.held⟩

theorem Machine.Reached.inv_ordered (h : m.Reached) : Guard.ordered.Inv m :=
  h.inv fun _ hrest => Guard.ordered_program hrest.ordered

theorem Machine.Reached.ordered (h : m.Reached) : m.scopes.Ordered := h.inv_ordered.state

end MeowLang
