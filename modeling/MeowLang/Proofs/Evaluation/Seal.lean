import MeowLang.Proofs.Evaluation.Resume
import MeowLang.Proofs.Frame

/-! Scopes that a run cannot change. The names of a library keep their values if the functions that
see them never give them new ones, and a scope that nothing outside of it can reach stays as it is.
Both can be asked for from any moment of a run on. -/
namespace MeowLang

/-- In ordered scopes a way outward goes through older scopes only. -/
theorem Scopes.Ordered.along {s : Scopes} {P : Nat → Prop} {c : Nat} (h : s.Ordered)
    (hc : c < s.size) (hp : ∀ i ≤ c, P i) : s.Along P c := by
  intro i hi
  have hle := h.le_of_outward hi
  exact ⟨hp i hle, by omega⟩

/-- The scopes `K` of `old` have kept the values of the names `P`. -/
def Scopes.Sealed (old : Scopes) (K : Nat → Prop) (P : String → Prop) (s : Scopes) : Prop :=
  old.Grows s ∧ ∀ k, K k → k < old.size ∧
    ∀ x, P x → (s.bindings k).lookup x = (old.bindings k).lookup x

namespace Scopes

variable {old s : Scopes} {K : Nat → Prop} {P : String → Prop} {c : Nat} {x : String}

theorem Sealed.not_size (h : old.Sealed K P s) {k : Nat} (hk : s.size ≤ k) : ¬ K k := fun hK =>
  Nat.not_lt_of_le (Nat.le_trans h.1.size_le hk) (h.2 k hK).1

theorem Sealed.push (h : old.Sealed K P s) (scope : Scope) : old.Sealed K P (s.push scope) := by
  refine ⟨h.1.trans (s.grows_push scope), fun k hk => ⟨(h.2 k hk).1, fun x hx => ?_⟩⟩
  rw [bindings_push_of_lt (Nat.lt_of_lt_of_le (h.2 k hk).1 h.1.size_le)]
  exact (h.2 k hk).2 x hx

/-- A set of another name, or in another scope. -/
theorem Sealed.set (h : old.Sealed K P s) (hc : P x → ¬ K c) (v : Value) :
    old.Sealed K P (s.set c x v) := by
  refine ⟨h.1.trans (s.grows_set c x v), fun k hk => ⟨(h.2 k hk).1, fun y hy => ?_⟩⟩
  rw [lookup_bindings_set, (h.2 k hk).2 y hy]
  by_cases hyx : y = x
  · subst hyx
    exact .inl fun hkc => hc hy (hkc ▸ hk)
  · exact .inr hyx

/-- A sealed name keeps its value, seen from a sealed scope with only sealed scopes around it. -/
theorem Sealed.get?_eq (h : old.Sealed K P s) (ho : old.Ordered) (hc : old.Along K c) (hx : P x) :
    s.get? c x = old.get? c x := by
  apply get?_congr ho h.1 (hc c .refl).2
  intro i hi
  exact (h.2 i (hc i (outward_of_mem_chain hi)).1).2 x hx

end Scopes

namespace Guard

/-- The scopes `K` of `old` keep the values of the names `P`. Code that gives such a name a new
value runs only where these scopes are out of its reach. -/
def sealed (old : Scopes) (K : Nat → Prop) (P : String → Prop) : Guard.Open where
  state := old.Sealed K P
  place _ _ := True
  own c := ¬ K c
  region _ := True
  node s v := ∀ f, v = .function f →
    s.Along (¬ K ·) f.scope ∨ ∀ t ∈ f.body, ∀ x, P x → ¬ t.Rebinds x
  expr s c e := s.Along (¬ K ·) c ∨ ∀ x, P x → ¬ e.Rebinds x
  stmt s c t := s.Along (¬ K ·) c ∨ ∀ x, P x → ¬ t.Rebinds x
  node_of_isData {s v} h f hf := by subst hf; cases h
  node_of_grows hg h f hf := (h f hf).imp_left fun ha => ha.grows hg
  place_of_grows _ h := h
  expr_of_grows hg h := h.imp_left fun ha => ha.grows hg
  stmt_of_grows hg h := h.imp_left fun ha => ha.grows hg
  region_of_mem_chain _ _ := trivial
  expr_part h hd := h.imp_right fun he x hx hr => he x hx (.part hd hr)
  expr_block h hb ht := h.imp_right fun he x hx hr => he x hx (.block hb ht hr)
  stmt_part h he := h.imp_right fun ht x hx hr => ht x hx (.part he hr)
  stmt_inner h ho hd := h.imp_left fun ha => ha.inner ho hd
  closure {s c params body line} _ h identity f hf := by
    cases hf
    exact h.imp_right fun he t ht x hx hr => he x hx (.body ht hr)
  place_of_closure _ := trivial
  stmt_of_closure {s f t} h ht := (h f rfl).imp_right fun hb => hb t ht
  state_push h _ _ := h.push _
  place_push _ _ := trivial
  own_size h := h.not_size (Nat.le_refl _)
  stmt_of_library h _ _ _ :=
    .inl (Scopes.along_push_push (h.not_size (Nat.le_refl _)) (h.not_size (Nat.le_succ _)))
  state_bind h hc _ := h.set (fun _ => hc) _
  state_rebind {s c y e line i v} h ht hy := by
    refine h.set (fun hx => ?_) v
    have ha : s.Along (¬ K ·) c := ht.resolve_right fun hn => hn y hx (.here e line)
    exact (ha i (Scopes.outward_of_mem_chain (Scopes.mem_chain_of_holder? hy))).1

/-- Scope `c` binds `names`, and nothing that runs or is held in the other scopes can reach it. -/
def hidden (c : Nat) (names : List (String × Value)) : Guard.Open where
  state s := c < s.size ∧ s.bindings c = names
  place s d := s.Along (· ≠ c) d
  own d := d ≠ c
  region i := i ≠ c
  node s v := ∀ f, v = .function f → s.Along (· ≠ c) f.scope
  expr s d _ := s.Along (· ≠ c) d
  stmt s d _ := s.Along (· ≠ c) d
  node_of_isData {s v} h f hf := by subst hf; cases h
  node_of_grows hg h f hf := (h f hf).grows hg
  place_of_grows hg h := h.grows hg
  expr_of_grows hg h := h.grows hg
  stmt_of_grows hg h := h.grows hg
  region_of_mem_chain h hi := (h _ (Scopes.outward_of_mem_chain hi)).1
  expr_part h _ := h
  expr_block h _ _ := h
  stmt_part h _ := h
  stmt_inner h ho hd := h.inner ho hd
  closure h _ _ := by
    rintro f ⟨⟩
    exact h
  place_of_closure h := h _ rfl
  stmt_of_closure h _ := h _ rfl
  state_push {s scope} h _ _ := by
    refine ⟨?_, (Scopes.bindings_push_of_lt h.1 scope).trans h.2⟩
    rw [Scopes.size_push]
    exact Nat.lt_succ_of_lt h.1
  place_push h ho := Scopes.along_push (Nat.ne_of_gt h.1) ho
  own_size h := Nat.ne_of_gt h.1
  stmt_of_library h _ _ _ :=
    Scopes.along_push_push (Nat.ne_of_gt h.1) (Nat.ne_of_gt (Nat.lt_succ_of_lt h.1))
  state_bind h hd _ := by
    refine ⟨?_, (Scopes.bindings_set_of_ne (Ne.symm hd)).trans h.2⟩
    rw [Scopes.size_set]
    exact h.1
  state_rebind {s d x e line i v} h hd hi := by
    have hne := hd i (Scopes.outward_of_mem_chain (Scopes.mem_chain_of_holder? hi))
    refine ⟨?_, (Scopes.bindings_set_of_ne (Ne.symm hne.1)).trans h.2⟩
    rw [Scopes.size_set]
    exact h.1

/-- What is older than the sealed scopes does not reach them. -/
theorem sealed_lenient {old : Scopes} {K : Nat → Prop} {P : String → Prop} {n : Nat}
    (hK : ∀ k, K k → n ≤ k) : (sealed old K P).Lenient n := by
  have older {s : Scopes} {c : Nat} (hs : s.Ordered) (hn : s.size ≤ n) (hc : c < s.size) :
      s.Along (¬ K ·) c := hs.along hc fun i hi hk => by
    have hle := hK i hk
    omega
  refine ⟨fun _ _ _ => trivial, fun hc hk => Nat.not_lt_of_le (hK _ hk) hc,
    fun hs hn hc _ => .inl (older hs hn hc), fun hs hn hc _ => .inl (older hs hn hc),
    fun hs hn hv f hf => .inl (older hs hn (hv f hf))⟩

theorem hidden_lenient {c : Nat} {names : List (String × Value)} :
    (hidden c names).Lenient c := by
  have older {s : Scopes} {d : Nat} (hs : s.Ordered) (hn : s.size ≤ c) (hd : d < s.size) :
      s.Along (· ≠ c) d := hs.along hd fun i hi => by omega
  exact ⟨older, Nat.ne_of_lt, fun hs hn hd _ => older hs hn hd, fun hs hn hd _ => older hs hn hd,
    fun hs hn hv f hf => older hs hn (hv f hf)⟩

/-- A scope that is made is out of reach at first. -/
theorem hidden_push {m : Machine} (h : ordered.Inv m) (scope : Scope) :
    (hidden m.scopes.size scope.bindings).Inv { m with scopes := m.scopes.push scope } := by
  have hg := m.scopes.grows_push scope
  have hl : (hidden m.scopes.size scope.bindings).Lenient m.scopes.size := hidden_lenient
  refine ⟨⟨?_, Scopes.bindings_push_self _ _⟩, ?_, fun i hi p hp => ?_⟩
  · rw [Scopes.size_push]
    exact Nat.lt_succ_self _
  · exact (hl.place_here h (Nat.le_refl _)).grows hg
  · have hne : i ≠ m.scopes.size := hi
    rw [Scopes.bindings_push, if_neg hne] at hp
    exact (hl.held h (Nat.le_refl _) (h.held i trivial p hp)).grows hg

end Guard

end MeowLang
