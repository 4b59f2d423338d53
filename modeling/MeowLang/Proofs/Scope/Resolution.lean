import MeowLang.Proofs.Evaluation.Ordered

/-! What a name means. Going outward, a scope comes to the first one that binds a name, and all
scopes that come to the same one share the binding: a new value is seen by these and by no others.
What a scope exports is what its names mean, as far as they are bound up to the last scope that is
asked for. -/
namespace MeowLang.Scopes

variable {s : Scopes} {c d i j o stop : Nat} {x y : String} {v : Value}

def Binds (s : Scopes) (i : Nat) (x : String) : Prop := x ∈ (s.bindings i).map Prod.fst

instance (s : Scopes) (i : Nat) (x : String) : Decidable (s.Binds i x) :=
  inferInstanceAs (Decidable (x ∈ (s.bindings i).map Prod.fst))

/-- Going outward from the first scope, the second is come to before any other that binds `x`. -/
def Reaches (s : Scopes) (x : String) : Nat → Nat → Prop :=
  Relation.ReflTransGen fun i j => ¬ s.Binds i x ∧ s.outer? i = some j

/-- To scope `c`, the name `x` means what it is bound to in scope `i`. -/
def Resolves (s : Scopes) (x : String) (c i : Nat) : Prop := s.Reaches x c i ∧ s.Binds i x

theorem Binds.lt_size (h : s.Binds i x) : i < s.size := by
  obtain ⟨p, hp, -⟩ := List.mem_map.mp h
  exact lt_of_mem_bindings hp

theorem Reaches.outward (h : s.Reaches x c i) : s.Outward c i :=
  Relation.ReflTransGen.mono (fun _ _ hstep => hstep.2) _ _ h

theorem lookup_of_not_binds (h : ¬ s.Binds i x) : (s.bindings i).lookup x = none :=
  Assoc.lookup_eq_none_iff.mpr h

/-- A name that some scope outward binds is bound first in one of them. -/
theorem exists_resolves (hj : s.Outward c j) (hbinds : s.Binds j x) : ∃ i, s.Resolves x c i := by
  induction hj using Relation.ReflTransGen.head_induction_on with
  | refl => exact ⟨j, .refl, hbinds⟩
  | @head c o ho _ ih =>
    by_cases hc : s.Binds c x
    · exact ⟨c, .refl, hc⟩
    · obtain ⟨i, hreach, hi⟩ := ih
      exact ⟨i, .head ⟨hc, ho⟩ hreach, hi⟩

/-- No scope before the one that a name means binds it. -/
theorem Reaches.outward_of_binds (h : s.Reaches x c i) (hj : s.Outward c j) (hx : s.Binds j x) :
    s.Outward i j := by
  induction h using Relation.ReflTransGen.head_induction_on with
  | refl => exact hj
  | head hstep _ ih =>
    rcases Relation.ReflTransGen.cases_head hj with rfl | ⟨o, ho, hj⟩
    · exact absurd hx hstep.1
    · cases hstep.2.symm.trans ho
      exact ih hj

/-! ### Finding the scope and its value -/

theorem holder?_of_binds (h : s.Binds c x) : s.holder? c x = some c := by
  have hc := Assoc.contains_iff.mpr h
  rw [holder?, chain, chainFrom]
  split <;> simp [hc]

theorem Acyclic.holder?_of_outer (h : s.Acyclic) (ho : s.outer? c = some o)
    (hc : ¬ s.Binds c x) : s.holder? c x = s.holder? o x := by
  have hx : Assoc.contains x (s.bindings c) = false :=
    (Bool.not_eq_true _).mp fun hx => hc (Assoc.contains_iff.mp hx)
  rw [holder?, h.chain_of_outer ho, List.find?_cons, hx]
  rfl

theorem Acyclic.holder?_of_resolves (h : s.Acyclic) (hi : s.Resolves x c i) :
    s.holder? c x = some i := by
  obtain ⟨hreach, hbinds⟩ := hi
  induction hreach using Relation.ReflTransGen.head_induction_on with
  | refl => exact holder?_of_binds hbinds
  | head hstep _ ih => rw [h.holder?_of_outer hstep.2 hstep.1, ih]

theorem holder?_eq_none (h : ∀ i, s.Outward c i → ¬ s.Binds i x) : s.holder? c x = none :=
  List.find?_eq_none.mpr fun i hi hx =>
    h i (outward_of_mem_chain hi) (Assoc.contains_iff.mp hx)

theorem Acyclic.get?_of_not_binds (h : s.Acyclic) (ho : s.outer? c = some o)
    (hc : ¬ s.Binds c x) : s.get? c x = s.get? o x := by
  rw [h.get?_of_outer ho, lookup_of_not_binds hc, Option.none_or]

theorem Acyclic.get?_of_resolves (h : s.Acyclic) (hi : s.Resolves x c i) :
    s.get? c x = (s.bindings i).lookup x := by
  obtain ⟨hreach, hbinds⟩ := hi
  induction hreach using Relation.ReflTransGen.head_induction_on with
  | refl =>
    obtain ⟨v, hv⟩ := Assoc.exists_lookup hbinds
    rw [hv, get?_of_lookup hv]
  | head hstep _ ih => rw [h.get?_of_not_binds hstep.2 hstep.1, ih]

/-! ### Setting a name -/

/-- Whoever reaches the scope first sees what is set there. -/
theorem Acyclic.get?_set_of_reaches (h : s.Acyclic) (hi : i < s.size) (hd : s.Reaches x d i) :
    (s.set i x v).get? d x = some v := by
  have own : (s.set i x v).get? i x = some v := by
    apply get?_of_lookup
    rw [bindings_set_self hi, Assoc.lookup_insert_self]
  induction hd using Relation.ReflTransGen.head_induction_on with
  | refl => exact own
  | @head d o hstep _ ih =>
    by_cases hdi : d = i
    · exact hdi ▸ own
    · have hd : ¬ (s.set i x v).Binds d x := by
        rw [Binds, bindings_set_of_ne hdi]
        exact hstep.1
      rw [(h.set i x v).get?_of_not_binds (by rw [outer?_set, hstep.2]) hd, ih]

/-- Nobody else sees it, and nobody sees other names change. -/
theorem Acyclic.get?_set_of_not (h : s.Acyclic) (hd : ¬ (y = x ∧ s.Reaches x d i)) :
    (s.set i x v).get? d y = s.get? d y := by
  -- a scope whose own binding changed would reach itself
  have own : ∀ c, ¬ (y = x ∧ s.Reaches x c i) →
      ((s.set i x v).bindings c).lookup y = (s.bindings c).lookup y := by
    intro c hc
    apply lookup_bindings_set
    by_contra hsame
    obtain ⟨rfl, rfl⟩ : c = i ∧ y = x := by simpa using hsame
    exact hc ⟨rfl, .refl⟩
  induction d using h.induction with
  | root d ho => rw [get?_of_root ho, get?_of_root (by rw [outer?_set, ho]), own d hd]
  | inner d o ho ih =>
    rw [h.get?_of_outer ho, (h.set i x v).get?_of_outer (by rw [outer?_set, ho]), own d hd]
    by_cases hbinds : s.Binds d y
    · obtain ⟨w, hw⟩ := Assoc.exists_lookup hbinds
      rw [hw, Option.some_or, Option.some_or]
    · rw [ih]
      rintro ⟨rfl, hreach⟩
      exact hd ⟨rfl, .head ⟨hbinds, ho⟩ hreach⟩

/-- Giving a name a new value fails and changes nothing where no scope outward binds the name.
Otherwise it changes one binding: every scope to which the name means the same one sees the new
value, whatever else is asked for is as it was, and all scopes bind the names they bound. Setting a
name in a scope is seen by the scopes that come to it before any other that binds the name. -/
theorem reassignment_changes_one_binding (h : s.Acyclic) (e : Nat) (x : String) (v : Value) :
    ((∀ i, s.Outward e i → ¬ s.Binds i x) → s.reassign? e x v = none) ∧
      (∀ j, s.Outward e j → s.Binds j x → ∃ i s', s.Resolves x e i ∧
        s.reassign? e x v = some s' ∧
        (∀ d y, y = x ∧ s.Resolves x d i → s'.get? d y = some v) ∧
        (∀ d y, ¬ (y = x ∧ s.Resolves x d i) → s'.get? d y = s.get? d y) ∧
        ∀ d, (s'.bindings d).map Prod.fst = (s.bindings d).map Prod.fst) ∧
      (e < s.size →
        (∀ d y, y = x ∧ s.Reaches x d e → (s.set e x v).get? d y = some v) ∧
        ∀ d y, ¬ (y = x ∧ s.Reaches x d e) → (s.set e x v).get? d y = s.get? d y) := by
  refine ⟨fun hnone => ?_, fun j hj hbinds => ?_, fun he => ⟨?_, fun d y => h.get?_set_of_not⟩⟩
  · rw [reassign?, holder?_eq_none hnone]
  · obtain ⟨i, hi⟩ := exists_resolves hj hbinds
    refine ⟨i, s.set i x v, hi, by rw [reassign?, h.holder?_of_resolves hi], ?_, ?_, ?_⟩
    · rintro d y ⟨rfl, hd⟩
      exact h.get?_set_of_reaches hi.2.lt_size hd.1
    · intro d y hd
      rw [Resolves, and_iff_left hi.2] at hd
      exact h.get?_set_of_not hd
    · exact keys_bindings_set_of_mem hi.2
  · rintro d y ⟨rfl, hd⟩
    exact h.get?_set_of_reaches he hd

/-- Scopes 2 and 3 share the `x` of scope 1, which hides that of scope 0; scope 4, inside 3, has its
own. -/
theorem reassignment_changes_one_binding_of_two_closures :
    let s : Scopes := ⟨#[⟨[("x", .null), ("y", .null)], none⟩, ⟨[("x", .bool false)], some 0⟩,
      ⟨[], some 1⟩, ⟨[], some 1⟩, ⟨[("x", .null)], some 3⟩]⟩
    s.Acyclic ∧ s.Outward 2 1 ∧ s.Binds 1 "x" ∧
      ∃ s', s.reassign? 2 "x" (.bool true) = some s' ∧ s'.get? 3 "x" = some (.bool true) ∧
        s'.get? 4 "x" = s.get? 4 "x" ∧ s'.get? 0 "x" = s.get? 0 "x" ∧
        s'.get? 3 "y" = s.get? 3 "y" := by
  intro s
  have hs : s.Acyclic := Ordered.acyclic fun i o ho =>
    (by decide : ∀ i < s.size, ∀ o ∈ s.outer? i, o < i) i (lt_of_outer? ho) o ho
  have hout : s.Outward 2 1 := .single rfl
  have hbinds : s.Binds 1 "x" := by decide
  obtain ⟨-, hsome, -⟩ := reassignment_changes_one_binding hs 2 "x" (.bool true)
  obtain ⟨i, s', hi, hs', hseen, helse, -⟩ := hsome 1 hout hbinds
  obtain rfl : i = 1 := Option.some.inj ((hs.holder?_of_resolves hi).symm.trans rfl)
  -- the `x` of another scope is not that of scope 1
  have other : ∀ d j, s.holder? d "x" = some j → j ≠ 1 → ¬ ("x" = "x" ∧ s.Resolves "x" d 1) :=
    fun d j hj hne hd => hne (Option.some.inj (hj.symm.trans (hs.holder?_of_resolves hd.2)))
  have hshared : s.Resolves "x" 3 1 := ⟨.single ⟨by decide, rfl⟩, hbinds⟩
  refine ⟨hs, hout, hbinds, s', hs', hseen 3 "x" ⟨rfl, hshared⟩, ?_, ?_, ?_⟩
  · exact helse 4 "x" (other 4 4 rfl (by decide))
  · exact helse 0 "x" (other 0 0 rfl (by decide))
  · exact helse 3 "y" fun hy => absurd hy.1 (by decide)

/-! ### Exports -/

/-- Scope `i` is one of those from `e` up to and including `stop`, or from `e` outward without end
where `stop` is none of these. -/
def Within (s : Scopes) (e stop i : Nat) : Prop :=
  s.Outward e i ∧ (s.Outward e stop → s.Outward i stop)

def Distinct (s : Scopes) : Prop := ∀ i, ((s.bindings i).map Prod.fst).Nodup

theorem outward_of_root_iff (ho : s.outer? c = none) : s.Outward c i ↔ i = c := by
  rw [Outward, Relation.ReflTransGen.cases_head_iff, ho]
  simp [eq_comm]

theorem outward_of_outer_iff (ho : s.outer? c = some o) :
    s.Outward c i ↔ i = c ∨ s.Outward o i := by
  rw [Outward, Relation.ReflTransGen.cases_head_iff, ho]
  simp [eq_comm]

theorem Acyclic.eq_of_outward (h : s.Acyclic) (hi : s.Outward c i) (hc : s.Outward i c) :
    i = c := by
  rcases Relation.ReflTransGen.cases_head hi with hci | ⟨o, ho, hi⟩
  · exact hci.symm
  · exact (h c (.head' ho (hi.trans hc))).elim

theorem Acyclic.mem_upTo_iff (h : s.Acyclic) : i ∈ upTo stop (s.chain c) ↔ s.Within c stop i := by
  induction c using h.induction with
  | root c ho =>
    have hupTo : upTo stop (s.chain c) = [c] := by
      rw [chain_of_root ho, upTo]
      split <;> rfl
    rw [hupTo, List.mem_singleton, Within, outward_of_root_iff ho]
    exact ⟨fun hi => ⟨hi, fun hstop => hi ▸ hstop⟩, And.left⟩
  | inner c o ho ih =>
    rw [h.chain_of_outer ho, upTo]
    split
    · rename_i hc
      obtain rfl : c = stop := by simpa using hc
      rw [List.mem_singleton]
      refine ⟨?_, fun hi => h.eq_of_outward hi.1 (hi.2 .refl)⟩
      rintro rfl
      exact ⟨.refl, id⟩
    · rename_i hc
      have hne : stop ≠ c := fun hstop => hc (by simp [hstop])
      rw [List.mem_cons, ih, Within, Within, outward_of_outer_iff ho, outward_of_outer_iff ho]
      constructor
      · rintro (rfl | ⟨hi, hstop⟩)
        · exact ⟨.inl rfl, fun hstop => (outward_of_outer_iff ho).mpr hstop⟩
        · exact ⟨.inr hi, fun hout => hstop (hout.resolve_left hne)⟩
      · rintro ⟨hi, hstop⟩
        exact hi.imp_right fun hi => ⟨hi, fun hout => hstop (.inr hout)⟩

theorem isPrefix_upTo (stop : Nat) (is : List Nat) : upTo stop is <+: is := by
  induction is with
  | nil => exact List.prefix_rfl
  | cons i is ih =>
    rw [upTo]
    split
    · exact List.prefix_append [i] is
    · exact (List.prefix_cons_inj i).mpr ih

/-- Laid over one another from the outside in, the scopes give a name the value that is met first
from the inside out. -/
theorem Distinct.lookup_exports (h : s.Distinct) (c stop : Nat) (x : String) :
    (s.exports c stop).lookup x =
      (upTo stop (s.chain c)).findSome? fun i => (s.bindings i).lookup x := by
  rw [exports]
  induction upTo stop (s.chain c) with
  | nil => rfl
  | cons i is ih =>
    rw [List.foldr_cons, Assoc.lookup_insertAll (h i), ih, List.findSome?_cons]
    cases (s.bindings i).lookup x <;> rfl

/-- A scope exports the names that are bound in it and around it up to the scope that is asked for,
each with the value that it sees, and no binding from beyond. -/
theorem exports_are_what_names_mean (h : s.Acyclic) (hs : s.Distinct) (e stop : Nat) (x : String) :
    (x ∈ (s.exports e stop).map Prod.fst ↔ ∃ i, s.Within e stop i ∧ s.Binds i x) ∧
      (x ∈ (s.exports e stop).map Prod.fst → (s.exports e stop).lookup x = s.get? e x) ∧
      ∀ v, (x, v) ∈ s.exports e stop →
        ∃ i, s.Within e stop i ∧ s.Resolves x e i ∧ (s.bindings i).lookup x = some v := by
  have hkey : x ∈ (s.exports e stop).map Prod.fst ↔ ∃ i, s.Within e stop i ∧ s.Binds i x := by
    rw [mem_keys_exports]
    simp only [h.mem_upTo_iff, Binds]
  have hvalue : x ∈ (s.exports e stop).map Prod.fst →
      (s.exports e stop).lookup x = s.get? e x := by
    intro hx
    obtain ⟨v, hv⟩ := Assoc.exists_lookup hx
    rw [hv]
    rw [hs.lookup_exports] at hv
    exact ((isPrefix_upTo stop _).findSome?_eq_some hv).symm
  refine ⟨hkey, hvalue, fun v hv => ?_⟩
  have hx := List.mem_map_of_mem (f := Prod.fst) hv
  obtain ⟨j, ⟨hj, hstop⟩, hbinds⟩ := hkey.mp hx
  obtain ⟨i, hi⟩ := exists_resolves hj hbinds
  have hij := hi.1.outward_of_binds hj hbinds
  refine ⟨i, ⟨hi.1.outward, fun hout => hij.trans (hstop hout)⟩, hi, ?_⟩
  rw [← h.get?_of_resolves hi, ← hvalue hx, Assoc.lookup_of_mem (s.nodup_keys_exports e stop) hv]

/-- From scope 2 up to scope 1 the inner `a` wins, and `c` of scope 0 stays behind. -/
theorem exports_are_what_names_mean_below_the_root :
    let s : Scopes := ⟨#[⟨[("c", .null)], none⟩, ⟨[("a", .null), ("b", .bool true)], some 0⟩,
      ⟨[("a", .bool false)], some 1⟩]⟩
    s.Acyclic ∧ s.Distinct ∧ (s.exports 2 1).lookup "a" = some (.bool false) ∧
      (s.exports 2 1).lookup "b" = s.get? 2 "b" ∧
      ¬ ∃ i, s.Within 2 1 i ∧ s.Binds i "c" := by
  intro s
  have hs : s.Acyclic := Ordered.acyclic fun i o ho =>
    (by decide : ∀ i < s.size, ∀ o ∈ s.outer? i, o < i) i (lt_of_outer? ho) o ho
  have hdistinct : s.Distinct := by
    intro i
    by_cases hi : i < s.size
    · exact (by decide : ∀ i < s.size, ((s.bindings i).map Prod.fst).Nodup) i hi
    · rw [bindings_of_le (Nat.le_of_not_lt hi)]
      exact .nil
  have hmean := exports_are_what_names_mean hs hdistinct 2 1
  refine ⟨hs, hdistinct, (hmean "a").2.1 (by decide), (hmean "b").2.1 (by decide), fun hc => ?_⟩
  exact absurd ((hmean "c").1.mpr hc) (by decide)

end MeowLang.Scopes
