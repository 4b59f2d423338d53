import Mathlib.Data.List.Nodup
import Mathlib.Data.List.Perm.Subperm
import Mathlib.Logic.Relation
import MeowLang.Proofs.Assoc
import MeowLang.Scope

/-! The table of scopes under its three changes: a scope is made, a name is set in a scope,
several names are set. None of them moves a scope that is there, so tables only grow, and the
way outward from a scope never changes. Where no scope stands around itself, it ends at an outermost
scope. -/
namespace MeowLang.Scopes

variable {s s' t : Scopes} {i j c : Nat} {x y : String} {v : Value}

/-! ### Making a scope -/

@[simp] theorem size_push (s : Scopes) (scope : Scope) : (s.push scope).size = s.size + 1 :=
  Array.size_push _

theorem outer?_push (s : Scopes) (scope : Scope) (i : Nat) :
    (s.push scope).outer? i = if i = s.size then scope.outer else s.outer? i := by
  simp only [outer?, push, size, Array.getElem?_push]
  split <;> simp_all

theorem outer?_push_of_lt (h : i < s.size) (scope : Scope) :
    (s.push scope).outer? i = s.outer? i := by
  rw [outer?_push, if_neg (Nat.ne_of_lt h)]

@[simp] theorem outer?_push_self (s : Scopes) (scope : Scope) :
    (s.push scope).outer? s.size = scope.outer := by
  simp [outer?_push]

theorem bindings_push (s : Scopes) (scope : Scope) (i : Nat) :
    (s.push scope).bindings i = if i = s.size then scope.bindings else s.bindings i := by
  by_cases h : i = s.size <;> simp_all [bindings, push, size, Array.getElem?_push]

theorem bindings_push_of_lt (h : i < s.size) (scope : Scope) :
    (s.push scope).bindings i = s.bindings i := by
  rw [bindings_push, if_neg (Nat.ne_of_lt h)]

@[simp] theorem bindings_push_self (s : Scopes) (scope : Scope) :
    (s.push scope).bindings s.size = scope.bindings := by
  simp [bindings_push]

theorem bindings_of_le (h : s.size ≤ i) : s.bindings i = [] := by
  simp only [bindings]
  rw [Array.getElem?_eq_none h]

theorem lt_of_mem_bindings {p : String × Value} (h : p ∈ s.bindings i) : i < s.size := by
  by_contra hi
  simp [bindings_of_le (Nat.le_of_not_lt hi)] at h

theorem mem_bindings_push {scope : Scope} {p : String × Value}
    (h : p ∈ (s.push scope).bindings i) : p ∈ s.bindings i ∨ p ∈ scope.bindings := by
  rw [bindings_push] at h
  split at h
  · exact .inr h
  · exact .inl h

/-! ### Setting a name -/

@[simp] theorem size_set (s : Scopes) (i : Nat) (x : String) (v : Value) :
    (s.set i x v).size = s.size := by
  simp [set, size]

@[simp] theorem outer?_set (s : Scopes) (i j : Nat) (x : String) (v : Value) :
    (s.set i x v).outer? j = s.outer? j := by
  simp only [outer?, set, Array.getElem?_modify]
  split
  · cases s.table[j]? <;> rfl
  · rfl

theorem bindings_set_of_ne (h : j ≠ i) : (s.set i x v).bindings j = s.bindings j := by
  simp only [bindings, set, Array.getElem?_modify, if_neg (Ne.symm h)]

theorem bindings_set_self (h : i < s.size) :
    (s.set i x v).bindings i = Assoc.insert x v (s.bindings i) := by
  simp only [bindings, set, Array.getElem?_modify, if_pos]
  rw [Array.getElem?_eq_getElem h]
  rfl

theorem mem_bindings_set {p : String × Value} (h : p ∈ (s.set i x v).bindings j) :
    p ∈ s.bindings j ∨ p = (x, v) := by
  by_cases hj : j = i
  · subst hj
    have hs := lt_of_mem_bindings h
    rw [size_set] at hs
    rw [bindings_set_self hs] at h
    exact (Assoc.mem_insert h).symm
  · exact .inl (bindings_set_of_ne hj ▸ h)

/-- A set touches one name of one scope. -/
theorem lookup_bindings_set (h : j ≠ i ∨ y ≠ x) :
    ((s.set i x v).bindings j).lookup y = (s.bindings j).lookup y := by
  by_cases hj : j = i
  · subst hj
    have hy : y ≠ x := h.resolve_left (by simp)
    by_cases hs : j < s.size
    · rw [bindings_set_self hs, Assoc.lookup_insert_of_ne hy]
    · have hs := Nat.le_of_not_lt hs
      rw [bindings_of_le hs, bindings_of_le (by simpa using hs)]
  · rw [bindings_set_of_ne hj]

/-- A set of a name that a scope binds leaves the names of all scopes as they are. -/
theorem keys_bindings_set_of_mem (h : x ∈ (s.bindings i).map Prod.fst) (j : Nat) :
    ((s.set i x v).bindings j).map Prod.fst = (s.bindings j).map Prod.fst := by
  by_cases hj : j = i
  · subst hj
    obtain ⟨p, hp, -⟩ := List.mem_map.mp h
    rw [bindings_set_self (lt_of_mem_bindings hp), Assoc.keys_insert_of_mem h]
  · rw [bindings_set_of_ne hj]

/-! ### Growth -/

/-- Scopes were made, and those that were there still stand where they stood. -/
structure Grows (s s' : Scopes) : Prop where
  size_le : s.size ≤ s'.size
  outer_eq : ∀ i < s.size, s'.outer? i = s.outer? i

theorem Grows.refl (s : Scopes) : s.Grows s := ⟨Nat.le_refl _, fun _ _ => rfl⟩

theorem Grows.lt_size (h : s.Grows s') (hi : i < s.size) : i < s'.size :=
  Nat.lt_of_lt_of_le hi h.size_le

theorem Grows.trans (h : s.Grows s') (h' : s'.Grows t) : s.Grows t :=
  ⟨Nat.le_trans h.size_le h'.size_le, fun i hi =>
    (h'.outer_eq i (h.lt_size hi)).trans (h.outer_eq i hi)⟩

theorem grows_push (s : Scopes) (scope : Scope) : s.Grows (s.push scope) :=
  ⟨by simp, fun _ hi => outer?_push_of_lt hi scope⟩

theorem grows_set (s : Scopes) (i : Nat) (x : String) (v : Value) : s.Grows (s.set i x v) :=
  ⟨by simp, fun _ _ => by simp⟩

/-! ### The way outward -/

/-- Scope `j` is scope `i` or stands around it. -/
def Outward (s : Scopes) : Nat → Nat → Prop :=
  Relation.ReflTransGen fun i j => s.outer? i = some j

theorem outward_of_mem_chainFrom {n : Nat} (h : j ∈ s.chainFrom n i) : s.Outward i j := by
  induction n generalizing i with
  | zero => simp [chainFrom] at h
  | succ n ih =>
    simp only [chainFrom] at h
    split at h
    · rename_i outer ho
      rcases List.mem_cons.mp h with rfl | h
      · exact .refl
      · exact .head ho (ih h)
    · rw [List.mem_singleton.mp h]
      exact .refl

theorem outward_of_mem_chain (h : j ∈ s.chain i) : s.Outward i j := outward_of_mem_chainFrom h

theorem lt_of_outer? {o : Nat} (h : s.outer? i = some o) : i < s.size := by
  by_contra hi
  simp only [outer?, Array.getElem?_eq_none (Nat.le_of_not_lt hi)] at h
  cases h

/-! ### No scope around itself -/

/-- No way outward comes back to where it started. -/
def Acyclic (s : Scopes) : Prop := ∀ i, ¬ Relation.TransGen (fun i o => s.outer? i = some o) i i

theorem Acyclic.of_outer?_eq (h : s.Acyclic) (ho : ∀ i, s'.outer? i = s.outer? i) :
    s'.Acyclic := by
  intro i hi
  simp only [ho] at hi
  exact h i hi

theorem Acyclic.set (h : s.Acyclic) (i : Nat) (x : String) (v : Value) : (s.set i x v).Acyclic :=
  h.of_outer?_eq fun j => outer?_set s i j x v

theorem Acyclic.nodup_chainFrom (h : s.Acyclic) (n c : Nat) : (s.chainFrom n c).Nodup := by
  induction n generalizing c with
  | zero => exact .nil
  | succ n ih =>
    simp only [chainFrom]
    split
    · rename_i o ho
      refine List.nodup_cons.mpr ⟨fun hc => ?_, ih o⟩
      exact h c (.head' ho (outward_of_mem_chainFrom hc))
    · exact List.nodup_singleton c

/-- A way outward is cut short, or nothing more comes however far it is followed. -/
theorem chainFrom_cut (s : Scopes) (n c : Nat) :
    ((s.chainFrom n c).length = n ∧ ∀ i ∈ s.chainFrom n c, i < s.size) ∨
      ∀ k, n ≤ k → s.chainFrom k c = s.chainFrom n c := by
  induction n generalizing c with
  | zero => exact .inl ⟨rfl, List.forall_mem_nil _⟩
  | succ n ih =>
    cases ho : s.outer? c with
    | none =>
      refine .inr fun k hk => ?_
      obtain ⟨k, rfl⟩ := Nat.exists_eq_add_of_le' (Nat.le_of_add_left_le hk)
      simp only [chainFrom, ho]
    | some o =>
      simp only [chainFrom, ho]
      refine (ih o).imp (fun hcut => ?_) fun hall k hk => ?_
      · rw [List.length_cons, hcut.1, List.forall_mem_cons]
        exact ⟨rfl, lt_of_outer? ho, hcut.2⟩
      · obtain ⟨k, rfl⟩ := Nat.exists_eq_add_of_le' (Nat.le_of_add_left_le hk)
        simp only [chainFrom, ho]
        rw [hall k (Nat.le_of_add_le_add_right hk)]

/-- There are not enough scopes for a way outward to be cut short. -/
theorem Acyclic.chainFrom_eq (h : s.Acyclic) {n : Nat} (hn : s.size < n) (c : Nat) :
    s.chainFrom n c = s.chain c := by
  rcases s.chainFrom_cut (s.size + 1) c with ⟨hlength, hsize⟩ | hall
  · have hsub : s.chainFrom (s.size + 1) c ⊆ List.range s.size :=
      fun i hi => List.mem_range.mpr (hsize i hi)
    have hle := ((h.nodup_chainFrom _ c).subperm hsub).length_le
    rw [hlength, List.length_range] at hle
    omega
  · exact hall n hn

theorem chain_of_root (ho : s.outer? c = none) : s.chain c = [c] := by
  simp only [chain, chainFrom, ho]

theorem Acyclic.chain_of_outer (h : s.Acyclic) {o : Nat} (ho : s.outer? c = some o) :
    s.chain c = c :: s.chain o := by
  rw [← h.chainFrom_eq (Nat.lt_succ_of_lt (Nat.lt_succ_self s.size)) c, chainFrom, ho]
  rfl

/-- What holds of the outermost scopes and goes over from a scope to those inside it holds of
all scopes. -/
theorem Acyclic.induction {P : Nat → Prop} (h : s.Acyclic)
    (root : ∀ c, s.outer? c = none → P c)
    (inner : ∀ c o, s.outer? c = some o → P o → P c) (c : Nat) : P c := by
  induction hn : (s.chain c).length using Nat.strongRecOn generalizing c with
  | ind n ih =>
    cases ho : s.outer? c with
    | none => exact root c ho
    | some o =>
      have hlt : (s.chain o).length < n := by
        rw [← hn, h.chain_of_outer ho, List.length_cons]
        exact Nat.lt_succ_self _
      exact inner c o ho (ih _ hlt o rfl)

/-- Scope `c` and all scopes around it are there and among those that `P` says. -/
def Along (s : Scopes) (P : Nat → Prop) (c : Nat) : Prop := ∀ i, s.Outward c i → P i ∧ i < s.size

section
variable {P : Nat → Prop}

theorem Along.grows (h : s.Along P c) (hg : s.Grows s') : s'.Along P c := by
  have back : ∀ i, s'.Outward c i → s.Outward c i := by
    intro i hi
    induction hi with
    | refl => exact .refl
    | tail _ hstep ih =>
      rw [hg.outer_eq _ (h _ ih).2] at hstep
      exact ih.tail hstep
  intro i hi
  obtain ⟨hp, hs⟩ := h i (back i hi)
  exact ⟨hp, Nat.lt_of_lt_of_le hs hg.size_le⟩

theorem Along.inner (h : s.Along P c) (ho : s.outer? j = some c) (hj : P j) : s.Along P j := by
  intro i hi
  rcases Relation.ReflTransGen.cases_head hi with rfl | ⟨d, hd, hi⟩
  · exact ⟨hj, lt_of_outer? ho⟩
  · cases ho.symm.trans hd
    exact h i hi

theorem along_root (ho : s.outer? c = none) (hc : P c) (hs : c < s.size) : s.Along P c := by
  intro i hi
  rcases Relation.ReflTransGen.cases_head hi with rfl | ⟨d, hd, -⟩
  · exact ⟨hc, hs⟩
  · rw [ho] at hd
    cases hd

/-- A new scope, inside one of them or outermost. -/
theorem along_push {scope : Scope} (hs : P s.size) (ho : ∀ o, scope.outer = some o → s.Along P o) :
    (s.push scope).Along P s.size := by
  cases h : scope.outer with
  | none => exact along_root (by simp [h]) hs (by simp)
  | some o => exact ((ho o h).grows (s.grows_push scope)).inner (by simp [h]) hs

/-- Two new scopes, one inside the other, as a library has. -/
theorem along_push_push {inner root : List (String × Value)} (hs : P s.size)
    (hs' : P (s.size + 1)) :
    ((s.push ⟨root, none⟩).push ⟨inner, some s.size⟩).Along P (s.size + 1) := by
  rw [← size_push s ⟨root, none⟩] at hs' ⊢
  apply along_push hs'
  rintro o ⟨⟩
  apply along_push hs
  rintro o ⟨⟩

end

/-- Scope `c` and all scopes around it were made after the first `k`. -/
def Apart (s : Scopes) (k c : Nat) : Prop := ∀ i, s.Outward c i → k ≤ i ∧ i < s.size

theorem Apart.grows {k : Nat} (h : s.Apart k c) (hg : s.Grows s') : s'.Apart k c :=
  Along.grows h hg

theorem Apart.inner {k : Nat} (h : s.Apart k c) (ho : s.outer? j = some c) (hk : k ≤ j) :
    s.Apart k j := Along.inner h ho hk

/-- Two new scopes, one inside the other, are apart from all scopes before them. -/
theorem apart_push_push {k : Nat} {inner root : List (String × Value)} (hk : k ≤ s.size) :
    ((s.push ⟨root, none⟩).push ⟨inner, some s.size⟩).Apart k (s.size + 1) :=
  along_push_push hk (Nat.le_succ_of_le hk)

/-- A scope's own bindings come first. -/
theorem get?_of_lookup (h : (s.bindings c).lookup x = some v) : s.get? c x = some v := by
  rw [get?, chain, chainFrom]
  split <;> simp [h]

theorem get?_of_root (ho : s.outer? c = none) (x : String) :
    s.get? c x = (s.bindings c).lookup x := by
  rw [get?, chain_of_root ho, List.findSome?_singleton]

/-- A name that a scope does not bind has the value that the scope around it sees. -/
theorem Acyclic.get?_of_outer (h : s.Acyclic) {o : Nat} (ho : s.outer? c = some o) (x : String) :
    s.get? c x = ((s.bindings c).lookup x).or (s.get? o x) := by
  rw [get?, h.chain_of_outer ho, List.findSome?_cons]
  cases (s.bindings c).lookup x <;> rfl

theorem exists_mem_of_get? (h : s.get? c x = some v) :
    ∃ i ∈ s.chain c, ∃ k, (k, v) ∈ s.bindings i := by
  obtain ⟨i, hi, hv⟩ := List.exists_of_findSome?_eq_some h
  exact ⟨i, hi, Assoc.mem_of_lookup hv⟩

theorem mem_chain_of_holder? (h : s.holder? c x = some i) : i ∈ s.chain c :=
  List.mem_of_find?_eq_some h

theorem mem_keys_of_holder? (h : s.holder? c x = some i) : x ∈ (s.bindings i).map Prod.fst := by
  have hc := List.find?_some h
  exact Assoc.contains_iff.mp hc

/-! ### Exports -/

theorem mem_of_mem_upTo {stop : Nat} {is : List Nat} (h : i ∈ upTo stop is) : i ∈ is := by
  induction is with
  | nil => exact h
  | cons k is ih =>
    simp only [upTo] at h
    split at h
    · exact List.mem_cons.mpr (.inl (List.mem_singleton.mp h))
    · exact List.mem_cons.mpr ((List.mem_cons.mp h).imp_right ih)

theorem exists_mem_upTo_of_mem_exports {stop : Nat} {p : String × Value}
    (h : p ∈ s.exports c stop) : ∃ i ∈ upTo stop (s.chain c), p ∈ s.bindings i := by
  simp only [exports] at h
  generalize upTo stop (s.chain c) = is at h ⊢
  induction is with
  | nil => cases h
  | cons i is ih =>
    rcases Assoc.mem_insertAll h with h | h
    · exact ⟨i, List.mem_cons_self, h⟩
    · obtain ⟨j, hj, hb⟩ := ih h
      exact ⟨j, List.mem_cons_of_mem _ hj, hb⟩

theorem exists_mem_of_mem_exports {stop : Nat} {p : String × Value}
    (h : p ∈ s.exports c stop) : ∃ i ∈ s.chain c, p ∈ s.bindings i := by
  obtain ⟨i, hi, hp⟩ := exists_mem_upTo_of_mem_exports h
  exact ⟨i, mem_of_mem_upTo hi, hp⟩

/-- A name is exported if one of the scopes binds it. -/
theorem mem_keys_exports {stop : Nat} : x ∈ (s.exports c stop).map Prod.fst ↔
    ∃ i ∈ upTo stop (s.chain c), x ∈ (s.bindings i).map Prod.fst := by
  simp only [exports]
  induction upTo stop (s.chain c) with
  | nil => simp
  | cons i is ih => rw [List.foldr_cons, Assoc.mem_keys_insertAll, ih, List.exists_mem_cons_iff]

/-- No name is exported twice. -/
theorem nodup_keys_exports (s : Scopes) (c stop : Nat) :
    ((s.exports c stop).map Prod.fst).Nodup := by
  simp only [exports]
  induction upTo stop (s.chain c) with
  | nil => exact .nil
  | cons i is ih => exact Assoc.nodup_keys_insertAll _ ih

end MeowLang.Scopes
