import MeowLang.Proofs.Value.Equality
import MeowLang.Value.Operation
import MeowLang.Value.Shared

/-! A shared map whose keys are set one after the other is a finite map under the equality of the
language, in the order in which its keys were first set. What it holds is read off the sequence of
sets: where a key stands is decided by the first set of an equal key, how it is spelled and what it
has by the last one. -/
namespace MeowLang

namespace Value

def keyKinds : List ValueKind := [.number, .string, .boolean]

theorem ofKey_of_key? {v : Value} {k : Key} (h : v.key? = some k) : ofKey k = v := by
  cases v with
  | bool | number | string =>
    cases h
    rfl
  | _ => cases h

theorem key?_ofKey (k : Key) : (ofKey k).key? = some k := by
  cases k <;> rfl

theorem key?_eq_none_iff {v : Value} : v.key? = none ↔ v.kind ∉ keyKinds := by
  cases v <;> simp [key?, kind, keyKinds]

theorem exists_key_iff {v : Value} : (∃ k, v.key? = some k) ↔ v.kind ∈ keyKinds := by
  rw [← Option.isSome_iff_exists, ← not_iff_not, ← key?_eq_none_iff, Option.not_isSome_iff_eq_none]

theorem forall_of_kind {P : Value → Prop} : (∀ v : Value, v.kind ∈ keyKinds → P v) ↔
    ∀ k : Key, P (ofKey k) := by
  constructor
  · intro h k
    exact h _ (exists_key_iff.mp ⟨k, key?_ofKey k⟩)
  · intro h v hv
    obtain ⟨k, hk⟩ := exists_key_iff.mpr hv
    exact ofKey_of_key? hk ▸ h k

theorem ofKey_equal_of_key? {v : Value} (h : v.key? = none) (k : Key) :
    (ofKey k).equal v = false := by
  cases v with
  | bool | number | string => cases h
  | _ => cases k <;> rfl

/-- Two maps are equal if under each key they have one value or none, or equal ones. -/
theorem equal_map_iff {es fs : List (Key × Value)} (hes : Assoc.Distinct es)
    (hfs : Assoc.Distinct fs) (hkeys : ∀ p ∈ es, p.1.isNaN = false)
    (hothers : ∀ p ∈ fs, p.1.isNaN = false) (hself : ∀ p ∈ es, p.2.equal p.2 = true) :
    (map es).equal (map fs) = true ↔ ∀ k, es.lookup k = fs.lookup k ∨
      ∃ v w, es.lookup k = some v ∧ fs.lookup k = some w ∧ v.equal w = true := by
  rw [equal_iff]
  constructor
  · intro h k
    cases h with
    | map length included =>
      cases hk : es.lookup k with
      | some v =>
        obtain ⟨p, hp, hkp, rfl⟩ := Assoc.exists_mem_of_lookup hk
        obtain ⟨w, hw, hequal⟩ := included p hp
        exact .inr ⟨p.2, w, rfl, (Assoc.lookup_congr hkp fs).trans hw, hequal⟩
      | none =>
        refine .inl (Option.eq_none_iff_forall_ne_some.mpr fun w hw => ?_).symm
        obtain ⟨q, hq, hkq, -⟩ := Assoc.exists_mem_of_lookup hw
        obtain ⟨v, hv, -⟩ := included.flip hes hfs (Nat.le_of_eq length.symm) q hq
        cases hk.symm.trans ((Assoc.lookup_congr hkq es).trans hv)
  · intro h
    have hincluded : Assoc.Included (fun v w => v.equal w = true) es fs := by
      intro p hp
      have hfound := hes.lookup_of_mem hp ((Key.beq_self_iff p.1).mpr (hkeys p hp))
      rcases h p.1 with hsame | ⟨v, w, hv, hw, hequal⟩
      · exact ⟨p.2, hsame.symm.trans hfound, hself p hp⟩
      · cases hfound.symm.trans hv
        exact ⟨w, hw, hequal⟩
    -- No equality of values is needed to see that the other map has no more keys.
    have hback : Assoc.Included (fun _ _ => True) fs es := by
      intro q hq
      have hfound := hfs.lookup_of_mem hq ((Key.beq_self_iff q.1).mpr (hothers q hq))
      rcases h q.1 with hsame | ⟨v, -, hv, -⟩
      · exact ⟨q.2, hsame.trans hfound, trivial⟩
      · exact ⟨v, hv, trivial⟩
    exact .map (Nat.le_antisymm (hincluded.length_le hes) (hback.length_le hfs)) hincluded

end Value

namespace SharedMaps

open Value (keyKinds)

/-! ### A sequence of sets and what it leaves -/

/-- Sets keys of a map one after the other. Those that it cannot have leave it as it is. -/
def setAll (s : SharedMaps) (map : Nat) (sets : List (Value × Held)) : SharedMaps :=
  sets.foldl (fun s p => (s.put map p.1 p.2).toOption.getD s) s

/-- What is held under a key, as it is now. -/
def seen (s : SharedMaps) : Held → Value
  | .value v => v
  | .link inner => .map (s.viewFrom (s.table.size - 1) inner)

/-- An entry of a map as its key and its value, as they are now. -/
def shown (s : SharedMaps) (p : Key × Held) : Value × Value := (.ofKey p.1, s.seen p.2)

/-- The keys of a map and their values, as they are now. -/
def pairs (s : SharedMaps) (map : Nat) : List (Value × Value) :=
  (s.view map).map fun p => (.ofKey p.1, p.2)

/-- The sets of keys that a map can have. -/
def usable (sets : List (Value × Held)) : List (Value × Held) :=
  sets.filter fun p => p.1.kind ∈ keyKinds

/-- The keys that are set, each one where an equal one is set first. -/
def firstKeys (sets : List (Value × Held)) : List Value :=
  ((usable sets).map Prod.fst).eraseDupsBy Value.equal

/-- The last set of a key that equals `k`. -/
def lastSet (sets : List (Value × Held)) (k : Value) : Option (Value × Held) :=
  (usable sets).reverse.find? fun p => p.1.equal k

/-- Two maps have the same value under `k` or none, or they have equal ones. -/
def AgreeOn (k : Value) (s : SharedMaps) (map : Nat) (t : SharedMaps) (other : Nat) : Prop :=
  s.find map k = t.find other k ∨
    ∃ v w, s.find map k = .ok (some v) ∧ t.find other k = .ok (some w) ∧ v.equal w = true

/-- The sets of keys that a map can have, by the keys that it has then. -/
def keyed (sets : List (Value × Held)) : List (Key × Held) :=
  sets.filterMap fun p => p.1.key?.map (·, p.2)

theorem usable_eq (sets : List (Value × Held)) :
    usable sets = (keyed sets).map fun p => (.ofKey p.1, p.2) := by
  rw [usable, keyed, List.map_filterMap, ← List.filterMap_eq_filter]
  congr 1
  funext p
  cases hk : p.1.key? with
  | none => simp [Option.guard, Value.key?_eq_none_iff.mp hk]
  | some k => simp [Option.guard, Value.exists_key_iff.mp ⟨k, hk⟩, Value.ofKey_of_key? hk]

/-! ### The run -/

theorem put_of_key? {k : Value} {key : Key} (h : k.key? = some key) (s : SharedMaps) (map : Nat)
    (held : Held) : s.put map k held = .ok ⟨s.table.modify map (Assoc.insert key held)⟩ := by
  rw [put, h]

theorem put_of_kind {k : Value} (h : k.kind ∉ keyKinds) (s : SharedMaps) (map : Nat)
    (held : Held) : s.put map k held = .error (.unusableKey k) := by
  rw [put, Value.key?_eq_none_iff.mpr h]

theorem setAll_cons (s : SharedMaps) (map : Nat) (p : Value × Held) (sets : List (Value × Held)) :
    s.setAll map (p :: sets) = ((s.put map p.1 p.2).toOption.getD s).setAll map sets := rfl

theorem setAll_concat (s : SharedMaps) (map : Nat) (sets : List (Value × Held))
    (p : Value × Held) : s.setAll map (sets ++ [p]) =
      ((s.setAll map sets).put map p.1 p.2).toOption.getD (s.setAll map sets) := by
  rw [setAll, List.foldl_append]
  rfl

theorem table_setAll {s : SharedMaps} {map : Nat} {es : List (Key × Held)}
    (h : s.table[map]? = some es) (sets : List (Value × Held)) :
    (s.setAll map sets).table[map]? = some (Assoc.insertAll (keyed sets) es) := by
  induction sets generalizing s es with
  | nil => exact h
  | cons p sets ih =>
    rw [setAll_cons]
    cases hk : p.1.key? with
    | none =>
      have hkeyed : keyed (p :: sets) = keyed sets := List.filterMap_cons_none (by rw [hk]; rfl)
      rw [put_of_kind (Value.key?_eq_none_iff.mp hk), hkeyed]
      exact ih h
    | some k =>
      have hkeyed : keyed (p :: sets) = (k, p.2) :: keyed sets :=
        List.filterMap_cons_some (by rw [hk]; rfl)
      rw [put_of_key? hk, hkeyed]
      refine ih ?_
      simp [Except.toOption, Array.getElem?_modify, h]

theorem table_make {s s' : SharedMaps} {map : Nat} (h : s.make [] = .ok (map, s')) :
    s'.table[map]? = some [] := by
  cases h
  exact Array.getElem?_push_size

theorem view_eq {s : SharedMaps} {map : Nat} {es : List (Key × Held)}
    (h : s.table[map]? = some es) : s.view map = es.map fun p => (p.1, s.seen p.2) := by
  obtain ⟨hlt, -⟩ := Array.getElem?_eq_some_iff.mp h
  obtain ⟨n, hn⟩ : ∃ n, s.table.size = n + 1 := ⟨s.table.size - 1, by omega⟩
  rw [view, hn, viewFrom, h, Option.getD_some]
  refine List.map_congr_left fun p hp => ?_
  obtain ⟨k, held⟩ := p
  cases held with
  | value v => rfl
  | link inner => simp [seen, hn]

/-! ### Where the keys stand -/

theorem eraseDupsBy_map {α β : Type} (f : α → β) (r : β → β → Bool) (l : List α) :
    (l.map f).eraseDupsBy r = (l.eraseDupsBy fun a b => r (f a) (f b)).map f := by
  induction hn : l.length using Nat.strongRecOn generalizing l with
  | ind n ih =>
    cases l with
    | nil => rfl
    | cons a l =>
      rw [List.map_cons, List.eraseDupsBy_cons, List.eraseDupsBy_cons, List.map_cons,
        List.filter_map, ih _ ?_ _ rfl]
      · rfl
      · have hle := List.length_filter_le (fun b => decide (r (f b) (f a) = false)) l
        rw [List.length_cons] at hn
        exact hn ▸ Nat.lt_succ_of_le hle

theorem firstKeys_eq (sets : List (Value × Held)) :
    firstKeys sets = ((keyed sets).map Prod.fst).eraseDups.map Value.ofKey := by
  have hkeys : (usable sets).map Prod.fst = ((keyed sets).map Prod.fst).map Value.ofKey := by
    rw [usable_eq, List.map_map, List.map_map]
    rfl
  rw [firstKeys, hkeys, eraseDupsBy_map]
  simp only [Key.equal_ofKey]
  rfl

theorem lastSet_ofKey (sets : List (Value × Held)) (k : Key) : lastSet sets (.ofKey k) =
    ((keyed sets).reverse.find? (·.1 == k)).map fun p => (.ofKey p.1, p.2) := by
  rw [lastSet, usable_eq, ← List.map_reverse, List.find?_map]
  simp only [Function.comp_def, Key.equal_ofKey]

theorem isNaN_of_mem_keyed {sets : List (Value × Held)} (h : ∀ p ∈ sets, p.1.Comparable)
    {q : Key × Held} (hq : q ∈ keyed sets) : q.1.isNaN = false := by
  obtain ⟨p, hp, hset⟩ := List.mem_filterMap.mp hq
  obtain ⟨k, hk, rfl⟩ := Option.map_eq_some_iff.mp hset
  have hcomparable := h p hp
  rw [← Value.ofKey_of_key? hk] at hcomparable
  cases k with
  | number x => exact Value.comparable_number.mp hcomparable
  | bool | string => rfl

/-! ### Asking for a key -/

theorem any_pairs_ofKey (s : SharedMaps) (map : Nat) (k : Key) :
    ((s.pairs map).any fun p => p.1.equal (.ofKey k)) = Assoc.contains k (s.view map) := by
  rw [Assoc.contains_eq_any, pairs, List.any_map]
  simp only [Function.comp_def, Key.equal_ofKey, BEq.comm (α := Key)]

theorem contains_eq (s : SharedMaps) (map : Nat) (k : Value) :
    s.contains map k = (s.pairs map).any fun p => p.1.equal k := by
  cases hk : k.key? with
  | none =>
    have hnone : ((s.pairs map).any fun p => p.1.equal k) = false := by
      simp [pairs, Value.ofKey_equal_of_key? hk]
    rw [contains, hk, hnone]
    rfl
  | some key =>
    rw [← Value.ofKey_of_key? hk, any_pairs_ofKey, contains, Value.key?_ofKey]
    rfl

theorem find?_pairs_ofKey (s : SharedMaps) (map : Nat) (k : Key) :
    ((s.pairs map).find? fun p => p.1.equal (.ofKey k)).map Prod.snd = (s.view map).lookup k := by
  rw [pairs, List.find?_map, Option.map_map]
  simp only [Function.comp_def, Key.equal_ofKey]
  induction s.view map with
  | nil => rfl
  | cons e es ih =>
    rw [List.lookup_cons, List.find?_cons, BEq.comm (α := Key)]
    cases k == e.1
    · exact ih
    · rfl

theorem find_ofKey (s : SharedMaps) (map : Nat) (k : Key) :
    s.find map (.ofKey k) = .ok ((s.view map).lookup k) := by
  cases k <;> rfl

theorem agreeOn_ofKey (k : Key) (s : SharedMaps) (map : Nat) (t : SharedMaps) (other : Nat) :
    AgreeOn (.ofKey k) s map t other ↔ (s.view map).lookup k = (t.view other).lookup k ∨
      ∃ v w, (s.view map).lookup k = some v ∧ (t.view other).lookup k = some w ∧
        v.equal w = true := by
  simp only [AgreeOn, find_ofKey, Except.ok.injEq]

/-! ### The map as a whole -/

section Fresh

variable {s s' : SharedMaps} {i : Nat} (hmake : s.make [] = .ok (i, s'))
  (sets : List (Value × Held))

include hmake

theorem view_setAll : (s'.setAll i sets).view i = (Assoc.insertAll (keyed sets) []).map
    fun p => (p.1, (s'.setAll i sets).seen p.2) := view_eq (table_setAll (table_make hmake) sets)

theorem distinct_view : Assoc.Distinct ((s'.setAll i sets).view i) := by
  rw [view_setAll hmake sets, Assoc.Distinct, List.pairwise_map]
  exact Assoc.Distinct.insertAll _ .nil

variable {sets}

theorem isNaN_of_mem_view (hkeys : ∀ p ∈ sets, p.1.Comparable) {p : Key × Value}
    (hp : p ∈ (s'.setAll i sets).view i) : p.1.isNaN = false := by
  rw [view_setAll hmake sets] at hp
  obtain ⟨q, hq, rfl⟩ := List.mem_map.mp hp
  rcases Assoc.mem_insertAll hq with hq | hq
  · exact isNaN_of_mem_keyed hkeys hq
  · cases hq

theorem pairs_map_some (hkeys : ∀ p ∈ sets, p.1.Comparable) :
    ((s'.setAll i sets).pairs i).map some = (firstKeys sets).map fun k =>
      (lastSet sets k).map fun p => (p.1, (s'.setAll i sets).seen p.2) := by
  have hself : ∀ p ∈ keyed sets, (p.1 == p.1) = true := fun p hp =>
    (Key.beq_self_iff p.1).mpr (isNaN_of_mem_keyed hkeys hp)
  calc ((s'.setAll i sets).pairs i).map some
      = ((Assoc.insertAll (keyed sets) []).map some).map (Option.map (s'.setAll i sets).shown) := by
        rw [pairs, view_setAll hmake sets]
        simp only [List.map_map]
        rfl
    _ = ((keyed sets).map Prod.fst).eraseDups.map fun k =>
          ((keyed sets).reverse.find? (·.1 == k)).map (s'.setAll i sets).shown := by
        rw [Assoc.insertAll_nil_map_some hself, List.map_map]
        rfl
    _ = _ := by
        rw [firstKeys_eq, List.map_map]
        simp only [Function.comp_def, lastSet_ofKey, Option.map_map]
        rfl

end Fresh

/-- Setting keys one after the other in a new map makes a finite map under the equality of the
language, in the order of the first sets. Keys of other kinds are refused and change nothing, and
two such maps are equal if they agree on every key, whatever the order of the sets. -/
theorem sets_make_an_ordered_map {s s' : SharedMaps} {i : Nat}
    (hmake : s.make [] = .ok (i, s')) (sets : List (Value × Held))
    (hkeys : ∀ p ∈ sets, p.1.Comparable)
    (hvalues : ∀ p ∈ (s'.setAll i sets).pairs i, p.2.WellKeyed ∧ p.2.Comparable) :
    let m := s'.setAll i sets
    (∀ k held, k.kind ∈ keyKinds → m.put i k held = .ok (s'.setAll i (sets ++ [(k, held)]))) ∧
    (∀ k held, k.kind ∉ keyKinds → m.put i k held = .error (.unusableKey k) ∧
      s'.setAll i (sets ++ [(k, held)]) = m) ∧
    (m.pairs i).Pairwise (fun p q => p.1.equal q.1 = false) ∧
    (m.pairs i).map some = (firstKeys sets).map (fun k =>
      (lastSet sets k).map fun p => (p.1, m.seen p.2)) ∧
    (∀ k, m.contains i k = ((m.pairs i).any fun p => p.1.equal k) ∧
      k.binary .member (.map (m.view i)) = .ok (.bool (m.contains i k))) ∧
    (∀ k, k.kind ∈ keyKinds →
      let found := ((m.pairs i).find? fun p => p.1.equal k).map Prod.snd
      m.find i k = .ok found ∧ (Value.map (m.view i)).index k = .ok (found.getD .null)) ∧
    (m.view i).length = (firstKeys sets).length ∧
    ∀ (t t' : SharedMaps) (j : Nat) (others : List (Value × Held)), t.make [] = .ok (j, t') →
      (∀ p ∈ others, p.1.Comparable) →
      ((Value.map (m.view i)).equal (.map ((t'.setAll j others).view j)) = true ↔
        ∀ k, k.kind ∈ keyKinds → AgreeOn k m i (t'.setAll j others) j) := by
  intro m
  have horder := pairs_map_some hmake hkeys
  refine ⟨fun k held hk => ?_, fun k held hk => ?_, ?_, horder, fun k => ⟨contains_eq m i k, ?_⟩,
    Value.forall_of_kind.mpr fun k => ⟨?_, ?_⟩, ?_, fun t t' j others hmake' hothers => ?_⟩
  · obtain ⟨key, hkey⟩ := Value.exists_key_iff.mpr hk
    rw [setAll_concat, put_of_key? hkey]
    rfl
  · have hput := put_of_kind hk m i held
    rw [setAll_concat, hput]
    exact ⟨rfl, rfl⟩
  · rw [pairs, List.pairwise_map]
    simp only [Key.equal_ofKey]
    exact distinct_view hmake sets
  · cases hk : k.key? <;> simp [Value.binary, Value.isMember, contains, Assoc.contains, hk]
  · rw [find?_pairs_ofKey, find_ofKey]
  · rw [find?_pairs_ofKey, Value.index, Value.key?_ofKey]
  · simpa [pairs] using congrArg List.length horder
  · rw [Value.forall_of_kind]
    simp only [agreeOn_ofKey]
    refine Value.equal_map_iff (distinct_view hmake sets) (distinct_view hmake' others)
      (fun p => isNaN_of_mem_view hmake hkeys) (fun p => isNaN_of_mem_view hmake' hothers)
      fun p hp => ?_
    obtain ⟨hwell, hcomparable⟩ := hvalues _ (List.mem_map_of_mem hp)
    exact Value.equal_self hwell hcomparable

/-- A map in which a text is spelled as a number is, an array is refused, and `-0` takes the place
of `0` with another map under it. -/
theorem sets_make_an_ordered_map_of_two_zeros :
    let inner : List (Key × Held) := [(.string "x", .value (.bool true))]
    let s : SharedMaps := ⟨#[inner]⟩
    let s' : SharedMaps := ⟨#[inner, []]⟩
    let sets : List (Value × Held) := [(.number 0, .value .null), (.string "0", .value .null),
      (.array [], .value .null), (.bool false, .value (.string "a")), (.number (-0), .link 0)]
    let m := s'.setAll 1 sets
    s.make [] = .ok (1, s') ∧ (∀ p ∈ sets, p.1.Comparable) ∧
      (∀ p ∈ m.pairs 1, p.2.WellKeyed ∧ p.2.Comparable) ∧ (m.view 1).length = 3 ∧
      m.find 1 (.number 0) = .ok (some (.map [(.string "x", .bool true)])) := by
  intro inner s s' sets m
  have hplain {v : Value} (hinner : v.inner = []) (hobject : v.kind ≠ .object)
      (hnumber : v.kind ≠ .number) : v.WellKeyed ∧ v.Comparable :=
    ⟨Value.wellKeyed_of_kind hinner hobject, Value.comparable_of_kind hinner hnumber⟩
  have hmake : s.make [] = .ok (1, s') := rfl
  have hkeys : ∀ p ∈ sets, p.1.Comparable := by
    have hzero : (Value.number 0).Comparable := Value.comparable_number.mpr (by decide)
    have hminus : (Value.number (-0)).Comparable :=
      Value.comparable_number.mpr (by decide)
    have hfalse : (Value.bool false).Comparable := (hplain rfl (by decide) (by decide)).2
    have htext : (Value.string "0").Comparable := (hplain rfl (by decide) (by decide)).2
    simp [sets, Value.comparable_array, hzero, hminus, hfalse, htext]
  have hpairs : m.pairs 1 = [(.number (-0), .map [(.string "x", .bool true)]),
      (.string "0", .null), (.bool false, .string "a")] := by
    rfl
  have hvalues : ∀ p ∈ m.pairs 1, p.2.WellKeyed ∧ p.2.Comparable := by
    have hnull := hplain (v := .null) rfl (by decide) (by decide)
    have htext := hplain (v := .string "a") rfl (by decide) (by decide)
    have htrue := hplain (v := .bool true) rfl (by decide) (by decide)
    have hx : (Key.string "x").isNaN = false := rfl
    have hinner : (Value.map [(.string "x", .bool true)]).WellKeyed ∧
        (Value.map [(.string "x", .bool true)]).Comparable := by
      simp [Value.wellKeyed_map, Value.comparable_map, Assoc.Distinct, hx, htrue]
    simp [hpairs, hnull, htext, hinner]
  obtain ⟨-, -, -, -, -, hfind, hlength, -⟩ :=
    sets_make_an_ordered_map hmake sets hkeys hvalues
  have hequal : (Value.number (-0)).equal (.number 0) = true := by decide
  refine ⟨hmake, hkeys, hvalues, hlength.trans (by decide), ?_⟩
  rw [(hfind (.number 0) (by decide)).1, hpairs]
  simp [hequal]

end SharedMaps

end MeowLang
