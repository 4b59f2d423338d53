import MeowLang.Proofs.Keyed
import MeowLang.Proofs.Value.Parts

/-! Equality of values is an equivalence wherever no NaN is around, and a map equals another one
whatever the order of their entries. The equality of numbers comes first, then that of keys, and
then values of any depth, by induction on what stands inside them. -/
namespace MeowLang

/-! ### Numbers -/

namespace Number

open Float.Model (UnpackedFloat)

/-- The point of the line that a number stands for. Both zeros are one point, and NaN is none. -/
def pointOf : UnpackedFloat → Option UnpackedFloat
  | .notANumber => none
  | .zero _ => some (.zero .positive)
  | u => some u

theorem compare_finite (s t : UnpackedFloat.Sign) {m n : Nat} {e f : Int} (hm : 0 < m)
    (hn : 0 < n) : (UnpackedFloat.finite s m e hm).compare (.finite t n f hn) = some .eq ↔
      s = t ∧ m = n ∧ e = f := by
  cases s <;> cases t
  case positive.positive =>
    show some ((compare e f).then (compare m n)) = some .eq ↔ _
    simp [Ordering.then_eq_eq, and_comm]
  case negative.negative =>
    show some ((compare e f).then (compare m n)).swap = some .eq ↔ _
    simp [Ordering.then_eq_eq, and_comm]
  all_goals exact iff_of_false nofun fun h => nomatch h.1

theorem not_pointOf_both {a b : UnpackedFloat} (h : pointOf a ≠ pointOf b) :
    ¬ ∃ u, pointOf a = some u ∧ pointOf b = some u :=
  fun ⟨_, ha, hb⟩ => h (ha.trans hb.symm)

theorem compare_eq_eq_iff (a b : UnpackedFloat) :
    a.compare b = some .eq ↔ ∃ u, pointOf a = some u ∧ pointOf b = some u := by
  cases a with
  | notANumber => exact iff_of_false nofun fun ⟨_, ha, _⟩ => nomatch ha
  | infinity s =>
    cases b with
    | infinity t =>
      cases s <;> cases t
      case positive.positive | negative.negative => exact iff_of_true rfl ⟨_, rfl, rfl⟩
      all_goals exact iff_of_false nofun (not_pointOf_both nofun)
    | notANumber | zero | finite =>
      cases s <;> exact iff_of_false nofun (not_pointOf_both nofun)
  | zero s =>
    cases b with
    | zero t => exact iff_of_true rfl ⟨_, rfl, rfl⟩
    | infinity t | finite t => cases t <;> exact iff_of_false nofun (not_pointOf_both nofun)
    | notANumber => exact iff_of_false nofun (not_pointOf_both nofun)
  | finite s m e hm =>
    cases b with
    | finite t n f hn =>
      rw [compare_finite]
      constructor
      · rintro ⟨rfl, rfl, rfl⟩
        exact ⟨_, rfl, rfl⟩
      · rintro ⟨u, ha, hb⟩
        cases ha
        cases hb
        exact ⟨rfl, rfl, rfl⟩
    | infinity t => cases s <;> cases t <;> exact iff_of_false nofun (not_pointOf_both nofun)
    | notANumber | zero => cases s <;> exact iff_of_false nofun (not_pointOf_both nofun)

theorem beq_iff (x y : Float) : (x == y) = true ↔
    ∃ u, pointOf x.toModel.unpack = some u ∧ pointOf y.toModel.unpack = some u := by
  have h : (x == y) = (x.toModel.unpack.compare y.toModel.unpack == some .eq) := rfl
  rw [h, beq_iff_eq, compare_eq_eq_iff]

theorem isNaN_iff (x : Float) : x.isNaN = true ↔ pointOf x.toModel.unpack = none := by
  have h : x.isNaN = x.toModel.unpack.isNaN := rfl
  rw [h]
  cases x.toModel.unpack with
  | notANumber => exact iff_of_true rfl rfl
  | infinity | zero | finite => exact iff_of_false nofun nofun

theorem beq_self_iff (x : Float) : (x == x) = true ↔ x.isNaN = false := by
  rw [beq_iff, ← Bool.not_eq_true, isNaN_iff]
  cases pointOf x.toModel.unpack <;> simp

/-- Two numbers are equal if they stand for one point. -/
instance instPartialEquivBEq : PartialEquivBEq Float where
  symm {x y} h := by
    rw [beq_iff] at h ⊢
    obtain ⟨u, hx, hy⟩ := h
    exact ⟨u, hy, hx⟩
  trans {x y z} h h' := by
    rw [beq_iff] at h h' ⊢
    obtain ⟨u, hx, hy⟩ := h
    obtain ⟨w, hy', hz⟩ := h'
    cases hy.symm.trans hy'
    exact ⟨u, hx, hz⟩

end Number

/-! ### Keys -/

namespace Key

def isNaN : Key → Bool
  | number x => x.isNaN
  | _ => false

theorem beq_self_iff (k : Key) : (k == k) = true ↔ k.isNaN = false := by
  cases k with
  | bool b => exact iff_of_true (beq_self_eq_true b) rfl
  | number x => exact Number.beq_self_iff x
  | string s => exact iff_of_true (beq_self_eq_true s) rfl

theorem equal_ofKey (k l : Key) : (Value.ofKey k).equal (Value.ofKey l) = (k == l) := by
  cases k <;> cases l <;> rfl

/-- Equal keys are the same, or they are two spellings of one number. -/
theorem cases_of_beq {k l : Key} (h : (k == l) = true) :
    k = l ∨ ∃ x y, k = .number x ∧ l = .number y ∧ (x == y) = true := by
  cases k with
  | bool a =>
    cases l with
    | bool b =>
      have hab : (a == b) = true := h
      exact .inl (congrArg Key.bool (eq_of_beq hab))
    | number y => cases h
    | string t => cases h
  | number x =>
    cases l with
    | bool b => cases h
    | number y => exact .inr ⟨x, y, rfl, rfl, h⟩
    | string t => cases h
  | string s =>
    cases l with
    | bool b => cases h
    | number y => cases h
    | string t =>
      have hst : (s == t) = true := h
      exact .inl (congrArg Key.string (eq_of_beq hst))

instance : PartialEquivBEq Key where
  symm {k l} h := by
    rcases cases_of_beq h with rfl | ⟨x, y, rfl, rfl, hxy⟩
    · exact h
    · exact BEq.symm (α := Float) hxy
  trans {k l j} h h' := by
    rcases cases_of_beq h with rfl | ⟨x, y, rfl, rfl, hxy⟩
    · exact h'
    · rcases cases_of_beq h' with rfl | ⟨_, z, ⟨⟩, rfl, hyz⟩
      · exact h
      · exact BEq.trans (α := Float) hxy hyz

end Key

/-! ### Values -/

namespace Value

def inner : Value → List Value
  | array items => items
  | map entries => entries.map Prod.snd
  | returned v _ => [v]
  | _ => []

theorem mem_inner_map {entries : List (Key × Value)} {p : Key × Value} (h : p ∈ entries) :
    p.2 ∈ (map entries).inner := List.mem_map_of_mem h

theorem sizeOf_lt_of_mem_inner {u v : Value} (h : u ∈ v.inner) : sizeOf u < sizeOf v := by
  cases v with
  | array items =>
    have hmem : u ∈ items := h
    have hlt := List.sizeOf_lt_of_mem hmem
    simp only [array.sizeOf_spec]
    omega
  | map entries =>
    obtain ⟨p, hp, rfl⟩ := List.mem_map.mp h
    have hlt := List.sizeOf_lt_of_mem hp
    have hp : sizeOf p = 1 + sizeOf p.1 + sizeOf p.2 := by
      cases p
      rfl
    simp only [map.sizeOf_spec]
    omega
  | returned v i =>
    cases List.mem_singleton.mp h
    simp only [returned.sizeOf_spec]
    omega
  | _ => cases h

/-- What holds of a value if it holds of the values directly inside it holds of all values. -/
theorem inner_induction {P : Value → Prop} (h : ∀ v, (∀ u ∈ v.inner, P u) → P v) (v : Value) :
    P v := by
  induction hn : sizeOf v using Nat.strongRecOn generalizing v with
  | ind n ih => exact h v fun u hu => ih _ (hn ▸ sizeOf_lt_of_mem_inner hu) u rfl

theorem within_iff {u v : Value} : u.Within v ↔ u = v ∨ ∃ w ∈ v.inner, u.Within w := by
  constructor
  · intro h
    cases h with
    | refl => exact .inl rfl
    | item mem inner => exact .inr ⟨_, mem, inner⟩
    | entry mem inner => exact .inr ⟨_, mem_inner_map mem, inner⟩
    | returned inner => exact .inr ⟨_, List.mem_singleton_self _, inner⟩
  · rintro (rfl | ⟨w, hw, h⟩)
    · exact .refl _
    · cases v with
      | array items => exact .item hw h
      | map entries =>
        obtain ⟨p, hp, rfl⟩ := List.mem_map.mp hw
        exact .entry (k := p.1) hp h
      | returned v i =>
        cases List.mem_singleton.mp hw
        exact .returned h
      | _ => cases hw

/-- Every map in a value has each of its keys once, and no NaN among them. -/
def WellKeyed (v : Value) : Prop := ∀ entries, (map entries).Within v →
  Assoc.Distinct entries ∧ ∀ p ∈ entries, p.1.isNaN = false

def Comparable (v : Value) : Prop := ∀ x, (number x).Within v → x.isNaN = false

theorem wellKeyed_iff {v : Value} : v.WellKeyed ↔
    (∀ entries, map entries = v → Assoc.Distinct entries ∧ ∀ p ∈ entries, p.1.isNaN = false) ∧
      ∀ u ∈ v.inner, u.WellKeyed := by
  constructor
  · intro h
    refine ⟨fun entries he => h entries ?_, fun u hu entries he => h entries ?_⟩
    · rw [within_iff]
      exact .inl he
    · rw [within_iff]
      exact .inr ⟨u, hu, he⟩
  · rintro ⟨hself, hinner⟩ entries he
    rw [within_iff] at he
    rcases he with he | ⟨u, hu, he⟩
    · exact hself entries he
    · exact hinner u hu entries he

theorem comparable_iff {v : Value} : v.Comparable ↔
    (∀ x, number x = v → x.isNaN = false) ∧ ∀ u ∈ v.inner, u.Comparable := by
  constructor
  · intro h
    refine ⟨fun x hx => h x ?_, fun u hu x hx => h x ?_⟩
    · rw [within_iff]
      exact .inl hx
    · rw [within_iff]
      exact .inr ⟨u, hu, hx⟩
  · rintro ⟨hself, hinner⟩ x hx
    rw [within_iff] at hx
    rcases hx with hx | ⟨u, hu, hx⟩
    · exact hself x hx
    · exact hinner u hu x hx

theorem WellKeyed.inner {u v : Value} (h : v.WellKeyed) (hu : u ∈ v.inner) : u.WellKeyed := by
  rw [wellKeyed_iff] at h
  exact h.2 u hu

theorem Comparable.inner {u v : Value} (h : v.Comparable) (hu : u ∈ v.inner) : u.Comparable := by
  rw [comparable_iff] at h
  exact h.2 u hu

theorem wellKeyed_of_kind {v : Value} (hinner : v.inner = []) (hkind : v.kind ≠ .object) :
    v.WellKeyed := by
  rw [wellKeyed_iff]
  refine ⟨fun entries he => ?_, fun u hu => ?_⟩
  · subst he
    exact absurd rfl hkind
  · rw [hinner] at hu
    cases hu

theorem comparable_of_kind {v : Value} (hinner : v.inner = []) (hkind : v.kind ≠ .number) :
    v.Comparable := by
  rw [comparable_iff]
  refine ⟨fun x hx => ?_, fun u hu => ?_⟩
  · subst hx
    exact absurd rfl hkind
  · rw [hinner] at hu
    cases hu

theorem comparable_number {x : Float} : (number x).Comparable ↔ x.isNaN = false := by
  rw [comparable_iff]
  simp [Value.inner]

theorem wellKeyed_array {items : List Value} :
    (array items).WellKeyed ↔ ∀ v ∈ items, v.WellKeyed := by
  rw [wellKeyed_iff]
  simp [Value.inner]

theorem comparable_array {items : List Value} :
    (array items).Comparable ↔ ∀ v ∈ items, v.Comparable := by
  rw [comparable_iff]
  simp [Value.inner]

theorem wellKeyed_map {entries : List (Key × Value)} : (map entries).WellKeyed ↔
    (Assoc.Distinct entries ∧ ∀ p ∈ entries, p.1.isNaN = false) ∧
      ∀ p ∈ entries, p.2.WellKeyed := by
  rw [wellKeyed_iff]
  refine and_congr ⟨fun h => h entries rfl, fun h es he => ?_⟩ List.forall_mem_map
  cases he
  exact h

theorem comparable_map {entries : List (Key × Value)} :
    (map entries).Comparable ↔ ∀ p ∈ entries, p.2.Comparable := by
  rw [comparable_iff]
  exact (and_iff_right fun x hx => by cases hx).trans List.forall_mem_map

theorem WellKeyed.distinct {entries : List (Key × Value)} (h : (map entries).WellKeyed) :
    Assoc.Distinct entries := (h entries (.refl _)).1

/-! ### What equality asks for -/

theorem includedIn_iff {entries others : List (Key × Value)} : includedIn others entries = true ↔
    Assoc.Included (fun v w => v.equal w = true) entries others := by
  induction entries with
  | nil => simp [includedIn, Assoc.Included]
  | cons e entries ih =>
    obtain ⟨k, v⟩ := e
    rw [includedIn, Bool.and_eq_true, ih]
    simp only [Assoc.Included, List.forall_mem_cons]
    refine and_congr_left fun _ => ?_
    cases others.lookup k <;> simp

/-- Two values are of one kind and have equal contents, case by case. -/
inductive Alike : Value → Value → Prop
  | null : Alike null null
  | bool (b : Bool) : Alike (bool b) (bool b)
  | number {x y : Float} (same : (x == y) = true) : Alike (number x) (number y)
  | string (s : String) : Alike (string s) (string s)
  | array {xs ys : List Value} (items : equalAll xs ys = true) : Alike (array xs) (array ys)
  | map {m n : List (Key × Value)} (length : m.length = n.length)
      (included : Assoc.Included (fun v w => v.equal w = true) m n) : Alike (map m) (map n)
  | function {f g : Closure} (same : f.identity = g.identity) : Alike (function f) (function g)
  | native {f g : Native} (i : Nat) : Alike (native f i) (native g i)
  | failure {line line' : Option Int} {file file' : Option String} (message : String) :
      Alike (failure message line file) (failure message line' file')
  | returned {v w : Value} (i : Nat) : Alike (returned v i) (returned w i)
  | control (c : Control) : Alike (control c) (control c)
  | unbound : Alike unbound unbound
  | count (n : Int) : Alike (count n) (count n)

theorem equal_iff {a b : Value} : a.equal b = true ↔ Alike a b := by
  constructor
  · intro h
    rw [equal.eq_def] at h
    split at h
    · exact .null
    · cases eq_of_beq h
      exact .bool _
    · exact .number h
    · cases eq_of_beq h
      exact .string _
    · exact .array h
    · rw [Bool.and_eq_true, beq_iff_eq, includedIn_iff] at h
      exact .map h.1 h.2
    · exact .function (eq_of_beq h)
    · cases eq_of_beq h
      exact .native _
    · cases eq_of_beq h
      exact .failure _
    · cases eq_of_beq h
      exact .returned _
    · cases eq_of_beq h
      exact .control _
    · exact .unbound
    · cases eq_of_beq h
      exact .count _
    · cases h
  · intro h
    cases h with
    | number same => exact same
    | array items => exact items
    | map length included =>
      rw [equal, Bool.and_eq_true, beq_iff_eq, includedIn_iff]
      exact ⟨length, included⟩
    | function same => simp [equal, same]
    | _ => simp [equal]

/-! ### The laws -/

theorem equalAll_cons {x y : Value} {xs ys : List Value} : equalAll (x :: xs) (y :: ys) = true ↔
    x.equal y = true ∧ equalAll xs ys = true := by
  rw [← Bool.and_eq_true]
  rfl

theorem equalAll_symm {xs ys : List Value}
    (h : ∀ x ∈ xs, ∀ y ∈ ys, x.equal y = true → y.equal x = true) (hxy : equalAll xs ys = true) :
    equalAll ys xs = true := by
  induction xs generalizing ys with
  | nil =>
    cases ys with
    | nil => rfl
    | cons y ys => cases hxy
  | cons x xs ih =>
    cases ys with
    | nil => cases hxy
    | cons y ys =>
      rw [equalAll_cons] at hxy ⊢
      exact ⟨h x List.mem_cons_self y List.mem_cons_self hxy.1, ih (fun x hx y hy =>
        h x (List.mem_cons_of_mem _ hx) y (List.mem_cons_of_mem _ hy)) hxy.2⟩

theorem equalAll_trans {xs ys zs : List Value}
    (h : ∀ x ∈ xs, ∀ y z, x.equal y = true → y.equal z = true → x.equal z = true)
    (hxy : equalAll xs ys = true) (hyz : equalAll ys zs = true) : equalAll xs zs = true := by
  induction xs generalizing ys zs with
  | nil =>
    cases ys with
    | nil => exact hyz
    | cons y ys => cases hxy
  | cons x xs ih =>
    cases ys with
    | nil => cases hxy
    | cons y ys =>
      cases zs with
      | nil => cases hyz
      | cons z zs =>
        rw [equalAll_cons] at hxy hyz ⊢
        exact ⟨h x List.mem_cons_self y z hxy.1 hyz.1,
          ih (fun x hx => h x (List.mem_cons_of_mem _ hx)) hxy.2 hyz.2⟩

theorem equalAll_self {xs : List Value} (h : ∀ x ∈ xs, x.equal x = true) :
    equalAll xs xs = true := by
  induction xs with
  | nil => rfl
  | cons x xs ih =>
    rw [equalAll_cons]
    exact ⟨h x List.mem_cons_self, ih fun x hx => h x (List.mem_cons_of_mem _ hx)⟩

theorem equal_symm {a b : Value} (ha : a.WellKeyed) (hb : b.WellKeyed) (h : a.equal b = true) :
    b.equal a = true := by
  induction a using inner_induction generalizing b with
  | h a ih =>
    rw [equal_iff] at h ⊢
    cases h with
    | null => exact .null
    | bool b => exact .bool b
    | number same => exact .number (BEq.symm same)
    | string s => exact .string s
    | array items =>
      exact .array (equalAll_symm (fun x hx y hy => ih x hx (ha.inner hx) (hb.inner hy)) items)
    | map length included =>
      have hflip := included.flip ha.distinct hb.distinct (Nat.le_of_eq length.symm)
      refine .map length.symm (hflip.mono fun q hq p hp hpq => ?_)
      exact ih p.2 (mem_inner_map hp) (ha.inner (mem_inner_map hp)) (hb.inner (mem_inner_map hq))
        hpq
    | function same => exact .function same.symm
    | native i => exact .native i
    | failure message => exact .failure message
    | returned i => exact .returned i
    | control c => exact .control c
    | unbound => exact .unbound
    | count n => exact .count n

theorem equal_comm {a b : Value} (ha : a.WellKeyed) (hb : b.WellKeyed) : a.equal b = b.equal a :=
  Bool.eq_iff_iff.mpr ⟨equal_symm ha hb, equal_symm hb ha⟩

theorem equal_trans {a b c : Value} (hab : a.equal b = true) (hbc : b.equal c = true) :
    a.equal c = true := by
  induction a using inner_induction generalizing b c with
  | h a ih =>
    rw [equal_iff] at hab
    cases hab with
    | null => exact hbc
    | bool b => exact hbc
    | number same =>
      rw [equal_iff] at hbc ⊢
      cases hbc with
      | number same' => exact .number (BEq.trans same same')
    | string s => exact hbc
    | array items =>
      rw [equal_iff] at hbc ⊢
      cases hbc with
      | array items' =>
        exact .array (equalAll_trans (fun x hx y z hxy hyz => ih x hx hxy hyz) items items')
    | map length included =>
      rw [equal_iff] at hbc ⊢
      cases hbc with
      | map length' included' =>
        refine .map (length.trans length') (included.trans included' fun p hp b c hpb hbc => ?_)
        exact ih p.2 (mem_inner_map hp) hpb hbc
    | function same =>
      rw [equal_iff] at hbc ⊢
      cases hbc with
      | function same' => exact .function (same.trans same')
    | native i =>
      rw [equal_iff] at hbc ⊢
      cases hbc
      exact .native i
    | failure message =>
      rw [equal_iff] at hbc ⊢
      cases hbc
      exact .failure message
    | returned i =>
      rw [equal_iff] at hbc ⊢
      cases hbc
      exact .returned i
    | control c => exact hbc
    | unbound => exact hbc
    | count n => exact hbc

theorem equal_self {a : Value} (hk : a.WellKeyed) (hn : a.Comparable) : a.equal a = true := by
  induction a using inner_induction with
  | h a ih =>
    rw [equal_iff]
    cases a with
    | null => exact .null
    | bool b => exact .bool b
    | number x => exact .number ((Number.beq_self_iff x).mpr (hn x (.refl _)))
    | string s => exact .string s
    | array items => exact .array (equalAll_self fun x hx => ih x hx (hk.inner hx) (hn.inner hx))
    | map entries =>
      obtain ⟨hdistinct, hkeys⟩ := hk entries (.refl _)
      refine .map rfl fun p hp => ?_
      have hinner := mem_inner_map hp
      exact ⟨p.2, hdistinct.lookup_of_mem hp ((Key.beq_self_iff p.1).mpr (hkeys p hp)),
        ih p.2 hinner (hk.inner hinner) (hn.inner hinner)⟩
    | function f => exact .function rfl
    | native f i => exact .native i
    | failure message line file => exact .failure message
    | returned v i => exact .returned i
    | control c => exact .control c
    | unbound => exact .unbound
    | count n => exact .count n

/-! ### Maps in any order -/

theorem equal_map_perm {m n : List (Key × Value)} (h : m.Perm n) (v : Value) :
    (map m).equal v = (map n).equal v := by
  have himp {m n : List (Key × Value)} (h : m.Perm n) (hm : (map m).equal v = true) :
      (map n).equal v = true := by
    rw [equal_iff] at hm ⊢
    cases hm with
    | map length included =>
      exact .map (h.length_eq.symm.trans length) fun p hp => included p (h.mem_iff.mpr hp)
  exact Bool.eq_iff_iff.mpr ⟨himp h, himp h.symm⟩

theorem map_perm_equal {m n : List (Key × Value)} (h : m.Perm n) (hm : Assoc.Distinct m)
    (v : Value) : v.equal (map m) = v.equal (map n) := by
  have himp {m n : List (Key × Value)} (h : m.Perm n) (hm : Assoc.Distinct m)
      (hv : v.equal (map m) = true) : v.equal (map n) = true := by
    rw [equal_iff] at hv ⊢
    cases hv with
    | map length included =>
      refine .map (length.trans h.length_eq) fun p hp => ?_
      rw [← hm.lookup_perm h]
      exact included p hp
  exact Bool.eq_iff_iff.mpr ⟨himp h hm, himp h.symm (hm.perm h)⟩

/-! ### Membership -/

/-- The operator asks whether the value equals an item, and the native function whether an item
equals the value. -/
theorem any_equal_comm {items : List Value} {v : Value} (hitems : (array items).WellKeyed)
    (hv : v.WellKeyed) : items.any (v.equal ·) = items.any (·.equal v) := by
  rw [Bool.eq_iff_iff, List.any_eq_true, List.any_eq_true]
  refine exists_congr fun u => and_congr_right fun hu => ?_
  rw [equal_comm hv (hitems.inner hu)]

/-- Equality of values is an equivalence on the values that hold no NaN; functions are equal to
themselves only, and the order in which the entries of a map stand does not matter. So the two ways
to ask whether an array has an item agree. -/
theorem equality_is_an_equivalence :
    (∀ a b : Value, a.WellKeyed → b.WellKeyed → a.equal b = b.equal a) ∧
    (∀ a b c : Value, a.equal b = true → b.equal c = true → a.equal c = true) ∧
    (∀ a : Value, a.WellKeyed → a.Comparable → a.equal a = true) ∧
    (∀ (f : Closure) (v : Value), (function f).equal v = true ↔
      ∃ g, v = function g ∧ g.identity = f.identity) ∧
    (∀ (f : Native) (i : Nat) (v : Value), (native f i).equal v = true ↔ ∃ g, v = native g i) ∧
    (∀ (m n : List (Key × Value)) (v : Value), m.Perm n → (map m).WellKeyed →
      (map m).equal v = (map n).equal v ∧ v.equal (map m) = v.equal (map n)) ∧
    ∀ (items : List Value) (v : Value) (w : World), (array items).WellKeyed → v.WellKeyed →
      ∃ b, v.binary .member (array items) = .ok (bool b) ∧
        Native.includes.call [array items, v] w = (.value (bool b), w) := by
  refine ⟨fun a b => equal_comm, fun a b c => equal_trans, fun a => equal_self, fun f v => ?_,
    fun f i v => ?_, fun m n v h hm => ⟨equal_map_perm h v, map_perm_equal h hm.distinct v⟩,
    fun items v w hitems hv => ⟨items.any (·.equal v), ?_, rfl⟩⟩
  · rw [equal_iff]
    constructor
    · intro h
      cases h with
      | function same => exact ⟨_, rfl, same.symm⟩
    · rintro ⟨g, rfl, same⟩
      exact .function same.symm
  · rw [equal_iff]
    constructor
    · intro h
      cases h with
      | native i => exact ⟨_, rfl⟩
    · rintro ⟨g, rfl⟩
      exact .native i
  · rw [← any_equal_comm hitems hv]
    rfl

/-- Two maps in two orders, one of which spells its key `-0`, with a function inside. -/
theorem equality_is_an_equivalence_of_two_spellings :
    let item : Value := array [number 1, function ⟨7, [], [], 0⟩]
    let a : Value := map [(.string "x", item), (.number 0, bool true)]
    let b : Value := map [(.number (-0), bool true), (.string "x", item)]
    a.WellKeyed ∧ b.WellKeyed ∧ a.Comparable ∧ a.equal a = true ∧ a.equal b = true ∧
      b.equal a = true ∧ ∃ found, a.binary .member (array [null, b]) = .ok (bool found) ∧
        Native.includes.call [array [null, b], a] (.start ⟨[], []⟩ []) =
          (.value (bool found), .start ⟨[], []⟩ []) := by
  intro item a b
  have hf : (function ⟨7, [], [], 0⟩).WellKeyed := wellKeyed_of_kind rfl (by decide)
  have htrue : (bool true).WellKeyed := wellKeyed_of_kind rfl (by decide)
  have hitem : item.WellKeyed := by
    have hone : (number 1).WellKeyed := wellKeyed_of_kind rfl (by decide)
    simp [item, wellKeyed_array, hone, hf]
  have ha : a.WellKeyed := by
    have hkeys : Assoc.Distinct [(Key.string "x", item), (.number 0, bool true)] := by
      simp only [Assoc.Distinct, List.pairwise_pair]
      decide
    have hzero : (Key.number 0).isNaN = false := by decide
    have hx : (Key.string "x").isNaN = false := rfl
    simp [a, wellKeyed_map, hkeys, hzero, hx, hitem, htrue]
  have hb : b.WellKeyed := by
    have hkeys : Assoc.Distinct [(Key.number (-0), bool true), (.string "x", item)] := by
      simp only [Assoc.Distinct, List.pairwise_pair]
      decide
    have hzero : (Key.number (-0)).isNaN = false := by decide
    have hx : (Key.string "x").isNaN = false := rfl
    simp [b, wellKeyed_map, hkeys, hzero, hx, hitem, htrue]
  have hcomparable : a.Comparable := by
    have hone : (number 1).Comparable := comparable_number.mpr (by decide)
    have hf : (function ⟨7, [], [], 0⟩).Comparable := comparable_of_kind rfl (by decide)
    have htrue : (bool true).Comparable := comparable_of_kind rfl (by decide)
    simp [a, item, comparable_map, comparable_array, hone, hf, htrue]
  have hab : a.equal b = true := by decide
  obtain ⟨hsymm, -, hself, -, -, -, hmember⟩ := equality_is_an_equivalence
  have hitems : (array [null, b]).WellKeyed := by
    have hnull : null.WellKeyed := wellKeyed_of_kind rfl (by decide)
    simp [wellKeyed_array, hnull, hb]
  exact ⟨ha, hb, hcomparable, hself a ha hcomparable, hab, (hsymm a b ha hb).symm.trans hab,
    hmember [null, b] a _ hitems ha⟩

end Value

end MeowLang
