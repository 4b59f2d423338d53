import MeowLang.Proofs.Assoc

/-! Association lists whose keys are compared by an equality that is only symmetric and transitive:
a key can have several spellings, and one that does not equal itself is never found. If keys are set
one after the other, no two of them are equal in the end, and they stand in the order in which they
were first set, each with what was set last. -/
namespace MeowLang.Assoc

variable {κ α β γ : Type} [BEq κ]

def Distinct (es : List (κ × α)) : Prop := es.Pairwise fun p q => (p.1 == q.1) = false

theorem exists_mem_of_lookup {k : κ} {v : α} {es : List (κ × α)} (h : es.lookup k = some v) :
    ∃ p ∈ es, (k == p.1) = true ∧ p.2 = v := by
  induction es with
  | nil => simp at h
  | cons e es ih =>
    rw [List.lookup_cons] at h
    split at h
    · rename_i hk
      exact ⟨e, List.mem_cons_self, hk, Option.some.inj h⟩
    · obtain ⟨p, hp, hk⟩ := ih h
      exact ⟨p, List.mem_cons_of_mem _ hp, hk⟩

theorem contains_eq_any (k : κ) (es : List (κ × α)) : contains k es = es.any (k == ·.1) := by
  induction es with
  | nil => rfl
  | cons e es ih =>
    rw [contains] at ih ⊢
    rw [List.lookup_cons, List.any_cons, ← ih]
    cases k == e.1 <;> rfl

/-- Every entry is found by its key among the others, with a value that is related to its own. -/
def Included (R : α → β → Prop) (es : List (κ × α)) (others : List (κ × β)) : Prop :=
  ∀ p ∈ es, ∃ w, others.lookup p.1 = some w ∧ R p.2 w

theorem Included.mono {R S : α → β → Prop} {es : List (κ × α)} {others : List (κ × β)}
    (h : Included R es others) (hRS : ∀ p ∈ es, ∀ q ∈ others, R p.2 q.2 → S p.2 q.2) :
    Included S es others := by
  intro p hp
  obtain ⟨w, hw, hR⟩ := h p hp
  obtain ⟨q, hq, -, rfl⟩ := exists_mem_of_lookup hw
  exact ⟨q.2, hw, hRS p hp q hq hR⟩

theorem Included.exists_equal {R : α → β → Prop} {es : List (κ × α)} {others : List (κ × β)}
    (h : Included R es others) {k : κ} (hk : k ∈ es.map Prod.fst) :
    ∃ l ∈ others.map Prod.fst, (k == l) = true := by
  obtain ⟨p, hp, rfl⟩ := List.mem_map.mp hk
  obtain ⟨w, hw, -⟩ := h p hp
  obtain ⟨q, hq, hpq, -⟩ := exists_mem_of_lookup hw
  exact ⟨q.1, List.mem_map_of_mem hq, hpq⟩

/-- A key with an equal among others keeps it if one that differs from it is taken away. -/
theorem exists_equal_of_ne {k l : κ} {before after : List κ} (hne : (k == l) = false)
    (h : ∃ x ∈ before ++ l :: after, (k == x) = true) :
    ∃ x ∈ before ++ after, (k == x) = true := by
  obtain ⟨x, hx, hkx⟩ := h
  refine ⟨x, ?_, hkx⟩
  simp only [List.mem_append, List.mem_cons] at hx ⊢
  rcases hx with hx | rfl | hx
  · exact .inl hx
  · rw [hne] at hkx
    cases hkx
  · exact .inr hx

theorem mem_of_mem_eraseDups {k : κ} {ks : List κ} (h : k ∈ ks.eraseDups) : k ∈ ks := by
  induction hn : ks.length using Nat.strongRecOn generalizing ks with
  | ind n ih =>
    cases ks with
    | nil => exact h
    | cons l ks =>
      rw [List.eraseDups_cons] at h
      rcases List.mem_cons.mp h with rfl | h
      · exact List.mem_cons_self
      · have hlen := List.length_filter_le (fun b => !b == l) ks
        rw [List.length_cons] at hn
        exact List.mem_cons_of_mem _ (List.mem_filter.mp (ih _ (by omega) h rfl)).1

variable [PartialEquivBEq κ]

theorem lookup_congr {k l : κ} (h : (k == l) = true) (es : List (κ × α)) :
    es.lookup k = es.lookup l := by
  induction es with
  | nil => rfl
  | cons e es ih => rw [List.lookup_cons, List.lookup_cons, BEq.congr_left h, ih]

theorem Distinct.lookup_of_mem {es : List (κ × α)} (h : Distinct es) {p : κ × α} (hp : p ∈ es)
    {k : κ} (hk : (k == p.1) = true) : es.lookup k = some p.2 := by
  induction es with
  | nil => cases hp
  | cons e es ih =>
    obtain ⟨he, hes⟩ := List.pairwise_cons.mp h
    rw [List.lookup_cons]
    rcases List.mem_cons.mp hp with rfl | hp
    · rw [hk]
    · have hne : (k == e.1) = false := by
        rw [BEq.congr_left hk, BEq.comm]
        exact he p hp
      rw [hne]
      exact ih hes hp

theorem Distinct.perm {es fs : List (κ × α)} (h : Distinct es) (hp : es.Perm fs) : Distinct fs :=
  hp.pairwise h fun hpq => BEq.comm.trans hpq

theorem Distinct.lookup_perm {es fs : List (κ × α)} (h : Distinct es) (hp : es.Perm fs) (k : κ) :
    es.lookup k = fs.lookup k := by
  cases hk : es.lookup k with
  | none =>
    rw [List.lookup_eq_none_iff] at hk
    exact (List.lookup_eq_none_iff.mpr fun p hp' => hk p (hp.mem_iff.mpr hp')).symm
  | some v =>
    obtain ⟨p, hpe, hkp, rfl⟩ := exists_mem_of_lookup hk
    exact ((h.perm hp).lookup_of_mem (hp.mem_iff.mp hpe) hkp).symm

/-! ### Comparing by keys -/

/-- Keys that differ among themselves and each have an equal among others are no more than these. -/
theorem length_le_of_exists_equal {ks ls : List κ} (hks : ks.Pairwise fun k l => (k == l) = false)
    (hequal : ∀ k ∈ ks, ∃ l ∈ ls, (k == l) = true) : ks.length ≤ ls.length := by
  induction ks generalizing ls with
  | nil => exact Nat.zero_le _
  | cons k ks ih =>
    obtain ⟨hk, hks⟩ := List.pairwise_cons.mp hks
    obtain ⟨l, hl, hkl⟩ := hequal k List.mem_cons_self
    obtain ⟨before, after, rfl⟩ := List.append_of_mem hl
    have hle : ks.length ≤ (before ++ after).length := by
      refine ih hks fun k' hk' => exists_equal_of_ne ?_ (hequal k' (List.mem_cons_of_mem _ hk'))
      rw [← BEq.congr_right hkl, BEq.comm]
      exact hk k' hk'
    simp only [List.length_append, List.length_cons] at hle ⊢
    omega

/-- If they are no fewer, each of the others has an equal among them in turn. -/
theorem exists_equal_of_length_le {ks ls : List κ} (hks : ks.Pairwise fun k l => (k == l) = false)
    (hequal : ∀ k ∈ ks, ∃ l ∈ ls, (k == l) = true) (hlen : ls.length ≤ ks.length) {l : κ}
    (hl : l ∈ ls) : ∃ k ∈ ks, (k == l) = true := by
  by_contra hnone
  obtain ⟨before, after, rfl⟩ := List.append_of_mem hl
  have hle : ks.length ≤ (before ++ after).length := by
    refine length_le_of_exists_equal hks fun k hk => exists_equal_of_ne ?_ (hequal k hk)
    exact Bool.eq_false_iff.mpr fun hkl => hnone ⟨k, hk, hkl⟩
  simp only [List.length_append, List.length_cons] at hlen hle
  omega

theorem Included.trans {R : α → β → Prop} {S : β → γ → Prop} {T : α → γ → Prop}
    {es : List (κ × α)} {fs : List (κ × β)} {gs : List (κ × γ)} (h : Included R es fs)
    (h' : Included S fs gs) (hT : ∀ p ∈ es, ∀ b c, R p.2 b → S b c → T p.2 c) :
    Included T es gs := by
  intro p hp
  obtain ⟨b, hb, hR⟩ := h p hp
  obtain ⟨q, hq, hk, rfl⟩ := exists_mem_of_lookup hb
  obtain ⟨c, hc, hS⟩ := h' q hq
  exact ⟨c, (lookup_congr hk gs).trans hc, hT p hp q.2 c hR hS⟩

theorem Included.length_le {R : α → β → Prop} {es : List (κ × α)} {others : List (κ × β)}
    (h : Included R es others) (hes : Distinct es) : es.length ≤ others.length := by
  simpa using length_le_of_exists_equal (List.pairwise_map.mpr hes) fun _ => h.exists_equal

/-- Among as many entries, being included goes both ways. -/
theorem Included.flip {R : α → β → Prop} {es : List (κ × α)} {others : List (κ × β)}
    (h : Included R es others) (hes : Distinct es) (hothers : Distinct others)
    (hlen : others.length ≤ es.length) : Included (fun b a => R a b) others es := by
  intro q hq
  obtain ⟨k, hk, hkq⟩ := exists_equal_of_length_le (List.pairwise_map.mpr hes)
    (fun _ => h.exists_equal) (by simpa using hlen) (List.mem_map_of_mem hq)
  obtain ⟨p, hp, rfl⟩ := List.mem_map.mp hk
  obtain ⟨w, hw, hR⟩ := h p hp
  cases (hothers.lookup_of_mem hq hkq).symm.trans hw
  exact ⟨p.2, hes.lookup_of_mem hp (BEq.symm hkq), hR⟩

/-! ### Setting keys one after the other -/

theorem Distinct.insert {es : List (κ × α)} (h : Distinct es) (k : κ) (v : α) :
    Distinct (insert k v es) := by
  induction es with
  | nil => exact List.pairwise_singleton _ _
  | cons e es ih =>
    obtain ⟨he, hes⟩ := List.pairwise_cons.mp h
    rw [Assoc.insert]
    split
    · rename_i hk
      refine List.pairwise_cons.mpr ⟨fun q hq => ?_, hes⟩
      rw [BEq.congr_left hk]
      exact he q hq
    · rename_i hk
      refine List.pairwise_cons.mpr ⟨fun q hq => ?_, ih hes⟩
      rcases mem_insert hq with rfl | hq
      · rw [BEq.comm]
        exact Bool.eq_false_iff.mpr hk
      · exact he q hq

theorem Distinct.insertAll (new : List (κ × α)) {es : List (κ × α)} (h : Distinct es) :
    Distinct (insertAll new es) := by
  induction new generalizing es with
  | nil => exact h
  | cons e new ih => exact ih (h.insert e.1 e.2)

/-- An entry stays in its place, with what is set last under its key. -/
theorem insertAll_cons_eq (new : List (κ × α)) (e : κ × α) (es : List (κ × α)) :
    insertAll new (e :: es) = ((new.reverse.find? (·.1 == e.1)).getD e) ::
      insertAll (new.filter fun p => !p.1 == e.1) es := by
  induction new generalizing e es with
  | nil => rfl
  | cons p new ih =>
    have hstep : insertAll (p :: new) (e :: es) = insertAll new (insert p.1 p.2 (e :: es)) := rfl
    rw [hstep, insert]
    cases hk : p.1 == e.1 with
    | true =>
      have hkey : ∀ k : κ, (k == p.1) = (k == e.1) := fun k => BEq.congr_right hk
      rw [if_pos rfl, ih]
      simp only [hkey, List.filter_cons, hk, List.reverse_cons, List.find?_append, Bool.not_true]
      cases new.reverse.find? fun x => x.1 == e.1 <;> simp [hk]
    | false =>
      rw [if_neg Bool.false_ne_true, ih]
      simp only [List.filter_cons, hk, List.reverse_cons, List.find?_append, Bool.not_false, if_true]
      simp [hk, insertAll]

/-- What is set last under a key, if what is set under another one is left out. -/
theorem find?_reverse_filter {k : κ} {e : κ × α} (hk : (k == e.1) = false)
    (new : List (κ × α)) :
    (new.filter fun p => !p.1 == e.1).reverse.find? (·.1 == k) =
      (e :: new).reverse.find? (·.1 == k) := by
  have hlast : [e].find? (·.1 == k) = none := by
    simp only [List.find?_cons, BEq.comm.trans hk, List.find?_nil]
  rw [← List.filter_reverse, List.find?_filter, List.reverse_cons, List.find?_append, hlast,
    Option.or_none]
  congr 1
  funext p
  cases hp : p.1 == k with
  | false => simp
  | true =>
    have hpe : (p.1 == e.1) = false := (BEq.congr_left hp).trans hk
    simp [hpe]

/-- Setting keys one after the other keeps one entry for each of them, in the order in which they
were first set, with the key and the value that were set last. -/
theorem insertAll_nil_map_some {new : List (κ × α)} (hself : ∀ p ∈ new, (p.1 == p.1) = true) :
    (insertAll new []).map some =
      (new.map Prod.fst).eraseDups.map fun k => new.reverse.find? fun p => p.1 == k := by
  induction hn : new.length using Nat.strongRecOn generalizing new with
  | ind n ih =>
    cases new with
    | nil => rfl
    | cons e new =>
      have hstep : insertAll (e :: new) [] = insertAll new [e] := rfl
      have hlen := List.length_filter_le (fun p : κ × α => !p.1 == e.1) new
      rw [List.length_cons] at hn
      rw [hstep, insertAll_cons_eq, List.map_cons, ih _ (by omega) ?_ rfl, List.map_cons,
        List.eraseDups_cons, List.map_cons, List.filter_map]
      · congr 1
        · rw [List.reverse_cons, List.find?_append]
          cases new.reverse.find? (fun p => p.1 == e.1) <;> simp [hself e]
        · apply List.map_congr_left
          intro k hk
          obtain ⟨q, hq, rfl⟩ := List.mem_map.mp (mem_of_mem_eraseDups hk)
          exact find?_reverse_filter (by simpa using (List.mem_filter.mp hq).2) new
      · intro p hp
        exact hself p (List.mem_cons_of_mem _ (List.mem_filter.mp hp).1)

end MeowLang.Assoc
