import MeowLang.Assoc
import Mathlib.Data.List.Basic

/-! Setting keys of association lists. A set replaces an entry in its place or adds one at
the end, so the keys that are there stay in their order and no key comes twice. -/
namespace MeowLang.Assoc

variable {κ α : Type} [BEq κ]

theorem mem_insert {k : κ} {v : α} {es : List (κ × α)} {p : κ × α} (h : p ∈ insert k v es) :
    p = (k, v) ∨ p ∈ es := by
  induction es with
  | nil => exact .inl (List.mem_singleton.mp h)
  | cons e es ih =>
    simp only [insert] at h
    split at h
    · rcases List.mem_cons.mp h with rfl | h
      · exact .inl rfl
      · exact .inr (List.mem_cons_of_mem _ h)
    · rcases List.mem_cons.mp h with rfl | h
      · exact .inr List.mem_cons_self
      · exact (ih h).imp_right (List.mem_cons_of_mem _)

theorem mem_insertAll {new es : List (κ × α)} {p : κ × α} (h : p ∈ insertAll new es) :
    p ∈ new ∨ p ∈ es := by
  induction new generalizing es with
  | nil => exact .inr h
  | cons e new ih =>
    rcases ih h with hn | hi
    · exact .inl (List.mem_cons_of_mem _ hn)
    · rcases mem_insert hi with rfl | he
      · exact .inl List.mem_cons_self
      · exact .inr he

theorem mem_of_lookup {k : κ} {v : α} {es : List (κ × α)} (h : es.lookup k = some v) :
    ∃ k', (k', v) ∈ es := by
  induction es with
  | nil => simp at h
  | cons e es ih =>
    rw [List.lookup_cons] at h
    split at h
    · cases h
      exact ⟨e.1, List.mem_cons_self⟩
    · obtain ⟨k', hk⟩ := ih h
      exact ⟨k', List.mem_cons_of_mem _ hk⟩

variable [LawfulBEq κ]

theorem contains_iff {k : κ} {es : List (κ × α)} : contains k es = true ↔ k ∈ es.map Prod.fst := by
  induction es with
  | nil => simp [contains]
  | cons e es ih =>
    rw [contains] at ih ⊢
    rw [List.lookup_cons, List.map_cons, List.mem_cons, ← ih]
    by_cases hk : k = e.1
    · simp [hk]
    · simp [beq_eq_false_iff_ne.mpr hk, hk]

theorem lookup_of_mem {k : κ} {v : α} {es : List (κ × α)} (hkeys : (es.map Prod.fst).Nodup)
    (h : (k, v) ∈ es) : es.lookup k = some v := by
  induction es with
  | nil => cases h
  | cons e es ih =>
    rw [List.map_cons, List.nodup_cons] at hkeys
    rcases List.mem_cons.mp h with rfl | h
    · simp
    · have hne : k ≠ e.1 := by
        rintro rfl
        exact hkeys.1 (List.mem_map.mpr ⟨_, h, rfl⟩)
      rw [List.lookup_cons, beq_eq_false_iff_ne.mpr hne]
      exact ih hkeys.2 h

theorem lookup_insert_self (k : κ) (v : α) (es : List (κ × α)) :
    (insert k v es).lookup k = some v := by
  induction es with
  | nil => simp [insert]
  | cons e es ih =>
    simp only [insert]
    split
    · simp
    · rename_i hk
      rw [List.lookup_cons, (Bool.not_eq_true _).mp hk]
      exact ih

theorem lookup_insert_of_ne {k x : κ} (h : x ≠ k) (v : α) (es : List (κ × α)) :
    (insert k v es).lookup x = es.lookup x := by
  induction es with
  | nil => simp [insert, h]
  | cons e es ih =>
    simp only [insert]
    split
    · rename_i hk
      have he : k = e.1 := by simpa using hk
      rw [List.lookup_cons, List.lookup_cons, ← he, beq_eq_false_iff_ne.mpr h]
    · rw [List.lookup_cons, List.lookup_cons, ih]

theorem contains_insert {k x : κ} {v : α} {es : List (κ × α)} :
    contains x (insert k v es) = true ↔ x = k ∨ contains x es = true := by
  by_cases h : x = k
  · subst h
    simp [contains, lookup_insert_self]
  · simp [contains, lookup_insert_of_ne h, h]

theorem mem_keys_insert {k x : κ} {v : α} {es : List (κ × α)} :
    x ∈ (insert k v es).map Prod.fst ↔ x = k ∨ x ∈ es.map Prod.fst := by
  rw [← contains_iff, contains_insert, contains_iff]

theorem mem_keys_insertAll {x : κ} {new es : List (κ × α)} :
    x ∈ (insertAll new es).map Prod.fst ↔ x ∈ new.map Prod.fst ∨ x ∈ es.map Prod.fst := by
  induction new generalizing es with
  | nil => simp [insertAll]
  | cons e new ih =>
    have hi : insertAll (e :: new) es = insertAll new (insert e.1 e.2 es) := rfl
    rw [hi, ih, mem_keys_insert, List.map_cons, List.mem_cons, or_left_comm, or_assoc]

theorem exists_lookup {k : κ} {es : List (κ × α)} (h : k ∈ es.map Prod.fst) :
    ∃ v, es.lookup k = some v :=
  Option.isSome_iff_exists.mp (contains_iff.mpr h)

theorem lookup_eq_none_iff {k : κ} {es : List (κ × α)} :
    es.lookup k = none ↔ k ∉ es.map Prod.fst := by
  rw [← contains_iff, contains, Bool.not_eq_true, Option.isSome_eq_false_iff,
    Option.isNone_iff_eq_none]

/-- Of two lists with a key, the one that is laid over the other has its value. -/
theorem lookup_insertAll {new : List (κ × α)} (hkeys : (new.map Prod.fst).Nodup) (k : κ)
    (es : List (κ × α)) : (insertAll new es).lookup k = (new.lookup k).or (es.lookup k) := by
  induction new generalizing es with
  | nil => rfl
  | cons e new ih =>
    rw [List.map_cons, List.nodup_cons] at hkeys
    have hi : insertAll (e :: new) es = insertAll new (insert e.1 e.2 es) := rfl
    rw [hi, ih hkeys.2, List.lookup_cons]
    by_cases hk : k = e.1
    · subst hk
      rw [lookup_eq_none_iff.mpr hkeys.1, lookup_insert_self, beq_self_eq_true]
      rfl
    · rw [lookup_insert_of_ne hk, beq_eq_false_iff_ne.mpr hk]

theorem insert_of_lookup {k : κ} {v : α} {es : List (κ × α)} (h : es.lookup k = some v) :
    insert k v es = es := by
  induction es with
  | nil => simp at h
  | cons e es ih =>
    obtain ⟨k', v'⟩ := e
    rw [List.lookup_cons] at h
    by_cases hk : k = k'
    · simp_all [insert]
    · have hne : (k == k') = false := beq_eq_false_iff_ne.mpr hk
      simp_all [insert]

theorem keys_insert_of_mem {k : κ} {es : List (κ × α)} (h : k ∈ es.map Prod.fst) (v : α) :
    (insert k v es).map Prod.fst = es.map Prod.fst := by
  induction es with
  | nil => simp at h
  | cons e es ih =>
    simp only [insert]
    split
    · rename_i hk
      have he : k = e.1 := by simpa using hk
      simp [he]
    · rename_i hk
      have hm : k ∈ es.map Prod.fst := by
        rcases List.mem_cons.mp h with he | hm
        · exact absurd (by simp [he]) hk
        · exact hm
      rw [List.map_cons, List.map_cons, ih hm]

theorem insert_of_notMem {k : κ} {es : List (κ × α)} (h : k ∉ es.map Prod.fst) (v : α) :
    insert k v es = es ++ [(k, v)] := by
  induction es with
  | nil => rfl
  | cons e es ih =>
    rw [List.map_cons, List.mem_cons, not_or] at h
    rw [insert, if_neg (by simpa using h.1), ih h.2, List.cons_append]

theorem keys_insert_of_notMem {k : κ} {es : List (κ × α)} (h : k ∉ es.map Prod.fst) (v : α) :
    (insert k v es).map Prod.fst = es.map Prod.fst ++ [k] := by
  rw [insert_of_notMem h, List.map_append, List.map_singleton]

theorem nodup_keys_insert {es : List (κ × α)} (h : (es.map Prod.fst).Nodup) (k : κ) (v : α) :
    ((insert k v es).map Prod.fst).Nodup := by
  by_cases hk : k ∈ es.map Prod.fst
  · rwa [keys_insert_of_mem hk]
  · rw [keys_insert_of_notMem hk]
    exact List.nodup_append.mpr ⟨h, List.nodup_cons.mpr ⟨List.not_mem_nil, .nil⟩, by
      rintro a ha b hb rfl
      exact hk (List.mem_singleton.mp hb ▸ ha)⟩

theorem nodup_keys_insertAll (new : List (κ × α)) {es : List (κ × α)}
    (h : (es.map Prod.fst).Nodup) : ((insertAll new es).map Prod.fst).Nodup := by
  induction new generalizing es with
  | nil => exact h
  | cons e new ih => exact ih (nodup_keys_insert h e.1 e.2)

/-- New keys are added in their order behind the old ones. -/
theorem insertAll_of_disjoint {new es : List (κ × α)} (hn : (new.map Prod.fst).Nodup)
    (hd : ∀ k ∈ new.map Prod.fst, k ∉ es.map Prod.fst) : insertAll new es = es ++ new := by
  induction new generalizing es with
  | nil => rw [List.append_nil]; rfl
  | cons e new ih =>
    rw [List.map_cons, List.nodup_cons] at hn
    have he := hd e.1 (by simp)
    have hi : insertAll (e :: new) es = insertAll new (es ++ [e]) := by
      rw [← insert_of_notMem he e.2]; rfl
    rw [hi, ih hn.2, List.append_assoc, List.singleton_append]
    intro k hk
    rw [List.map_append, List.mem_append, not_or]
    refine ⟨hd k (by simp [hk]), ?_⟩
    rintro hm
    rw [List.map_singleton, List.mem_singleton] at hm
    exact hn.1 (hm ▸ hk)

theorem insertAll_nil {new : List (κ × α)} (h : (new.map Prod.fst).Nodup) :
    insertAll new [] = new := by
  rw [insertAll_of_disjoint h (by simp), List.nil_append]

end MeowLang.Assoc
