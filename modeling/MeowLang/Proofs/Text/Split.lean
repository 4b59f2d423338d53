import MeowLang.Text.Search

/-! Cutting a text at the occurrences of another. A text begins with the separator, or with a
character that no occurrence starts at, so what holds along these two ways holds of every text.
Putting the pieces together again gives the text, no piece holds the separator, and with another
text between them the occurrences are replaced by it. For a separator of one character the pieces
are those of the list of characters, so a text that was put together from pieces without that
character is cut into them again. -/
namespace MeowLang.Text

/-! ### Along the occurrences -/

section
variable {sep : List Char} {c : Char} {piece cs : List Char}

/-- From occurrence to occurrence, and over all characters between them. -/
theorem occurrence_induction {motive : List Char → Prop} (hsep : sep ≠ []) (nil : motive [])
    (here : ∀ cs, motive cs → motive (sep ++ cs))
    (past : ∀ c cs, ¬ sep <+: c :: cs → motive cs → motive (c :: cs)) (cs : List Char) :
    motive cs := by
  induction hn : cs.length using Nat.strongRecOn generalizing cs with
  | ind n ih =>
    cases cs with
    | nil => exact nil
    | cons c cs =>
      by_cases h : sep <+: c :: cs
      · obtain ⟨rest, hrest⟩ := h
        have hlength := congrArg List.length hrest
        have hpos := List.length_pos_iff.mpr hsep
        rw [List.length_append] at hlength
        rw [← hrest]
        exact here rest (ih _ (by omega) rest rfl)
      · exact past c cs h (ih _ (by rw [← hn]; exact Nat.lt_succ_self _) cs rfl)

theorem cut_skip (k : Nat) (piece cs : List Char) :
    cut sep k piece cs = cut sep 0 piece (cs.drop k) := by
  induction k generalizing cs with
  | zero => rfl
  | succ k ih =>
    cases cs with
    | nil => rfl
    | cons c cs => exact ih cs

theorem cut_here (hsep : sep ≠ []) (piece cs : List Char) :
    cut sep 0 piece (sep ++ cs) = piece.reverse :: cut sep 0 [] cs := by
  cases sep with
  | nil => exact absurd rfl hsep
  | cons c rest =>
    have hprefix : (c :: rest).isPrefixOf (c :: (rest ++ cs)) = true :=
      List.isPrefixOf_iff_prefix.mpr ⟨cs, rfl⟩
    rw [List.cons_append, cut, if_pos hprefix, cut_skip]
    simp

theorem cut_past (h : ¬ sep <+: c :: cs) :
    cut sep 0 piece (c :: cs) = cut sep 0 (c :: piece) cs := by
  rw [cut, if_neg (by rwa [List.isPrefixOf_iff_prefix])]

theorem cut_ne_nil (hsep : sep ≠ []) (piece cs : List Char) : cut sep 0 piece cs ≠ [] := by
  induction cs using occurrence_induction hsep generalizing piece with
  | nil => exact List.cons_ne_nil _ _
  | here cs _ =>
    rw [cut_here hsep]
    exact List.cons_ne_nil _ _
  | past c cs h ih =>
    rw [cut_past h]
    exact ih _

theorem intercalate_cut (hsep : sep ≠ []) (piece cs : List Char) :
    sep.intercalate (cut sep 0 piece cs) = piece.reverse ++ cs := by
  induction cs using occurrence_induction hsep generalizing piece with
  | nil => simp [cut]
  | here cs ih =>
    rw [cut_here hsep, List.intercalate_cons_of_ne_nil (cut_ne_nil hsep [] cs), ih]
    simp
  | past c cs h ih =>
    rw [cut_past h, ih]
    simp

/-- No occurrence starts in the piece, wherever it ends. -/
def Fresh (sep piece cs : List Char) : Prop :=
  ∀ front back, piece.reverse = front ++ back → back ≠ [] → ¬ sep <+: back ++ cs

theorem Fresh.not_infix (hsep : sep ≠ []) (h : Fresh sep piece cs) : ¬ sep <:+: piece.reverse := by
  rintro ⟨front, back, heq⟩
  rw [List.append_assoc] at heq
  refine h front (sep ++ back) heq.symm (by simp [hsep]) ?_
  rw [List.append_assoc]
  exact List.prefix_append _ _

theorem Fresh.past (h : Fresh sep piece (c :: cs)) (hc : ¬ sep <+: c :: cs) :
    Fresh sep (c :: piece) cs := by
  intro front back heq hback
  rw [List.reverse_cons] at heq
  rcases List.append_eq_append_iff.mp heq with ⟨more, -, hmore⟩ | ⟨rest, hrest, rfl⟩
  · rcases List.singleton_eq_append_iff.mp hmore with ⟨-, rfl⟩ | ⟨-, rfl⟩
    · exact hc
    · exact absurd rfl hback
  · cases rest with
    | nil => exact hc
    | cons d rest =>
      rw [List.append_assoc]
      exact h front (d :: rest) hrest (List.cons_ne_nil _ _)

theorem not_infix_of_mem_cut (hsep : sep ≠ []) (hfresh : Fresh sep piece cs) :
    ∀ p ∈ cut sep 0 piece cs, ¬ sep <:+: p := by
  induction cs using occurrence_induction hsep generalizing piece with
  | nil => simpa [cut] using hfresh.not_infix hsep
  | here cs ih =>
    rw [cut_here hsep, List.forall_mem_cons]
    refine ⟨hfresh.not_infix hsep, ih fun front back heq hback => ?_⟩
    exact absurd (List.append_eq_nil_iff.mp heq.symm).2 hback
  | past c cs h ih =>
    rw [cut_past h]
    exact ih (hfresh.past h)

/-! ### Another text for the occurrences -/

variable {new : List Char}

theorem substitute_skip (k : Nat) (cs : List Char) :
    substitute sep new k cs = substitute sep new 0 (cs.drop k) := by
  induction k generalizing cs with
  | zero => rfl
  | succ k ih =>
    cases cs with
    | nil => rfl
    | cons c cs => exact ih cs

theorem substitute_here (hsep : sep ≠ []) (cs : List Char) :
    substitute sep new 0 (sep ++ cs) = new ++ substitute sep new 0 cs := by
  cases sep with
  | nil => exact absurd rfl hsep
  | cons c rest =>
    have hprefix : (c :: rest).isPrefixOf (c :: (rest ++ cs)) = true :=
      List.isPrefixOf_iff_prefix.mpr ⟨cs, rfl⟩
    rw [List.cons_append, substitute, if_pos hprefix, substitute_skip]
    simp

theorem substitute_past (h : ¬ sep <+: c :: cs) :
    substitute sep new 0 (c :: cs) = c :: substitute sep new 0 cs := by
  rw [substitute, if_neg (by rwa [List.isPrefixOf_iff_prefix])]

/-- Whatever is put between the pieces comes to stand for the occurrences. -/
theorem intercalate_cut_eq_substitute (hsep : sep ≠ []) (piece cs : List Char) :
    new.intercalate (cut sep 0 piece cs) = piece.reverse ++ substitute sep new 0 cs := by
  induction cs using occurrence_induction hsep generalizing piece with
  | nil => simp [cut, substitute]
  | here cs ih =>
    rw [cut_here hsep, substitute_here hsep,
      List.intercalate_cons_of_ne_nil (cut_ne_nil hsep [] cs), ih]
    simp
  | past c cs h ih =>
    rw [cut_past h, substitute_past h, ih]
    simp

end

/-! ### Texts -/

theorem intercalate_chars (cs : List Char) : [].intercalate (cs.map ([·])) = cs := by
  induction cs with
  | nil => rfl
  | cons c cs ih =>
    cases cs with
    | nil => rfl
    | cons d ds =>
      rw [List.map_cons, List.intercalate_cons_of_ne_nil (by simp), ih]
      rfl

theorem map_toList_split {sep : String} (hsep : sep ≠ "") (s : String) :
    (split s sep).map String.toList = cut sep.toList 0 [] s.toList := by
  rw [split, if_neg (by simpa using hsep), List.map_map]
  exact List.map_id'' (fun _ => String.toList_ofList) _

theorem map_toList_split_empty (s : String) :
    (split s "").map String.toList = s.toList.map ([·]) := by
  have hempty : ("" : String).isEmpty = true := rfl
  rw [split, if_pos hempty, List.map_map]
  exact List.map_congr_left fun _ _ => String.toList_ofList

/-- Putting together undoes cutting. -/
theorem intercalate_split {sep : String} (s : String) : sep.intercalate (split s sep) = s := by
  rw [← String.toList_inj, String.toList_intercalate]
  by_cases hsep : sep = ""
  · rw [hsep, map_toList_split_empty]
    exact intercalate_chars s.toList
  · rw [map_toList_split hsep, intercalate_cut (by simpa using hsep)]
    rfl

/-- No piece holds the text that was cut at. -/
theorem not_infix_of_mem_split {s sep piece : String} (hsep : sep ≠ "") (h : piece ∈ split s sep) :
    ¬ sep.toList <:+: piece.toList := by
  rw [split, if_neg (by simpa using hsep)] at h
  obtain ⟨cs, hcs, rfl⟩ := List.mem_map.mp h
  rw [String.toList_ofList]
  refine not_infix_of_mem_cut (by simpa using hsep) (fun front back heq hback => ?_) cs hcs
  exact absurd (List.append_eq_nil_iff.mp heq.symm).2 hback

theorem replace_eq_intercalate_split {old : String} (hold : old ≠ "") (s new : String) :
    replace s old new = new.intercalate (split s old) := by
  have hempty : old.isEmpty = false := by simpa using hold
  rw [← String.toList_inj, String.toList_intercalate, map_toList_split hold,
    intercalate_cut_eq_substitute (by simpa using hold), replace, hempty,
    if_neg Bool.false_ne_true, String.toList_ofList]
  rfl

/-- Between all characters, before the first and behind the last. -/
theorem intercalate_around_chars (new cs : List Char) :
    new.intercalate ([] :: (cs.map ([·]) ++ [[]])) = cs.flatMap (fun c => new ++ [c]) ++ new := by
  induction cs with
  | nil => simp
  | cons c cs ih =>
    rw [List.map_cons, List.cons_append, List.intercalate_cons_of_ne_nil (List.cons_ne_nil _ _),
      List.intercalate_cons_cons_left, ih]
    simp

/-- The empty text occurs before every character and at the end. -/
theorem replace_empty (s new : String) :
    replace s "" new = new.intercalate ("" :: (split s "" ++ [""])) := by
  have hempty : ("" : String).isEmpty = true := rfl
  rw [← String.toList_inj, String.toList_intercalate, List.map_cons, List.map_append,
    map_toList_split_empty, replace, if_pos hempty, String.toList_ofList]
  exact (intercalate_around_chars new.toList s.toList).symm

/-! ### Cutting at one character -/

variable {sep : Char}

theorem cut_singleton (piece cs : List Char) :
    cut [sep] 0 piece cs = (cs.splitOn sep).modifyHead (piece.reverse ++ ·) := by
  induction cs generalizing piece with
  | nil => simp [cut]
  | cons c cs ih =>
    rw [List.splitOn_cons_eq_if_modifyHead]
    by_cases hc : c = sep
    · subst hc
      simp only [cut, List.isPrefixOf, List.length_singleton, ih]
      cases List.splitOn c cs <;> simp
    · have hne : ([sep] : List Char).isPrefixOf (c :: cs) = false := by
        simp [List.isPrefixOf, Ne.symm hc]
      rw [cut, hne, if_neg Bool.false_ne_true, ih]
      cases List.splitOn sep cs <;> simp [hc]

theorem split_singleton (s : String) :
    split s (String.singleton sep) = (s.toList.splitOn sep).map String.ofList := by
  have hne : (String.singleton sep).isEmpty = false := by simp
  rw [split, hne, if_neg Bool.false_ne_true, String.toList_singleton, cut_singleton]
  cases List.splitOn sep s.toList <;> simp

theorem not_mem_of_mem_split {s piece : String} (h : piece ∈ split s (String.singleton sep)) :
    sep ∉ piece.toList := by
  intro hmem
  obtain ⟨front, back, heq⟩ := List.append_of_mem hmem
  refine not_infix_of_mem_split (by simp) h ⟨front, back, ?_⟩
  rw [heq, String.toList_singleton, List.append_assoc, List.singleton_append]

theorem split_append (s t : String) :
    split (s ++ String.singleton sep ++ t) (String.singleton sep) =
      split s (String.singleton sep) ++ split t (String.singleton sep) := by
  simp only [split_singleton, String.toList_append, String.toList_singleton, List.append_assoc,
    List.singleton_append, List.splitOn_append_cons_self, List.map_append]

/-- Cutting undoes putting together. -/
theorem split_intercalate {parts : List String} (hne : parts ≠ [])
    (h : ∀ p ∈ parts, sep ∉ p.toList) :
    split ((String.singleton sep).intercalate parts) (String.singleton sep) = parts := by
  have hparts : ∀ cs ∈ parts.map String.toList, sep ∉ cs := by
    intro cs hcs
    obtain ⟨p, hp, rfl⟩ := List.mem_map.mp hcs
    exact h p hp
  have hne' : parts.map String.toList ≠ [] := by simpa using hne
  rw [split_singleton, String.toList_intercalate, String.toList_singleton,
    List.splitOn_intercalate sep hparts hne', List.map_map]
  exact List.map_id'' (fun _ => String.ofList_toList) _

end MeowLang.Text
