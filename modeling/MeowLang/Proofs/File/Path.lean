import MeowLang.File.Path
import MeowLang.Proofs.Text.Split

/-! Normal forms of absolute paths. Such a path is one slash or two, and then plain names with
slashes between them; these are the paths that normalizing, tidying and resolving leave as they
are. The library `x` of a directory in normal form is its file `x.meow`. -/
namespace MeowLang.Path

/-! ### The start of a path -/

theorem isAbsolute_iff {p : String} : isAbsolute p = true ↔ ∃ rest, p.toList = '/' :: rest := by
  rw [isAbsolute, String.startsWith_string_iff]
  constructor
  · rintro ⟨rest, h⟩
    exact ⟨rest, h.symm⟩
  · rintro ⟨rest, h⟩
    exact ⟨rest, h.symm⟩

def IsStart (start : String) : Prop := start = "/" ∨ start = "//"

/-- An absolute path starts with one slash or with two. -/
theorem root_of_isAbsolute {p : String} (h : isAbsolute p = true) : IsStart (root p) := by
  obtain ⟨rest, hp⟩ := isAbsolute_iff.mp h
  unfold root
  rw [hp]
  split <;> simp_all [IsStart]

theorem isAbsolute_append {p q : String} (h : isAbsolute p = true) :
    isAbsolute (p ++ q) = true := by
  obtain ⟨rest, hp⟩ := isAbsolute_iff.mp h
  rw [isAbsolute_iff, String.toList_append, hp]
  exact ⟨_, rfl⟩

theorem isAbsolute_join {base name : String} (h : isAbsolute base = true) :
    isAbsolute (join base name) = true := by
  unfold join
  split
  · assumption
  split
  · exact isAbsolute_append h
  · exact isAbsolute_append (isAbsolute_append h)

/-! ### Plain names -/

/-- The name of a file or directory, and neither empty nor a row of dots. -/
structure Plain (c : String) : Prop where
  ne_empty : c ≠ ""
  ne_dot : c ≠ "."
  ne_dots : c ≠ ".."
  slashless : '/' ∉ c.toList

variable {start : String} {cs : List String}

theorem collapse_of_plain (hcs : ∀ c ∈ cs, Plain c) (rooted : Bool) (stack : List String) :
    collapse rooted stack cs = stack.reverse ++ cs := by
  induction cs generalizing stack with
  | nil => simp [collapse]
  | cons c cs ih =>
    obtain ⟨hempty, hdot, hdots, -⟩ := hcs c List.mem_cons_self
    have hrest := ih (fun d hd => hcs d (List.mem_cons_of_mem _ hd)) (c :: stack)
    simp [collapse, hempty, hdot, hdots, hrest]

/-- Below the root nothing but plain names is left. -/
theorem plain_of_mem_collapse {stack parts : List String} (hs : ∀ c ∈ stack, Plain c)
    (hp : ∀ c ∈ parts, '/' ∉ c.toList) : ∀ c ∈ collapse true stack parts, Plain c := by
  induction parts generalizing stack with
  | nil => simpa [collapse] using hs
  | cons p parts ih =>
    have hparts : ∀ c ∈ parts, '/' ∉ c.toList := fun c hc => hp c (List.mem_cons_of_mem _ hc)
    unfold collapse
    split
    · exact ih hs hparts
    rename_i hskip
    rw [Bool.or_eq_true, beq_iff_eq, beq_iff_eq, not_or] at hskip
    split
    · cases stack with
      | nil => exact ih (by simp) hparts
      | cons last before =>
        have hlast : (last == "..") = false := by simpa using (hs last List.mem_cons_self).ne_dots
        simp only [hlast]
        exact ih (fun c hc => hs c (List.mem_cons_of_mem _ hc)) hparts
    · rename_i hdots
      have hplain : Plain p :=
        ⟨hskip.1, hskip.2, by simpa using hdots, hp p List.mem_cons_self⟩
      apply ih _ hparts
      rintro c (_ | ⟨_, hc⟩)
      · exact hplain
      · exact hs c hc

/-! ### Components -/

/-- The path from a start through names. -/
def under (start : String) (cs : List String) : String := start ++ "/".intercalate cs

/-- Behind other names, a name stands after a slash. -/
theorem under_append (hne : cs ≠ []) (name : String) :
    under start (cs ++ [name]) = under start cs ++ "/" ++ name := by
  rw [under, under, String.intercalate_append_of_ne_nil hne (List.cons_ne_nil _ _),
    String.intercalate_singleton, String.append_assoc, String.append_assoc, String.append_assoc]

theorem slash_eq : ("/" : String) = String.singleton '/' := rfl

theorem split_slash (p : String) : Text.split ("/" ++ p) "/" = "" :: Text.split p "/" := by
  have hsplit : Text.split ("" ++ "/" ++ p) "/" = Text.split "" "/" ++ Text.split p "/" := by
    rw [slash_eq]
    exact Text.split_append "" p
  have hempty : Text.split "" "/" = [""] := by decide
  rwa [String.empty_append, hempty] at hsplit

/-- The components of a path through plain names are these names, and empty texts before them. -/
theorem split_under (hs : IsStart start) (hcs : ∀ c ∈ cs, Plain c) :
    ∃ k, Text.split (under start cs) "/" = List.replicate k "" ++ cs := by
  have names : ∃ k, Text.split ("/".intercalate cs) "/" = List.replicate k "" ++ cs := by
    by_cases hne : cs = []
    · subst hne
      exact ⟨1, by decide⟩
    · refine ⟨0, ?_⟩
      rw [slash_eq]
      exact Text.split_intercalate hne fun c hc => (hcs c hc).slashless
  obtain ⟨k, hk⟩ := names
  rcases hs with rfl | rfl
  · refine ⟨k + 1, ?_⟩
    rw [under, split_slash, hk]
    rfl
  · refine ⟨k + 2, ?_⟩
    have htwo : ("//" : String) = "/" ++ "/" := rfl
    rw [under, htwo, String.append_assoc, split_slash, split_slash, hk]
    rfl

theorem collapse_replicate_empty (k : Nat) (rooted : Bool) (stack parts : List String) :
    collapse rooted stack (List.replicate k "" ++ parts) = collapse rooted stack parts := by
  induction k with
  | zero => rfl
  | succ k ih => exact ih

theorem collapse_split_under (hs : IsStart start) (hcs : ∀ c ∈ cs, Plain c) (rooted : Bool) :
    collapse rooted [] (Text.split (under start cs) "/") = cs := by
  obtain ⟨k, hk⟩ := split_under hs hcs
  rw [hk, collapse_replicate_empty, collapse_of_plain hcs]
  rfl

/-! ### Paths in normal form -/

theorem isAbsolute_under (hs : IsStart start) : isAbsolute (under start cs) = true := by
  apply isAbsolute_append
  rw [isAbsolute_iff]
  rcases hs with rfl | rfl
  · exact ⟨[], rfl⟩
  · exact ⟨['/'], rfl⟩

/-- A name behind the start of a path does not change the start. -/
theorem root_append {p : String} (hs : IsStart start) (hp : isAbsolute p = false) :
    root (start ++ p) = start := by
  have hhead : ∀ rest, p.toList ≠ '/' :: rest := by
    intro rest h
    rw [isAbsolute_iff.mpr ⟨rest, h⟩] at hp
    cases hp
  unfold root
  rw [String.toList_append]
  cases hp : p.toList with
  | nil => rcases hs with rfl | rfl <;> rfl
  | cons c rest =>
    have hc : c ≠ '/' := fun h => hhead rest (h ▸ hp)
    rcases hs with rfl | rfl <;> simp [hc]

theorem Plain.isAbsolute {c : String} (h : Plain c) : isAbsolute c = false := by
  rw [Bool.eq_false_iff, ne_eq, isAbsolute_iff]
  rintro ⟨rest, hc⟩
  exact h.slashless (hc ▸ List.mem_cons_self)

/-- Names behind one another are relative if the first one is. -/
theorem names_isAbsolute (h : ∀ c, cs.head? = some c → c ≠ "" ∧ isAbsolute c = false) :
    isAbsolute ("/".intercalate cs) = false := by
  rw [Bool.eq_false_iff, ne_eq, isAbsolute_iff]
  rintro ⟨rest, hrest⟩
  cases cs with
  | nil => cases hrest
  | cons c cs =>
    obtain ⟨hempty, hrelative⟩ := h c rfl
    cases hc : c.toList with
    | nil => exact hempty (String.toList_eq_nil_iff.mp hc)
    | cons d ds =>
      rw [String.toList_intercalate, List.map_cons, hc, List.intercalate_cons_cons_left] at hrest
      obtain ⟨rfl, -⟩ := List.cons.inj hrest
      rw [isAbsolute_iff.mpr ⟨ds, hc⟩] at hrelative
      cases hrelative

theorem root_under (hs : IsStart start) (hcs : ∀ c ∈ cs, Plain c) :
    root (under start cs) = start := by
  apply root_append hs
  apply names_isAbsolute
  intro c hc
  have hplain := hcs c (List.mem_of_mem_head? hc)
  exact ⟨hplain.ne_empty, hplain.isAbsolute⟩

theorem root_ne_empty {p : String} (h : isAbsolute p = true) : root p ≠ "" := by
  rcases root_of_isAbsolute h with h | h <;> simp [h]

theorem normalize_eq {p : String} (h : isAbsolute p = true) :
    normalize p = under (root p) (collapse true [] (Text.split p "/")) := by
  have hroot : (root p != "") = true := by simpa using root_ne_empty h
  have htext :
      (root p ++ "/".intercalate (collapse true [] (Text.split p "/"))).isEmpty = false := by
    simp [root_ne_empty h]
  simp only [normalize, hroot, htext]
  rfl

theorem parent_eq {p : String} (h : isAbsolute p = true) :
    parent p = under (root p) (collapse true [] (Text.split p "/")).dropLast := by
  have hroot : (root p != "") = true := by simpa using root_ne_empty h
  simp only [parent, hroot]
  rfl

/-- The normal form of an absolute path goes through plain names. -/
theorem exists_under {p : String} (h : isAbsolute p = true) :
    ∃ cs, (∀ c ∈ cs, Plain c) ∧ normalize p = under (root p) cs := by
  refine ⟨_, plain_of_mem_collapse (by simp) fun c hc => ?_, normalize_eq h⟩
  rw [slash_eq] at hc
  exact Text.not_mem_of_mem_split hc

theorem parent_under (hs : IsStart start) (hcs : ∀ c ∈ cs, Plain c) :
    parent (under start cs) = under start cs.dropLast := by
  rw [parent_eq (isAbsolute_under hs), root_under hs hcs, collapse_split_under hs hcs]

theorem normalize_under (hs : IsStart start) (hcs : ∀ c ∈ cs, Plain c) :
    normalize (under start cs) = under start cs := by
  rw [normalize_eq (isAbsolute_under hs), root_under hs hcs, collapse_split_under hs hcs]

theorem tidy_under (hs : IsStart start) (hcs : ∀ c ∈ cs, Plain c) :
    tidy (under start cs) = under start cs := by
  obtain ⟨k, hk⟩ := split_under hs hcs
  have hparts : (Text.split (under start cs) "/").filter (fun c => c != "" && c != ".") = cs := by
    rw [hk, List.filter_append, List.filter_replicate_of_neg (by simp), List.nil_append,
      List.filter_eq_self]
    intro c hc
    simp [(hcs c hc).ne_empty, (hcs c hc).ne_dot]
  have htext : (start ++ "/".intercalate cs).isEmpty = false := by
    rcases hs with rfl | rfl <;> simp
  simp only [tidy, hparts, root_under hs hcs, htext]
  rfl

/-- Seen from anywhere, a path with one slash at its start means its normal form. -/
theorem resolve_eq_normalize {p : String} (h : root p = "/") (workingDirectory : String) :
    resolve workingDirectory p = normalize p := by
  have habsolute : isAbsolute p = true := by
    rw [isAbsolute_iff]
    unfold root at h
    split at h
    · exact ⟨_, by assumption⟩
    · exact absurd h (by decide)
    · exact ⟨_, by assumption⟩
    · exact absurd h (by decide)
  rw [resolve, join, if_pos habsolute, normalize_eq habsolute, h]
  rfl

/-! ### Directories -/

theorem endsWith_iff {p q : String} : p.endsWith q = true ↔ q.toList <:+ p.toList := by
  rw [String.endsWith, String.Slice.endsWith_string_iff, String.copy_toSlice]

theorem endsWith_under (hs : IsStart start) (hcs : ∀ c ∈ cs, Plain c) :
    (under start cs).endsWith "/" = cs.isEmpty := by
  rcases List.eq_nil_or_concat cs with rfl | ⟨front, last, hlist⟩
  · rw [List.isEmpty_nil, endsWith_iff, under, String.intercalate_nil]
    rcases hs with rfl | rfl
    · exact ⟨[], rfl⟩
    · exact ⟨['/'], rfl⟩
  · rw [List.concat_eq_append] at hlist
    subst hlist
    have hlast := hcs last (by simp)
    obtain ⟨before, hbefore⟩ : ∃ before, under start (front ++ [last]) = before ++ last := by
      by_cases hne : front = []
      · exact ⟨start, by simp [under, hne]⟩
      · exact ⟨under start front ++ "/", under_append hne last⟩
    have hends : ¬ "/".toList <:+ (under start (front ++ [last])).toList := by
      rintro ⟨t, ht⟩
      rw [hbefore, String.toList_append] at ht
      cases hl : last.toList.getLast? with
      | none =>
        rw [List.getLast?_eq_none_iff] at hl
        exact hlast.ne_empty (String.toList_eq_nil_iff.mp hl)
      | some c =>
        have hc := congrArg List.getLast? ht
        rw [List.getLast?_append, List.getLast?_append, hl] at hc
        obtain rfl : '/' = c := by simpa using hc
        exact hlast.slashless (List.mem_of_getLast? hl)
    rw [← endsWith_iff, Bool.not_eq_true] at hends
    rw [hends]
    simp

/-- A relative path from a directory goes on behind the names of the directory. -/
theorem join_under {name : String} (hs : IsStart start) (hcs : ∀ c ∈ cs, Plain c)
    (hname : isAbsolute name = false) :
    join (under start cs) name = under start (cs ++ [name]) := by
  have hne : (under start cs).isEmpty = false := by
    rcases hs with rfl | rfl <;> simp [under]
  rw [join, hname, if_neg Bool.false_ne_true, hne, Bool.false_or, endsWith_under hs hcs]
  cases cs with
  | nil => simp [under]
  | cons c cs =>
    rw [List.isEmpty_cons, if_neg Bool.false_ne_true, under_append (List.cons_ne_nil _ _)]

theorem root_suffix (name : String) : root (name ++ sourceSuffix) = root name := by
  have hsuffix : sourceSuffix.toList = ['.', 'm', 'e', 'o', 'w'] := rfl
  unfold root
  rw [String.toList_append, hsuffix]
  rcases name.toList with _ | ⟨a, _ | ⟨b, _ | ⟨c, rest⟩⟩⟩
  · rfl
  · by_cases ha : a = '/' <;> simp [ha]
  · by_cases ha : a = '/' <;> by_cases hb : b = '/' <;> simp [ha, hb]
  · by_cases ha : a = '/' <;> by_cases hb : b = '/' <;> by_cases hc : c = '/' <;> simp [ha, hb, hc]

/-! ### Characters -/

theorem mem_names {x : Char} (hx : x ≠ '/') :
    x ∈ ("/".intercalate cs).toList ↔ ∃ c ∈ cs, x ∈ c.toList := by
  induction cs with
  | nil => simp
  | cons c cs ih =>
    by_cases hne : cs = []
    · simp [hne]
    · rw [String.intercalate_cons_of_ne_nil hne, String.toList_append, String.toList_append,
        List.mem_append, List.mem_append, ih]
      simp [hx]

theorem hasNul_iff {p : String} : hasNul p = true ↔ '\x00' ∈ p.toList := List.contains_iff_mem

theorem hasNul_eq_false {p : String} : hasNul p = false ↔ '\x00' ∉ p.toList := by
  rw [Bool.eq_false_iff, ne_eq, hasNul_iff]

theorem hasNul_append {p q : String} (hp : hasNul p = false) (hq : hasNul q = false) :
    hasNul (p ++ q) = false := by
  rw [hasNul_eq_false] at hp hq ⊢
  simp [hp, hq]

theorem hasNul_under (hs : IsStart start) :
    hasNul (under start cs) = false ↔ ∀ c ∈ cs, hasNul c = false := by
  have hstart : '\x00' ∉ start.toList := by rcases hs with rfl | rfl <;> decide
  simp only [hasNul_eq_false, under, String.toList_append, List.mem_append, hstart, false_or,
    mem_names (x := '\x00') (by decide), not_exists, not_and]

theorem hasNul_join {base name : String} (hbase : hasNul base = false)
    (hname : hasNul name = false) : hasNul (join base name) = false := by
  have hslash : hasNul "/" = false := by decide
  unfold join
  split
  · exact hname
  split
  · exact hasNul_append hbase hname
  · exact hasNul_append (hasNul_append hbase hslash) hname

theorem hasNul_of_join {base name : String} (h : hasNul (join base name) = false) :
    hasNul name = false := by
  rw [hasNul_eq_false] at h ⊢
  unfold join at h
  split at h
  · exact h
  split at h <;> simp_all

theorem tidy_eq {p : String} (h : isAbsolute p = true) :
    tidy p = under (root p) ((Text.split p "/").filter fun c => c != "" && c != ".") := by
  rw [tidy, if_neg]
  · rfl
  · intro hempty
    rw [String.isEmpty_iff] at hempty
    exact root_ne_empty h (String.append_eq_empty_iff.mp hempty).1

theorem isAbsolute_tidy {p : String} (h : isAbsolute p = true) : isAbsolute (tidy p) = true := by
  rw [tidy_eq h]
  exact isAbsolute_under (root_of_isAbsolute h)

theorem hasNul_of_mem_split {p c : String} (h : hasNul p = false) (hc : c ∈ Text.split p "/") :
    hasNul c = false := by
  have hwhole : "/".intercalate (Text.split p "/") = p := by
    rw [slash_eq]
    exact Text.intercalate_split _
  rw [hasNul_eq_false] at h ⊢
  rw [← hwhole, mem_names (by decide)] at h
  exact fun hx => h ⟨c, hc, hx⟩

theorem hasNul_tidy {p : String} (habsolute : isAbsolute p = true) (h : hasNul p = false) :
    hasNul (tidy p) = false := by
  rw [tidy_eq habsolute, hasNul_under (root_of_isAbsolute habsolute)]
  exact fun c hc => hasNul_of_mem_split h (List.mem_filter.mp hc).1

/-! ### Libraries -/

/-- A name without two slashes at its start leads to a path with one slash, from a directory with
one. -/
theorem root_join {name : String} (hcs : ∀ c ∈ cs, Plain c) (hname : root name ≠ "//") :
    root (join (under "/" cs) (name ++ sourceSuffix)) = "/" := by
  cases habsolute : isAbsolute (name ++ sourceSuffix) with
  | true =>
    have hroot := root_of_isAbsolute habsolute
    rw [root_suffix] at hroot
    rw [join, if_pos habsolute, root_suffix]
    exact hroot.resolve_right hname
  | false =>
    rw [join_under (.inl rfl) hcs habsolute, under]
    apply root_append (.inl rfl)
    apply names_isAbsolute
    intro c hc
    cases cs with
    | nil =>
      cases hc
      exact ⟨by simp [sourceSuffix], habsolute⟩
    | cons d cs =>
      cases hc
      have hplain := hcs c List.mem_cons_self
      exact ⟨hplain.ne_empty, hplain.isAbsolute⟩

theorem ofLibrary_eq {base : String} (h : isAbsolute base = true) (workingDirectory name : String) :
    ofLibrary workingDirectory base name = normalize (join base (name ++ sourceSuffix)) := by
  rw [ofLibrary, join, if_pos (isAbsolute_join h)]

/-- The library of a plain name is a file of the directory itself. -/
theorem parent_ofLibrary {name : String} (hs : IsStart start) (hcs : ∀ c ∈ cs, Plain c)
    (hname : Plain (name ++ sourceSuffix)) (workingDirectory : String) :
    parent (ofLibrary workingDirectory (under start cs) name) = under start cs := by
  have hall : ∀ c ∈ cs ++ [name ++ sourceSuffix], Plain c := by
    intro c hc
    rcases List.mem_append.mp hc with hc | hc
    · exact hcs c hc
    · exact List.mem_singleton.mp hc ▸ hname
  rw [ofLibrary_eq (isAbsolute_under hs), join_under hs hcs hname.isAbsolute,
    normalize_under hs hall, parent_under hs hall, List.dropLast_concat]

end MeowLang.Path
