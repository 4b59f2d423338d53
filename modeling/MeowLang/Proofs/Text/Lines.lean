import Mathlib.Data.List.TakeWhile
import MeowLang.Text.Lines

/-! Which line of a text a place in it is on. The line feeds before the place number the lines that
line feeds separate. They number an editor's lines too, as long as every line before the place ends
by a line feed, with a return before it or not. -/
namespace MeowLang.Text

/-- What stands on the line that a text ends with. -/
def lastLine (cs : List Char) : List Char := (cs.reverse.takeWhile (· != '\n')).reverse

/-- Every line end is a line feed, or a return with a line feed behind it. -/
def endsByFeeds : List Char → Bool
  | [] => true
  | '\r' :: '\n' :: rest => endsByFeeds rest
  | c :: rest => (c == '\n' || !isLineEnd c) && endsByFeeds rest

/-! ### The last line -/

theorem lastLine_append_feed (cs ds : List Char) : lastLine (cs ++ '\n' :: ds) = lastLine ds := by
  have htake (xs ys : List Char) :
      (xs ++ '\n' :: ys).takeWhile (· != '\n') = xs.takeWhile (· != '\n') := by
    induction xs with
    | nil => simp
    | cons x xs ih => by_cases hx : x = '\n' <;> simp [hx, ih]
  rw [lastLine, lastLine, List.reverse_append, List.reverse_cons, List.append_assoc,
    List.singleton_append, htake]

theorem lastLine_of_not_mem {cs : List Char} (h : '\n' ∉ cs) : lastLine cs = cs := by
  have hall : ∀ c ∈ cs.reverse, (c != '\n') = true := by simpa using List.forall_mem_ne'.mpr h
  rw [lastLine, List.takeWhile_eq_self_iff.mpr hall, List.reverse_reverse]

theorem lastLine_suffix (cs : List Char) : lastLine cs <:+ cs := by
  have h := List.takeWhile_prefix (· != '\n') (l := cs.reverse)
  rwa [← List.reverse_suffix, List.reverse_reverse] at h

/-! ### Lines between line feeds -/

theorem head?_splitOn (cs : List Char) :
    (cs.splitOn '\n').head? = some (cs.takeWhile (· != '\n')) := by
  induction cs with
  | nil => rfl
  | cons c cs ih =>
    rw [List.splitOn_cons_eq_if_modifyHead]
    by_cases hc : c = '\n' <;> simp [hc, ih]

theorem getElem?_splitOn_of_line {line : List Char} (hline : '\n' ∉ line)
    (before rest : List Char) :
    ((line ++ (before ++ rest)).splitOn '\n')[before.count '\n']? =
      some (lastLine (line ++ before) ++ rest.takeWhile (· != '\n')) := by
  induction before generalizing line with
  | nil =>
    have hall : ∀ c ∈ line, (c != '\n') = true := by simpa using List.forall_mem_ne'.mpr hline
    rw [List.append_nil, List.nil_append, List.count_nil, ← List.head?_eq_getElem?, head?_splitOn,
      lastLine_of_not_mem hline, List.takeWhile_append_of_pos hall]
  | cons c cs ih =>
    by_cases hc : c = '\n'
    · subst hc
      rw [List.cons_append, List.splitOn_append_cons_self, List.splitOn_eq_singleton hline,
        lastLine_append_feed, List.count_cons_self]
      exact @ih [] List.not_mem_nil
    · have hline' : '\n' ∉ line ++ [c] := by simp [hline, Ne.symm hc]
      rw [List.count_cons_of_ne hc, List.cons_append, List.append_cons line c (cs ++ rest),
        List.append_cons line c cs]
      exact ih hline'

theorem getElem?_splitOn (before rest : List Char) :
    ((before ++ rest).splitOn '\n')[before.count '\n']? =
      some (lastLine before ++ rest.takeWhile (· != '\n')) :=
  getElem?_splitOn_of_line List.not_mem_nil before rest

/-! ### Lines of an editor -/

theorem dropLineEnd_of_line {line ends : List Char} (hline : ∀ c ∈ line, isLineEnd c = false)
    (hends : ∀ c ∈ ends, isLineEnd c = true) :
    dropLineEnd (line.reverse ++ ends) = line.reverse := by
  have hkeep : line.dropWhile isLineEnd = line := by
    cases line with
    | nil => rfl
    | cons c cs => rw [List.dropWhile_cons_of_neg (by simp [hline c (.head _)])]
  rw [dropLineEnd, List.reverse_append, List.reverse_reverse,
    List.dropWhile_append_of_pos fun c hc => hends c (List.mem_reverse.mp hc), hkeep]

theorem keepLines_cons_of_ne {c : Char} (hc : c ≠ '\r') (cs line : List Char) :
    keepLines (c :: cs) line =
      if isLineEnd c then (line.reverse ++ [c]) :: keepLines cs []
      else keepLines cs (c :: line) := by
  rw [keepLines]
  intro rest h
  exact absurd h hc

/-- The first line goes up to the first line end. -/
theorem head?_keepLines {cs line : List Char} (hline : ∀ c ∈ line, isLineEnd c = false)
    (hcs : cs ≠ [] ∨ line ≠ []) :
    (keepLines cs line).head?.map dropLineEnd =
      some (line.reverse ++ cs.takeWhile (!isLineEnd ·)) := by
  fun_induction keepLines cs line with
  | case1 => simp at hcs
  | case2 line _ =>
    rw [List.head?_cons, Option.map_some, ← List.append_nil line.reverse,
      dropLineEnd_of_line hline (by simp)]
    simp
  | case3 rest line ih =>
    rw [List.head?_cons, Option.map_some, dropLineEnd_of_line hline (by simp [isLineEnd])]
    simp [show isLineEnd '\r' = true from rfl]
  | case4 c rest line _ hc ih =>
    rw [List.head?_cons, Option.map_some, dropLineEnd_of_line hline (by simpa using hc)]
    simp [hc]
  | case5 c rest line _ hc ih =>
    have hc' : isLineEnd c = false := by simpa using hc
    rw [ih (by simpa [hc'] using hline) (.inr (List.cons_ne_nil _ _))]
    simp [hc']

/-- Line feeds number the lines, and what stands before a place is the start of its line. -/
theorem getElem?_keepLines {before rest line : List Char} (hbefore : endsByFeeds before = true)
    (hrest : rest ≠ []) (hline : ∀ c ∈ line, isLineEnd c = false) :
    (keepLines (before ++ rest) line)[before.count '\n']?.map dropLineEnd =
      some (lastLine (line.reverse ++ before) ++ rest.takeWhile (!isLineEnd ·)) := by
  fun_induction endsByFeeds before generalizing line with
  | case1 =>
    have hfeed : '\n' ∉ line.reverse := by
      intro hmem
      exact absurd (hline _ (List.mem_reverse.mp hmem)) (by decide)
    rw [List.nil_append, List.count_nil, ← List.head?_eq_getElem?,
      head?_keepLines hline (.inl hrest), List.append_nil, lastLine_of_not_mem hfeed]
  | case2 cs ih =>
    rw [List.cons_append, List.cons_append, keepLines, List.count_cons_of_ne (by decide),
      List.count_cons_self, List.getElem?_cons_succ, ih hbefore (by simp), List.append_cons,
      lastLine_append_feed]
    rfl
  | case3 c cs _ ih =>
    obtain ⟨hc, hcs⟩ := Bool.and_eq_true_iff.mp hbefore
    by_cases hfeed : c = '\n'
    · subst hfeed
      rw [List.cons_append, keepLines_cons_of_ne (by decide), if_pos (by decide),
        List.count_cons_self, List.getElem?_cons_succ, ih hcs (by simp), lastLine_append_feed]
      rfl
    · have hend : isLineEnd c = false := by simpa [hfeed] using hc
      have hne : c ≠ '\r' := fun h => absurd (h ▸ hend) (by decide)
      rw [List.cons_append, keepLines_cons_of_ne hne, if_neg (by simp [hend]),
        List.count_cons_of_ne hfeed, ih hcs (by simpa [hend] using hline), List.reverse_cons,
        ← List.append_cons]

theorem getElem?_lines {text : String} {before rest : List Char}
    (htext : text.toList = before ++ rest) (hbefore : endsByFeeds before = true)
    (hrest : rest ≠ []) :
    (lines text)[before.count '\n']? =
      some (String.ofList (lastLine before ++ rest.takeWhile (!isLineEnd ·))) := by
  have hline : ∀ c ∈ ([] : List Char), isLineEnd c = false := by simp
  have h := getElem?_keepLines hbefore hrest hline
  rw [lines, htext, List.getElem?_map, ← Function.comp_def, ← Option.map_map, h]
  rfl

end MeowLang.Text
