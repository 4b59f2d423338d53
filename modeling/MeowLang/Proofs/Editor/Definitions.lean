import MeowLang.Proofs.Editor.Index
import MeowLang.Proofs.Program.Begun
import MeowLang.Proofs.Text.Lines

/-! Where the symbols of a document point. A symbol has the line of the word that begins its
binding, and the column where its name first stands on that line as a word of its own. That is the
place of the name itself, unless the name stands further down or the line has it earlier. -/
namespace MeowLang

namespace Text

theorem not_isWordChar_of_isLineEnd {c : Char} (h : isLineEnd c = true) :
    isWordChar c = false := by
  simp only [isLineEnd, Bool.or_eq_true, beq_iff_eq] at h
  rcases h with ((((((((rfl | rfl) | rfl) | rfl) | rfl) | rfl) | rfl) | rfl) | rfl) | rfl <;>
    decide +kernel

end Text

namespace Editor

open Text

/-! ### Words in a line -/

section
variable {name line front back : List Char} {column : Nat}

/-- The name stands at a column of the line, as a word of its own. -/
def WordAt (name line : List Char) (column : Nat) : Prop :=
  ∃ front back, line = front ++ (name ++ back) ∧ front.length = column ∧
    front.getLast?.any isWordChar = false ∧ back.head?.any isWordChar = false

theorem startsWithName_iff {text : List Char} : startsWithName name text = true ↔
    ∃ back, text = name ++ back ∧ back.head?.any isWordChar = false := by
  rw [startsWithName, Bool.and_eq_true, List.isPrefixOf_iff_prefix, Bool.not_eq_true']
  constructor
  · rintro ⟨⟨back, rfl⟩, hback⟩
    rw [List.drop_left] at hback
    exact ⟨back, rfl, hback⟩
  · rintro ⟨back, rfl, hback⟩
    rw [List.drop_left]
    exact ⟨⟨back, rfl⟩, hback⟩

theorem wordAt_length_iff : WordAt name (front ++ back) front.length ↔
    front.getLast?.any isWordChar = false ∧ startsWithName name back = true := by
  rw [startsWithName_iff]
  constructor
  · rintro ⟨front', back', heq, hlength, hfront, hback⟩
    obtain ⟨rfl, rfl⟩ := List.append_inj heq hlength.symm
    exact ⟨hfront, back', rfl, hback⟩
  · rintro ⟨hfront, back', rfl, hback⟩
    exact ⟨front, back', rfl, rfl, hfront, hback⟩

/-- The search stops at the first place where the name is a word of its own. -/
theorem nameColumnFrom_of_wordAt (hname : name ≠ [])
    (h : WordAt name (front ++ back) column) (hle : front.length ≤ column) :
    ∃ k, nameColumnFrom name (front.getLast?.any isWordChar) front.length back = some k ∧
      k ≤ column ∧ WordAt name (front ++ back) k := by
  induction back generalizing front with
  | nil =>
    obtain ⟨front', back', heq, rfl, -⟩ := h
    have hlength := congrArg List.length heq
    have hpos := List.length_pos_iff.mpr hname
    simp only [List.length_append, List.length_nil] at hlength
    omega
  | cons c back ih =>
    rw [nameColumnFrom]
    by_cases hhere : WordAt name (front ++ c :: back) front.length
    · obtain ⟨hfront, hstarts⟩ := wordAt_length_iff.mp hhere
      rw [hfront, hstarts]
      exact ⟨front.length, rfl, hle, hhere⟩
    · have hnot : (!front.getLast?.any isWordChar && startsWithName name (c :: back)) = false := by
        rw [← Bool.not_eq_true, Bool.and_eq_true, Bool.not_eq_true']
        exact fun hcon => hhere (wordAt_length_iff.mpr hcon)
      have hlt : front.length < column := lt_of_le_of_ne hle fun heq => hhere (heq ▸ h)
      rw [hnot, if_neg Bool.false_ne_true]
      rw [List.append_cons] at h ⊢
      have hnext := ih h (by rw [List.length_append]; exact hlt)
      simpa using hnext

theorem exists_nameColumnFrom (hname : name ≠ []) (h : WordAt name line column) :
    ∃ k, nameColumnFrom name false 0 line = some k ∧ k ≤ column ∧ WordAt name line k :=
  @nameColumnFrom_of_wordAt name [] line column hname h (Nat.zero_le column)

theorem nameColumnFrom_eq_iff (hname : name ≠ []) (h : WordAt name line column) :
    (nameColumnFrom name false 0 line).getD 0 = column ↔ ∀ j < column, ¬ WordAt name line j := by
  obtain ⟨k, hk, hle, hword⟩ := exists_nameColumnFrom hname h
  rw [hk, Option.getD_some]
  constructor
  · rintro rfl j hlt hj
    obtain ⟨k', hk', hle', -⟩ := exists_nameColumnFrom hname hj
    cases hk.symm.trans hk'
    omega
  · intro hfirst
    by_contra hne
    exact hfirst k (lt_of_le_of_ne hle hne) hword

theorem any_getLast?_append (hname : name ≠ []) (hword : ∀ c ∈ name, isWordChar c = true) :
    (front ++ name).getLast?.any isWordChar = true := by
  rw [List.getLast?_append, List.getLast?_eq_some_getLast hname]
  exact hword _ (List.getLast_mem hname)

/-- Earlier on its line, a name stands where it stands in what comes before it: no word reaches over
the end of that. -/
theorem wordAt_before_iff (hname : name ≠ []) (hword : ∀ c ∈ name, isWordChar c = true)
    (hfront : front.getLast?.any isWordChar = false) (back : List Char) :
    (∃ j < front.length, WordAt name (front ++ (name ++ back)) j) ↔ ∃ j, WordAt name front j := by
  constructor
  · rintro ⟨j, hlt, f, b, heq, rfl, hf, hb⟩
    rcases List.append_eq_append_iff.mp heq with ⟨a, rfl, -⟩ | ⟨a, rfl, hrest⟩
    · rw [List.length_append] at hlt
      omega
    rcases List.append_eq_append_iff.mp hrest with ⟨d, rfl, rfl⟩ | ⟨d, hname', -⟩
    · refine ⟨f.length, f, d, rfl, rfl, hf, ?_⟩
      cases d with
      | nil => rfl
      | cons c cs => exact hb
    · -- the end of `front` would be inside the name
      have ha : a ≠ [] := by
        rintro rfl
        simp at hlt
      have hall : ∀ c ∈ a, isWordChar c = true := fun c hc =>
        hword c (by rw [hname']; exact List.mem_append_left d hc)
      rw [any_getLast?_append ha hall] at hfront
      cases hfront
  · rintro ⟨j, f, b, rfl, rfl, hf, hb⟩
    have hpos := List.length_pos_iff.mpr hname
    refine ⟨f.length, by simp; omega, f, b ++ (name ++ back), by simp, rfl, hf, ?_⟩
    cases b with
    | nil =>
      rw [List.append_nil, any_getLast?_append hname hword] at hfront
      cases hfront
    | cons c cs => exact hb

end

/-! ### Symbols and names -/

/-- What stands in a stretch of a text whose lines are separated by line feeds. -/
def Range.chars (text : String) (r : Range) : List Char :=
  (((text.toList.splitOn '\n')[r.line]?.getD []).drop r.start).take (r.stop - r.start)

/-- The symbol points to the place in a text that `before` stands before. -/
def Symbol.PointsBehind (before : List Char) (s : Symbol) : Prop :=
  s.line = before.count '\n' ∧ s.column = (lastLine before).length

section
variable {text x : String} {before : List Char} {r : Reader} (h : r.Binds text x before)

include h

theorem isWordChar_of_binds : ∀ c ∈ x.toList, isWordChar c = true :=
  fun c hc => isWordChar_of_isNameChar (h.isName.2.1 c hc)

theorem chars_of_pointsBehind {s : Symbol} (hname : s.name = x) (hs : s.PointsBehind before) :
    s.range.chars text = x.toList := by
  obtain ⟨hline, hcolumn⟩ := hs
  have hfeed : ∀ c ∈ x.toList, (c != '\n') = true := by
    intro c hc
    rw [bne_iff_ne]
    rintro rfl
    exact absurd (isWordChar_of_binds h _ hc) (Bool.not_eq_true _ ▸ not_isWordChar_of_isLineEnd rfl)
  rw [Range.chars, Symbol.range, hline, hcolumn, hname, h.text_eq, List.append_assoc,
    getElem?_splitOn, Option.getD_some, List.drop_left, Nat.add_sub_cancel_left,
    List.takeWhile_append_of_pos hfeed, ← String.length_toList, List.take_left]

theorem not_isWordChar_lastLine : (lastLine before).getLast?.any isWordChar = false := by
  cases hc : (lastLine before).getLast? with
  | none => rfl
  | some c =>
    obtain ⟨front, hfront⟩ := lastLine_suffix before
    obtain ⟨d, hd, hgap⟩ := h.gap_before
    rw [← hfront, List.getLast?_append, hc] at hd
    cases hd
    exact not_isWordChar_of_isGap hgap

/-- The editor's line of the name, up to what comes behind the name. -/
theorem getElem?_lines_of_binds (hfeeds : endsByFeeds before = true) :
    ∃ back, (lines text)[before.count '\n']? =
        some (String.ofList (lastLine before ++ (x.toList ++ back))) ∧
      back.head?.any isWordChar = false := by
  have hends : ∀ c ∈ x.toList, (!isLineEnd c) = true := by
    intro c hc
    rw [Bool.not_eq_true', ← Bool.not_eq_true]
    intro hend
    have hword := isWordChar_of_binds h c hc
    rw [not_isWordChar_of_isLineEnd hend] at hword
    cases hword
  refine ⟨r.cursor.rest.takeWhile (!isLineEnd ·), ?_, ?_⟩
  · rw [getElem?_lines (h.text_eq.trans (List.append_assoc ..)) hfeeds
      (List.append_ne_nil_of_left_ne_nil h.isName.1 _), List.takeWhile_append_of_pos hends]
  · rw [List.head?_takeWhile]
    cases hc : r.cursor.rest.head? with
    | none => rfl
    | some c =>
      rw [Option.filter_some]
      split
      · exact h.ends_behind c hc
      · rfl

theorem nameColumn_eq_iff (hfeeds : endsByFeeds before = true) (hline : r.line = r.ahead.line) :
    nameColumn (lines text) r.line x = (lastLine before).length ↔
      ¬ ∃ column, WordAt x.toList (lastLine before) column := by
  obtain ⟨back, hlines, hback⟩ := getElem?_lines_of_binds h hfeeds
  have hfront := not_isWordChar_lastLine h
  have hahead : r.line = 1 + before.count '\n' := by rw [hline, h.ahead_eq]
  have hword : WordAt x.toList (lastLine before ++ (x.toList ++ back)) (lastLine before).length :=
    ⟨_, back, rfl, rfl, hfront, hback⟩
  rw [nameColumn, hahead, if_neg (by omega), Nat.add_sub_cancel_left, hlines]
  simp only [String.toList_ofList]
  rw [nameColumnFrom_eq_iff h.isName.1 hword,
    ← wordAt_before_iff h.isName.1 (isWordChar_of_binds h) hfront back]
  simp

/-- Unless its line or an earlier one is cut by another line end, a symbol points to its name if and
only if the name stands beside the word that begins the binding and for the first time. -/
theorem pointsBehind_iff {s : Symbol} (hline : s.line = r.line - 1) (hpos : 1 ≤ r.line)
    (hcolumn : s.column = nameColumn (lines text) r.line x) (hfeeds : endsByFeeds before = true) :
    s.PointsBehind before ↔ r.line = r.ahead.line ∧
      ¬ ∃ column, WordAt x.toList (lastLine before) column := by
  have hahead : r.ahead.line = 1 + before.count '\n' := by rw [h.ahead_eq]
  rw [Symbol.PointsBehind, hline, hcolumn]
  constructor
  · rintro ⟨hsame, hfirst⟩
    have hbeside : r.line = r.ahead.line := by omega
    exact ⟨hbeside, (nameColumn_eq_iff h hfeeds hbeside).mp hfirst⟩
  · rintro ⟨hbeside, hfirst⟩
    exact ⟨by omega, (nameColumn_eq_iff h hfeeds hbeside).mpr hfirst⟩

end

/-- The symbols of a document are those of its bindings, in order. Where a name stands behind
`before` in the text and all lines before it end by line feeds, its symbol points there if and only
if the name is on the line of the word that begins the binding and no word before it on that line is
the same; and wherever a symbol points to its name, its range spells it. -/
theorem definitions_are_found_where_their_names_come_first {text : String} {parsed : Parsed}
    (hparsed : Parsed.ofSource text = .ok parsed) (uri : String) :
    ∃ contents, survey uri text = .read contents ∧
      (beginnings text).map Prod.snd = parsed.program ∧
      contents.symbols =
        (beginnings text).filterMap (fun b => Contents.symbol? uri (lines text) b.2) ∧
      ∀ r x e l, (r, Stmt.bind x e l) ∈ beginnings text → ∃ before s,
        r.Binds text x before ∧ Contents.symbol? uri (lines text) (.bind x e l) = some s ∧
        s.name = x ∧
        (endsByFeeds before = true → (s.PointsBehind before ↔ r.line = r.ahead.line ∧
          ¬ ∃ column, WordAt x.toList (lastLine before) column)) ∧
        (s.PointsBehind before → s.range.chars text = x.toList) := by
  have hprogram := map_beginnings hparsed
  refine ⟨_, survey_of_ofSource hparsed uri, hprogram, ?_, fun r x e l hmem => ?_⟩
  · rw [Contents.ofProgram, ← hprogram, List.filterMap_map]
    rfl
  · obtain ⟨before, hbinds, rfl, hpos⟩ := binds_of_mem_beginnings hmem
    refine ⟨before, _, hbinds, rfl, rfl, fun hfeeds => ?_, chars_of_pointsBehind hbinds rfl⟩
    exact pointsBehind_iff hbinds rfl hpos rfl hfeeds

/-- A binding of `x` on the line `l`, with `rest` behind its name. -/
def isBinding (x : String) (l : Int) (rest : List Char) : Reader × Stmt → Bool
  | (r, .bind y _ k) => y == x && k == l && r.cursor.rest == rest
  | _ => false

theorem exists_of_any_isBinding {bs : List (Reader × Stmt)} {x : String} {l : Int}
    {rest : List Char} (h : bs.any (isBinding x l rest) = true) :
    ∃ r e, (r, Stmt.bind x e l) ∈ bs ∧ r.cursor.rest = rest := by
  obtain ⟨⟨r, s⟩, hmem, hb⟩ := List.any_eq_true.mp h
  cases s with
  | bind y e k =>
    simp only [isBinding, Bool.and_eq_true, beq_iff_eq] at hb
    obtain ⟨⟨rfl, rfl⟩, hrest⟩ := hb
    exact ⟨r, e, hmem, hrest⟩
  | _ => cases hb

theorem exists_of_errors_nil {text : String}
    (h : (Parsed.ofSource text).toOption.map Parsed.errors = some []) :
    ∃ parsed, Parsed.ofSource text = .ok parsed ∧ parsed.errors = [] := by
  obtain ⟨parsed, hparsed, herrors⟩ := Option.map_eq_some_iff.mp h
  exact ⟨parsed, eq_ok_of_toOption hparsed, herrors⟩

def textBelowParameter : String :=
  "set f = function(x) \x7b x \x7d;\r\nset x_y = f; set x = x_y;\n"

/-- Neither the parameter on the line above nor the longer name hides the name. -/
theorem definitions_are_found_where_their_names_come_first_below_a_parameter :
    ∃ parsed contents r e before s, Parsed.ofSource textBelowParameter = .ok parsed ∧
      survey "file:///w/main.meow" textBelowParameter = .read contents ∧
      (r, Stmt.bind "x" e 2) ∈ beginnings textBelowParameter ∧
      r.Binds textBelowParameter "x" before ∧ s ∈ contents.symbols ∧
      s.line = 1 ∧ s.column = 17 ∧ s.PointsBehind before ∧
      s.range.chars textBelowParameter = ['x'] ∧
      ¬ ∃ column, WordAt ['x'] (lastLine before) column := by
  obtain ⟨parsed, hparsed, -⟩ := exists_of_errors_nil
    (show (Parsed.ofSource textBelowParameter).toOption.map Parsed.errors = some [] by
      decide +kernel)
  obtain ⟨contents, hsurvey, -, hsymbols, hbindings⟩ :=
    definitions_are_found_where_their_names_come_first hparsed "file:///w/main.meow"
  obtain ⟨r, e, hmem, hrest⟩ := exists_of_any_isBinding
    (show (beginnings textBelowParameter).any (isBinding "x" 2 " = x_y;\n".toList) = true by
      decide +kernel)
  obtain ⟨before, s, hbinds, hs, -, hiff, hchars⟩ := hbindings r "x" e 2 hmem
  obtain rfl : before = "set f = function(x) \x7b x \x7d;\r\nset x_y = f; set ".toList :=
    hbinds.before_eq (by rw [hrest]; decide)
  have hmem' : s ∈ contents.symbols := by
    rw [hsymbols]
    exact List.mem_filterMap.mpr ⟨_, hmem, hs⟩
  have hfound : nameColumn (lines textBelowParameter) (2 : Int).toNat "x" = 17 := by
    decide +kernel
  have hline : s.line = 1 := by
    cases hs
    rfl
  have hcolumn : s.column = 17 := by
    cases hs
    simp only [hfound]
  have hpoints : s.PointsBehind "set f = function(x) \x7b x \x7d;\r\nset x_y = f; set ".toList :=
    ⟨hline.trans (by decide), hcolumn.trans (by decide)⟩
  exact ⟨parsed, contents, r, e, _, s, hparsed, hsurvey, hmem, hbinds, hmem', hline, hcolumn,
    hpoints, hchars hpoints, ((hiff (by decide)).mp hpoints).2⟩

def textBesideParameter : String := "set f = function(x) \x7b x \x7d; set x = 1;\n"

/-- A parameter that stands earlier on the line is pointed to instead. -/
theorem definitions_are_not_always_found :
    ¬ ∀ (uri text : String) (parsed : Parsed), Parsed.ofSource text = .ok parsed →
      parsed.errors = [] → ∀ r x e l, (r, Stmt.bind x e l) ∈ beginnings text → ∃ before s,
        r.Binds text x before ∧ Contents.symbol? uri (lines text) (.bind x e l) = some s ∧
        s.PointsBehind before := by
  intro h
  obtain ⟨parsed, hparsed, herrors⟩ := exists_of_errors_nil
    (show (Parsed.ofSource textBesideParameter).toOption.map Parsed.errors = some [] by
      decide +kernel)
  obtain ⟨r, e, hmem, hrest⟩ := exists_of_any_isBinding
    (show (beginnings textBesideParameter).any (isBinding "x" 1 " = 1;\n".toList) = true by
      decide +kernel)
  obtain ⟨before, s, hbinds, hs, -, hcolumn⟩ :=
    h "file:///w/main.meow" textBesideParameter parsed hparsed herrors r "x" e 1 hmem
  obtain rfl : before = "set f = function(x) \x7b x \x7d; set ".toList :=
    hbinds.before_eq (by rw [hrest]; decide)
  have hfound : nameColumn (lines textBesideParameter) (1 : Int).toNat "x" = 17 := by
    decide +kernel
  have hcolumn' : s.column = 17 := by
    cases hs
    simp only [hfound]
  exact absurd (hcolumn'.symm.trans hcolumn) (by decide)

end Editor

end MeowLang
