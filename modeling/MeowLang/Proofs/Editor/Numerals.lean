import MeowLang.Proofs.Editor.Update

/-! Malformed numerals in documents. A numeral that is the first or the second sign of a text stops
the indexing before the reading has begun. Any other one does not: what was known of the document is
kept, and so it is for every file that loads lead to. -/
namespace MeowLang

/-! ### Texts that cannot be begun -/

namespace Reader

theorem length_signs_of_ofFirst_error {cursor : Lexer.Cursor} {taken : Taken}
    (ht : cursor.Takes taken)
    (h : ∀ s behind, taken = (.ok s, behind) → s.terminal = .eof → behind.rest = [])
    {e : MalformedNumber} (herror : ofFirst taken h = .error e) : cursor.signs.length < 2 := by
  cases ht with
  | broken signs_eq fault_eq => simp [signs_eq]
  | @sign s behind ne_eof signs_eq fault_eq =>
    rcases take_cases s behind [] (h s behind rfl) with ⟨r, htake, -⟩ | ⟨_, -, hsigns, -⟩
    · rw [ofFirst, htake] at herror
      cases herror
    · simp [signs_eq, hsigns]
  | eof signs_eq fault_eq => simp [signs_eq]

/-- Reading starts with two signs, so it cannot start only if a numeral comes before the third. -/
theorem length_signs_of_start_error {source : String} {e : MalformedNumber}
    (h : start source = .error e) : (Lexer.Cursor.start source).signs.length < 2 :=
  length_signs_of_ofFirst_error (Lexer.Cursor.start source).takes_sign _ h

end Reader

namespace Editor

/-- A malformed numeral is the first or the second sign of a text. -/
def BreaksEarly (text : String) : Prop :=
  (Lexer.Cursor.start text).fault.isSome = true ∧ (Lexer.Cursor.start text).signs.length < 2

instance (text : String) : Decidable (BreaksEarly text) := inferInstanceAs (Decidable (_ ∧ _))

theorem exists_of_isOk {ε α : Type} {r : Except ε α} (h : r.isOk = true) : ∃ a, r = .ok a := by
  cases r with
  | error e => cases h
  | ok a => exact ⟨a, rfl⟩

theorem exists_error_of_not_isOk {ε α : Type} {r : Except ε α} (h : r.isOk = false) :
    ∃ e, r = .error e := by
  cases r with
  | error e => exact ⟨e, rfl⟩
  | ok a => cases h

section

variable {files : FileTree} {i : Index} {uri text document content : String} {e : MalformedNumber}

/-- A text with a malformed numeral is refused if it breaks early, and otherwise what was known of
the document is kept. -/
theorem survey_of_error (h : tokenize text = .error e) (document : String) :
    (BreaksEarly text ∧ survey document text = .refuse e) ∨
      (¬ BreaksEarly text ∧ survey document text = .keep e) := by
  have hfault : (Lexer.Cursor.start text).fault = some e := by
    rw [tokenize_eq] at h
    split at h
    · cases h
    · rename_i hfault
      cases h
      exact hfault
  have hsource : Parsed.ofSource text = .error e := by
    rcases Parsed.ofSource_cases text with ⟨e', he', hsource⟩ | ⟨tokens, _, _, _, htokens, -⟩
    · rw [h] at he'
      cases he'
      exact hsource
    · rw [h] at htokens
      cases htokens
  rcases Reader.start_cases text with ⟨r, hr, hsigns, hfault', -⟩ | ⟨e', hr, hfault'⟩
  · right
    constructor
    · rintro ⟨-, hlength⟩
      have htwo := r.two_le_length_of_fault (hfault'.trans hfault)
      rw [hsigns] at htwo
      omega
    · rw [Parsed.ofSource, hr] at hsource
      simp only at hsource
      simp only [survey, hr, hsource]
  · left
    rw [hfault] at hfault'
    cases hfault'
    exact ⟨⟨by rw [hfault]; rfl, Reader.length_signs_of_start_error hr⟩, by simp only [survey, hr]⟩

theorem symbols_survey_of_error (h : tokenize text = .error e) (document : String)
    (known : List Symbol) : (survey document text).symbols known = known := by
  rcases survey_of_error h document with ⟨-, hs⟩ | ⟨-, hs⟩ <;> rw [hs] <;> rfl

theorem breaksEarly_of_refuse (h : survey document text = .refuse e) : BreaksEarly text := by
  cases htokens : tokenize text with
  | ok tokens =>
    obtain ⟨contents, hread, -⟩ := exists_survey ⟨tokens, htokens⟩ document
    rw [h] at hread
    cases hread
  | error e' =>
    rcases survey_of_error htokens document with ⟨hearly, -⟩ | ⟨-, hkeep⟩
    · exact hearly
    · rw [h] at hkeep
      cases hkeep

theorem BreaksEarly.exists_refuse (h : BreaksEarly text) (document : String) :
    ∃ e, survey document text = .refuse e := by
  obtain ⟨e, hfault⟩ := Option.isSome_iff_exists.mp h.1
  have htokens : tokenize text = .error e := by rw [tokenize_eq, hfault]
  rcases survey_of_error htokens document with ⟨-, hs⟩ | ⟨hlate, -⟩
  · exact ⟨e, hs⟩
  · exact absurd h hlate

/-- A text with a malformed numeral is not looked through for loads. -/
theorem not_loads_of_error (h : tokenize text = .error e) (name : String) : ¬ Loads text name := by
  rw [← mem_includes_iff text text name]
  rcases survey_of_error h text with ⟨-, hs⟩ | ⟨-, hs⟩ <;> rw [hs] <;> exact List.not_mem_nil

theorem Followed.eq_self_of_error (h : tokenize text = .error e)
    (hfollowed : Followed files i uri text document content) : content = text := by
  induction hfollowed with
  | self => rfl
  | file origin loads _ _ _ _ ih =>
    subst ih
    exact absurd loads (not_loads_of_error h _)

/-- No numeral keeps a name from meaning a path. -/
theorem target_ne_malformedNumber {name : String} {r : Refusal}
    (h : Indexing.target files document name = .error r) (e : MalformedNumber) :
    r ≠ .halted (.malformedNumber e) := by
  rintro rfl
  have hresolve (p : String) :
      Indexing.resolve files p ≠ .error (.halted (.malformedNumber e)) := by
    unfold Indexing.resolve
    split <;> simp
  unfold Indexing.target at h
  cases hp : Uri.path document with
  | error fault => simp [hp, bind, Except.bind, Except.mapError] at h
  | ok p =>
    simp only [hp, bind, Except.bind, Except.mapError] at h
    split at h
    · rename_i hdocument
      cases h
      exact hresolve _ hdocument
    · exact hresolve _ h

end

/-! ### Indexing them -/

/-- A text that breaks early is not taken in. -/
theorem update_of_refuse {files : FileTree} {i : Index} {uri text : String} {e : MalformedNumber}
    (h : survey uri text = .refuse e) :
    Index.update files i uri text = (.error (.halted (.malformedNumber e)), ⟨i.claim uri, []⟩) := by
  rw [Index.update, Indexing.ampleDepth, Indexing.update_succ,
    Indexing.run_bind (Indexing.run_change _),
    Indexing.run_bind_error (Indexing.run_contents_refuse h)]

/-- A malformed numeral leaves the symbols of its document as they are: of the text that was taken
in, and of every file that loads lead to. -/
theorem Taken.symbols_of_error {files : FileTree} {d : Desk} {uri text document content : String}
    {z : Except Refusal Unit × Desk} {e : MalformedNumber} (h : Taken files d uri text z)
    (hreached : Reached files uri text document content) (he : tokenize content = .error e) :
    z.2.index.symbols document = d.index.symbols document := by
  by_cases huri : document = uri
  · subst huri
    rw [hreached.eq_text rfl] at he
    rw [Index.symbols_of_lookup h.self, symbols_survey_of_error he]
  · rcases h.symbols_cases huri with heq | ⟨hbefore, content', hfollowed, hafter⟩
    · exact heq
    · rw [hafter, hbefore, hfollowed.reached.unique hreached, symbols_survey_of_error he]

/-- If no document that is read begins with a malformed numeral, only a load that means no path can
stop the indexing. -/
theorem Taken.exists_load_of_error {files : FileTree} {d : Desk} {uri text : String}
    {z : Except Refusal Unit × Desk} {r : Refusal} (h : Taken files d uri text z)
    (hearly : ∀ document content, Followed files d.index uri text document content →
      ¬ BreaksEarly content) (hr : z.1 = .error r) :
    ∃ document content name, Followed files d.index uri text document content ∧
      Loads content name ∧ Indexing.target files document name = .error r := by
  obtain ⟨document, content, hfollowed, hobstacle⟩ := h.refused r hr
  cases hobstacle with
  | numeral refused => exact absurd (breaksEarly_of_refuse refused) (hearly _ _ hfollowed)
  | load loads target => exact ⟨document, content, _, hfollowed, loads, target⟩

/-- Whatever document has a malformed numeral, the text that is taken in or a file that loads lead
to, has the symbols that it had before. And if no document that is read begins with one, such
numerals do not stop the indexing: only a load that means no path does. -/
theorem malformed_numerals_keep_symbols (files : FileTree) (i : Index) (uri text : String) :
    (∀ bound, Indexing.ampleDepth files ≤ bound →
      (Indexing.update files bound uri text).run ⟨i, []⟩ = Index.update files i uri text) ∧
    (∀ document content e, Reached files uri text document content → tokenize content = .error e →
      (Index.update files i uri text).2.index.symbols document = i.symbols document) ∧
    ((∀ document content, Followed files i uri text document content → ¬ BreaksEarly content) →
      (∀ r, (Index.update files i uri text).1 = .error r →
        (∀ e, r ≠ .halted (.malformedNumber e)) ∧
        ∃ document content name, Followed files i uri text document content ∧ Loads content name ∧
          Indexing.target files document name = .error r) ∧
      ∀ e, tokenize text = .error e → (Index.update files i uri text).1 = .ok ()) := by
  have htaken := taken_update files i uri text
  refine ⟨fun bound hbound => update_of_ampleDepth_le hbound i uri text,
    fun document content e hreached he => htaken.symbols_of_error hreached he,
    fun hearly => ⟨fun r hr => ?_, fun e he => ?_⟩⟩
  · obtain ⟨document, content, name, hfollowed, hloads, htarget⟩ :=
      htaken.exists_load_of_error hearly hr
    exact ⟨target_ne_malformedNumber htarget, document, content, name, hfollowed, hloads, htarget⟩
  · cases hanswer : (Index.update files i uri text).1 with
    | ok => rfl
    | error r =>
      obtain ⟨document, content, name, hfollowed, hloads, -⟩ :=
        htaken.exists_load_of_error hearly hanswer
      rw [hfollowed.eq_self_of_error he] at hloads
      exact absurd hloads (not_loads_of_error he name)

def treeOfNumeral : FileTree :=
  ⟨[(["w"], .directory), (["w", "lib.meow"], .file (Text.Utf8.encode "set x = 1.2.3;"))], ["w"]⟩

/-- The numeral stands in a library: it stops nothing, and the library has no symbols. -/
theorem malformed_numerals_keep_symbols_in_a_library :
    (∀ document content,
      Followed treeOfNumeral .empty uriOfCycle "include \"lib\";" document content →
        ¬ BreaksEarly content) ∧
    (Index.update treeOfNumeral .empty uriOfCycle "include \"lib\";").2.index.symbols
      (Uri.ofPath "/w/lib.meow") = [] ∧
    ∀ e, (Index.update treeOfNumeral .empty uriOfCycle "include \"lib\";").1 ≠
      .error (.halted (.malformedNumber e)) := by
  let documents := [(uriOfCycle, "include \"lib\";"), (Uri.ofPath "/w/lib.meow", "set x = 1.2.3;")]
  have hclosed : isClosed treeOfNumeral uriOfCycle documents = true := by decide +kernel
  have hearly : ∀ p ∈ documents, ¬ BreaksEarly p.2 := by decide +kernel
  have hfollowed : ∀ document content,
      Followed treeOfNumeral .empty uriOfCycle "include \"lib\";" document content →
        ¬ BreaksEarly content := fun document content h =>
    hearly _ (h.reached.mem_of_isClosed hclosed List.mem_cons_self)
  have hloads : Loads "include \"lib\";" "lib" :=
    (mem_includes_iff uriOfCycle _ _).mp (by decide +kernel)
  have htarget : (Indexing.target treeOfNumeral uriOfCycle "lib").toOption =
      some "/w/lib.meow" := by decide +kernel
  have hread : (treeOfNumeral.readText "/w/lib.meow").toOption = some "set x = 1.2.3;" := by
    decide +kernel
  have hreached : Reached treeOfNumeral uriOfCycle "include \"lib\";" (Uri.ofPath "/w/lib.meow")
      "set x = 1.2.3;" :=
    Reached.self.file hloads (eq_ok_of_toOption htarget) (by decide +kernel)
      (eq_ok_of_toOption hread)
  obtain ⟨e, he⟩ := exists_error_of_not_isOk (show (tokenize "set x = 1.2.3;").isOk = false by
    decide +kernel)
  obtain ⟨-, hkept, hindexed⟩ :=
    malformed_numerals_keep_symbols treeOfNumeral .empty uriOfCycle "include \"lib\";"
  exact ⟨hfollowed, hkept _ _ e hreached he, fun e he => ((hindexed hfollowed).1 _ he).1 e rfl⟩

/-- A numeral at the very start of a text is not kept from stopping the indexing. -/
theorem malformed_numerals_stop_indexing :
    ¬ ∀ (files : FileTree) (i : Index) (uri text : String) (e : MalformedNumber),
      (Index.update files i uri text).1 ≠ .error (.halted (.malformedNumber e)) := by
  intro h
  have hearly : BreaksEarly "1.2.3" := by decide +kernel
  obtain ⟨e, hsurvey⟩ := hearly.exists_refuse uriOfCycle
  apply h treeOfNumeral ⟨[(uriOfCycle, [⟨"x", uriOfCycle, 0, 4, none⟩])], []⟩ uriOfCycle "1.2.3" e
  rw [update_of_refuse hsurvey]

end Editor

end MeowLang
