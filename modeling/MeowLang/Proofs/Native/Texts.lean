import MeowLang.Native.Call
import MeowLang.Proofs.Text.Split

/-! Functions on texts, as a program calls them. They take and give texts and arrays of texts, and
leave the world as it was. -/
namespace MeowLang.Native

/-- In every world the call gives the value, and changes nothing. -/
def Gives (f : Native) (args : List Value) (v : Value) : Prop :=
  ∀ w : World, f.call args w = (.value v, w)

def texts (parts : List String) : Value := .array (parts.map .string)

theorem gives_split (s sep : String) :
    Gives .split [.string s, .string sep] (texts (Text.split s sep)) := fun _ => rfl

theorem gives_join (parts : List String) (sep : String) :
    Gives .join [texts parts, .string sep] (.string (sep.intercalate parts)) := by
  have hdisplay : (parts.map Value.string).map Value.display = parts := by
    rw [List.map_map]
    exact List.map_id'' (fun _ => rfl) parts
  intro w
  simp only [call, pure?, callJoin, texts, hdisplay]
  rfl

theorem gives_replace (s : String) (old new : Value) :
    Gives .replace [.string s, old, new] (.string (Text.replace s old.display new.display)) :=
  fun _ => rfl

/-- A text cut at a separator is the join of its pieces, and no piece holds a separator that is not
empty. Texts joined by a character that none of them holds are the pieces of their join. -/
theorem splitting_and_joining_undo_each_other :
    (∀ s sep : String, ∃ pieces, Gives .split [.string s, .string sep] (texts pieces) ∧
      Gives .join [texts pieces, .string sep] (.string s) ∧
      (sep ≠ "" → ∀ p ∈ pieces, ¬ sep.toList <:+: p.toList)) ∧
    ∀ (c : Char) (parts : List String), parts ≠ [] → (∀ p ∈ parts, c ∉ p.toList) → ∃ s,
      Gives .join [texts parts, .string (String.singleton c)] (.string s) ∧
      Gives .split [.string s, .string (String.singleton c)] (texts parts) := by
  constructor
  · intro s sep
    have hjoin := gives_join (Text.split s sep) sep
    rw [Text.intercalate_split] at hjoin
    exact ⟨_, gives_split s sep, hjoin, fun hsep _ => Text.not_infix_of_mem_split hsep⟩
  · intro c parts hne hparts
    have hsplit := gives_split ((String.singleton c).intercalate parts) (String.singleton c)
    rw [Text.split_intercalate hne hparts] at hsplit
    exact ⟨_, gives_join parts _, hsplit⟩

/-- Two occurrences that overlap are cut at once, and empty texts between commas are kept. -/
theorem splitting_and_joining_undo_each_other_at_an_overlap :
    (∃ pieces, Gives .split [.string "baaab", .string "aa"] (texts pieces) ∧
      Gives .join [texts pieces, .string "aa"] (.string "baaab") ∧
      ∀ p ∈ pieces, ¬ "aa".toList <:+: p.toList) ∧
    ∃ s, Gives .join [texts ["", "x", ""], .string ","] (.string s) ∧
      Gives .split [.string s, .string ","] (texts ["", "x", ""]) := by
  obtain ⟨hsplit, hjoin⟩ := splitting_and_joining_undo_each_other
  obtain ⟨pieces, hpieces, htext, hfree⟩ := hsplit "baaab" "aa"
  exact ⟨⟨pieces, hpieces, htext, hfree (by decide)⟩,
    hjoin ',' ["", "x", ""] (by decide) (by decide)⟩

/-- Replacing the text of a value puts the new text between the pieces that the old one cuts. A
value without text is found before every character and at the end: its replacement stands between
all characters, before the first and behind the last. -/
theorem replacing_is_splitting_and_joining (s : String) (old new : Value) :
    (old.display ≠ "" → ∃ pieces result,
      Gives .split [.string s, .string old.display] (texts pieces) ∧
      Gives .join [texts pieces, .string new.display] (.string result) ∧
      Gives .replace [.string s, old, new] (.string result)) ∧
    (old.display = "" → ∃ pieces result,
      Gives .split [.string s, .string ""] (texts pieces) ∧
      Gives .join [texts ("" :: (pieces ++ [""])), .string new.display] (.string result) ∧
      Gives .replace [.string s, old, new] (.string result) ∧
      result.toList = s.toList.flatMap (fun c => new.display.toList ++ [c]) ++
        new.display.toList) := by
  have hreplace := gives_replace s old new
  constructor
  · intro hold
    rw [Text.replace_eq_intercalate_split hold] at hreplace
    exact ⟨_, _, gives_split s _, gives_join _ _, hreplace⟩
  · intro hold
    have hresult : Text.replace s old.display new.display =
        String.ofList (s.toList.flatMap (fun c => new.display.toList ++ [c]) ++
          new.display.toList) := by
      rw [hold]
      rfl
    refine ⟨_, _, gives_split s "", gives_join _ _, ?_, ?_⟩
    · rwa [hold, Text.replace_empty] at hreplace
    · rw [← Text.replace_empty, ← hold, hresult, String.toList_ofList]

/-- Of occurrences that overlap the first is replaced, and the new text is not looked into though it
holds the old one. The empty text is found around all characters. -/
theorem replacing_is_splitting_and_joining_by_a_longer_text :
    (∃ pieces result, Gives .split [.string "aaab", .string "aa"] (texts pieces) ∧
      Gives .join [texts pieces, .string "[aa]"] (.string result) ∧
      Gives .replace [.string "aaab", .string "aa", .array [.string "aa"]] (.string result)) ∧
    ∃ result, Gives .replace [.string "ab", .string "", .bool true] (.string result) ∧
      result = "trueatruebtrue" := by
  obtain ⟨hfound, -⟩ := replacing_is_splitting_and_joining "aaab" (.string "aa")
    (.array [.string "aa"])
  obtain ⟨-, hempty⟩ := replacing_is_splitting_and_joining "ab" (.string "") (.bool true)
  obtain ⟨pieces, result, -, -, hreplace, hresult⟩ := hempty rfl
  exact ⟨hfound (by decide), result, hreplace, String.toList_inj.mp hresult⟩

end MeowLang.Native
