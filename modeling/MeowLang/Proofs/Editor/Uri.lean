import Mathlib.Data.List.TakeWhile
import MeowLang.Editor.Uri
import MeowLang.Proofs.Text.Utf8

/-! The address of a file names the file. A path is written octet by octet, with percent codes for
all but a few characters, so its address holds no mark that would end the path early, and reading
the codes gives the octets back. -/
namespace MeowLang.Uri

/-! ### Percent codes -/

theorem hex_two {n : Nat} (h : n < 256) :
    Text.hex 2 n = [Nat.digitChar (n / 16), Nat.digitChar (n % 16)] := by
  unfold Text.hex
  by_cases hn : n < 16
  · rw [Nat.toDigits_of_lt_base hn, Nat.div_eq_of_lt hn, Nat.mod_eq_of_lt hn]
    rfl
  · have hhigh : n / 16 < 16 := by omega
    rw [Nat.toDigits_of_base_le (by decide) (by omega), Nat.toDigits_of_lt_base hhigh]
    rfl

theorem hexDigit?_digitChar : ∀ d < 16, hexDigit? (Nat.digitChar d).toUpper = some d := by decide

theorem isPlain_octet : ∀ n < 256, isPlain (Char.ofNat n) = true →
    Char.ofNat n ≠ '%' ∧ (Char.ofNat n).toNat = n := by
  decide +kernel

/-- Reading an octet that was written gives the octet. -/
theorem octets_escapeOctet (b : UInt8) (rest : List Char) :
    octets (escapeOctet b ++ rest) = b :: octets rest := by
  have hb : b.toNat < 256 := b.toNat_lt
  unfold escapeOctet
  dsimp only
  split
  · rename_i hplain
    obtain ⟨hne, hnat⟩ := isPlain_octet b.toNat hb hplain
    have hread : octets (Char.ofNat b.toNat :: rest) =
        UInt8.ofNat (Char.ofNat b.toNat).toNat :: octets rest := by
      rw [octets]
      exact fun _ _ _ hc _ => hne hc
    rw [List.singleton_append, hread, hnat, UInt8.ofNat_toNat]
  · have hhigh := hexDigit?_digitChar (b.toNat / 16) (by omega)
    have hlow := hexDigit?_digitChar (b.toNat % 16) (by omega)
    have hvalue : b.toNat / 16 * 16 + b.toNat % 16 = b.toNat := by omega
    rw [hex_two hb]
    simp [octets, hhigh, hlow, hvalue]

theorem octets_escaped (bs : List UInt8) : octets (bs.flatMap escapeOctet) = bs := by
  induction bs with
  | nil => rfl
  | cons b bs ih => rw [List.flatMap_cons, octets_escapeOctet, ih]

/-- Percent codes are read as one run of octets as long as all characters are among the first
128. -/
theorem unescape_of_ascii (run cs : List Char) (h : ∀ c ∈ cs, c.toNat < 0x80) :
    unescape run cs = Text.Utf8.decodeLossy (octets (run.reverse ++ cs)) := by
  induction cs generalizing run with
  | nil => rw [unescape, List.append_nil]
  | cons c cs ih =>
    have hc : c.toNat < 0x80 := h c List.mem_cons_self
    rw [unescape, if_pos hc, ih (c :: run) fun d hd => h d (List.mem_cons_of_mem _ hd),
      List.reverse_cons, List.append_assoc, List.singleton_append]

/-! ### The address of a path -/

def escaped (path : String) : List Char := (Text.Utf8.encode path).flatMap escapeOctet

/-- No character of a written path is a blank, ends a path or is beyond the first 128. -/
theorem escapeOctet_marks : ∀ n < 256, (escapeOctet (UInt8.ofNat n)).all
    (fun c => 0x20 < c.toNat ∧ c.toNat < 0x80 ∧ c ≠ '#' ∧ c ≠ '?') = true := by
  decide +kernel

theorem escaped_marks {path : String} {c : Char} (h : c ∈ escaped path) :
    0x20 < c.toNat ∧ c.toNat < 0x80 ∧ c ≠ '#' ∧ c ≠ '?' := by
  obtain ⟨b, -, hc⟩ := List.mem_flatMap.mp h
  have hmarks := escapeOctet_marks b.toNat b.toNat_lt
  rw [UInt8.ofNat_toNat, List.all_eq_true] at hmarks
  exact of_decide_eq_true (hmarks c hc)

theorem unquote_escaped (path : String) : unquote (String.ofList (escaped path)) = path := by
  have hascii : ∀ c ∈ escaped path, c.toNat < 0x80 := fun c hc => (escaped_marks hc).2.1
  rw [unquote, String.toList_ofList, unescape_of_ascii [] _ hascii, List.reverse_nil,
    List.nil_append, escaped, octets_escaped, Text.Utf8.decodeLossy_encode, String.ofList_toList]

/-- The written form of an absolute path begins with a slash as well. -/
theorem escaped_of_absolute {path : String} {rest : List Char} (h : path.toList = '/' :: rest) :
    ∃ rest', escaped path = '/' :: rest' := by
  rw [escaped, Text.Utf8.encode_eq, h]
  exact ⟨_, rfl⟩

theorem split_ofPath {path : String} {rest : List Char} (h : path.toList = '/' :: rest) :
    split (ofPath path) = .ok ⟨"file", "", String.ofList (escaped path)⟩ := by
  obtain ⟨rest', hrest⟩ := escaped_of_absolute h
  have hfront : "file://".toList = ['f', 'i', 'l', 'e', ':', '/', '/'] := rfl
  have huri : (ofPath path).toList = "file://".toList ++ escaped path := by
    rw [ofPath, String.toList_append, hfront, String.toList_ofList]
    rfl
  have hblank : ∀ c ∈ (ofPath path).toList, 0x20 < c.toNat := by
    intro c hc
    rw [huri, List.mem_append] at hc
    rcases hc with hc | hc
    · have hall : "file://".toList.all (fun c => 0x20 < c.toNat) = true := by decide
      exact of_decide_eq_true (List.all_eq_true.mp hall c hc)
    · exact (escaped_marks hc).1
  have htext : ((ofPath path).toList.dropWhile (·.toNat ≤ 0x20)).filter
      (fun c => c != '\t' && c != '\n' && c != '\r') = (ofPath path).toList := by
    have hstart : (ofPath path).toList.dropWhile (·.toNat ≤ 0x20) = (ofPath path).toList := by
      rw [huri]
      rfl
    rw [hstart, List.filter_eq_self]
    intro c hc
    have hne (d : Char) (hd : d.toNat ≤ 0x20) : c ≠ d := by
      rintro rfl
      have := hblank c hc
      omega
    simp [hne '\t' (by decide), hne '\n' (by decide), hne '\r' (by decide)]
  have hscheme : scheme (ofPath path).toList = ("file".toList, '/' :: '/' :: escaped path) := by
    rw [huri]
    rfl
  have hauthority : authority ('/' :: '/' :: escaped path) = ([], escaped path) := by
    rw [hrest]
    rfl
  have hpath : ((escaped path).takeWhile (· != '#')).takeWhile (· != '?') = escaped path := by
    have hhash : (escaped path).takeWhile (· != '#') = escaped path :=
      List.takeWhile_eq_self_iff.mpr fun c hc => by simp [(escaped_marks hc).2.2.1]
    have hquery : (escaped path).takeWhile (· != '?') = escaped path :=
      List.takeWhile_eq_self_iff.mpr fun c hc => by simp [(escaped_marks hc).2.2.2]
    rw [hhash, hquery]
  have hplain : schemesWithParameters.contains (String.ofList "file".toList) = false := by decide
  simp only [split, htext, hscheme, hauthority, hpath, hplain]
  rfl

/-- The address of an absolute path names the path. -/
theorem path_ofPath {path : String} {rest : List Char} (h : path.toList = '/' :: rest) :
    Uri.path (ofPath path) = .ok (Path.tidy path) := by
  rw [Uri.path, split_ofPath h]
  exact congrArg (fun s => Except.ok (Path.tidy s)) (unquote_escaped path)

end MeowLang.Uri
