import MeowLang.Text.Utf8

/-! Reading octets undoes writing them, and reads nothing else. The octets of a character lead the
strict reading through one state for each of them and back between characters, and no other octets
do. What the strict reading accepts, the lossy one reads as the same characters. -/
namespace MeowLang.Text.Utf8

variable {b low high bits read more position : Nat} {first : UInt8} {rest : List UInt8}

theorem toNat_octet (h : b < 256) : (UInt8.ofNat b).toNat = b := by
  rw [UInt8.toNat_ofNat']
  exact Nat.mod_eq_of_lt h

/-! ### One octet -/

theorem decodeFrom_single (h : b < 0x80) :
    decodeFrom .between position (UInt8.ofNat b :: rest) =
      (decodeFrom .between (position + 1) rest).map (Char.ofNat b :: ·) := by
  have hb : (UInt8.ofNat b).toNat = b := toNat_octet (by omega)
  simp [decodeFrom, lead?, hb, h]

theorem decodeFrom_lead (hb : b < 256) (hl : lead? b = some ⟨bits, more + 1, low, high⟩) :
    decodeFrom .between position (UInt8.ofNat b :: rest) =
      decodeFrom (.inside (UInt8.ofNat b) bits 1 (more + 1) low high) (position + 1) rest := by
  simp [decodeFrom, toNat_octet hb, hl]

theorem decodeFrom_next (hb : b < 256) (hlow : low ≤ b) (hhigh : b ≤ high) :
    decodeFrom (.inside first bits read (more + 2) low high) position (UInt8.ofNat b :: rest) =
      decodeFrom (.inside first (bits * 0x40 + b % 0x40) (read + 1) (more + 1) 0x80 0xbf)
        (position + 1) rest := by
  simp [decodeFrom, toNat_octet hb, hlow, hhigh]

theorem decodeFrom_last (hb : b < 256) (hlow : low ≤ b) (hhigh : b ≤ high) :
    decodeFrom (.inside first bits read 1 low high) position (UInt8.ofNat b :: rest) =
      (decodeFrom .between (position + 1) rest).map (Char.ofNat (bits * 0x40 + b % 0x40) :: ·) := by
  simp [decodeFrom, toNat_octet hb, hlow, hhigh]

/-! ### One character -/

theorem decodeFrom_two {v : Nat} (hv : 0x80 ≤ v) (hv' : v < 0x800) :
    decodeFrom .between position
        (UInt8.ofNat (v / 64 % 0x20 + 0xc0) :: UInt8.ofNat (v % 0x40 + 0x80) :: rest) =
      (decodeFrom .between (position + 2) rest).map (Char.ofNat v :: ·) := by
  have hl : lead? (v / 64 % 0x20 + 0xc0) =
      some ⟨(v / 64 % 0x20 + 0xc0) % 0x20, 1, 0x80, 0xbf⟩ := by
    rw [lead?, if_neg (by omega), if_neg (by omega), if_pos (by omega)]
  rw [decodeFrom_lead (by omega) hl, decodeFrom_last (by omega) (by omega) (by omega)]
  have hbits : (v / 64 % 0x20 + 0xc0) % 0x20 * 0x40 + (v % 0x40 + 0x80) % 0x40 = v := by omega
  rw [hbits]

/-- What the first of three octets announces lets the second one in and holds the high bits. -/
theorem lead?_three {v : Nat} (hv : 0x800 ≤ v) (hv' : v < 0x10000)
    (hs : v < 0xd800 ∨ 0xdfff < v) :
    ∃ low high, lead? (v / 4096 % 0x10 + 0xe0) = some ⟨v / 4096, 2, low, high⟩ ∧
      low ≤ v / 64 % 0x40 + 0x80 ∧ v / 64 % 0x40 + 0x80 ≤ high := by
  have hbits : (v / 4096 % 0x10 + 0xe0) % 0x10 = v / 4096 := by omega
  by_cases h0 : v / 4096 % 0x10 + 0xe0 = 0xe0
  · refine ⟨0xa0, 0xbf, ?_, by omega, by omega⟩
    rw [h0, show v / 4096 = 0 by omega]
    rfl
  by_cases hd : v / 4096 % 0x10 + 0xe0 = 0xed
  · refine ⟨0x80, 0x9f, ?_, by omega, by omega⟩
    rw [hd, show v / 4096 = 0xd by omega]
    rfl
  · refine ⟨0x80, 0xbf, ?_, by omega, by omega⟩
    rw [lead?, if_neg (by omega), if_neg (by omega), if_neg (by omega), if_neg h0, if_neg hd,
      if_pos (by omega), hbits]

theorem decodeFrom_three {v : Nat} (hv : 0x800 ≤ v) (hv' : v < 0x10000)
    (hs : v < 0xd800 ∨ 0xdfff < v) :
    decodeFrom .between position
        (UInt8.ofNat (v / 4096 % 0x10 + 0xe0) :: UInt8.ofNat (v / 64 % 0x40 + 0x80) ::
          UInt8.ofNat (v % 0x40 + 0x80) :: rest) =
      (decodeFrom .between (position + 3) rest).map (Char.ofNat v :: ·) := by
  obtain ⟨low, high, hl, hlow, hhigh⟩ := lead?_three hv hv' hs
  rw [decodeFrom_lead (by omega) hl, decodeFrom_next (by omega) hlow hhigh,
    decodeFrom_last (by omega) (by omega) (by omega)]
  have hbits : (v / 4096 * 0x40 + (v / 64 % 0x40 + 0x80) % 0x40) * 0x40 +
      (v % 0x40 + 0x80) % 0x40 = v := by omega
  rw [hbits]

/-- What the first of four octets announces lets the second one in and holds the high bits. -/
theorem lead?_four {v : Nat} (hv : 0x10000 ≤ v) (hv' : v < 0x110000) :
    ∃ low high, lead? (v / 262144 % 8 + 0xf0) = some ⟨v / 262144, 3, low, high⟩ ∧
      low ≤ v / 4096 % 0x40 + 0x80 ∧ v / 4096 % 0x40 + 0x80 ≤ high := by
  have hbits : (v / 262144 % 8 + 0xf0) % 8 = v / 262144 := by omega
  by_cases h0 : v / 262144 % 8 + 0xf0 = 0xf0
  · refine ⟨0x90, 0xbf, ?_, by omega, by omega⟩
    rw [h0, show v / 262144 = 0 by omega]
    rfl
  by_cases h4 : v / 262144 % 8 + 0xf0 = 0xf4
  · refine ⟨0x80, 0x8f, ?_, by omega, by omega⟩
    rw [h4, show v / 262144 = 4 by omega]
    rfl
  · refine ⟨0x80, 0xbf, ?_, by omega, by omega⟩
    rw [lead?, if_neg (by omega), if_neg (by omega), if_neg (by omega), if_neg (by omega),
      if_neg (by omega), if_neg (by omega), if_neg h0, if_pos (by omega), hbits]

theorem decodeFrom_four {v : Nat} (hv : 0x10000 ≤ v) (hv' : v < 0x110000) :
    decodeFrom .between position
        (UInt8.ofNat (v / 262144 % 8 + 0xf0) :: UInt8.ofNat (v / 4096 % 0x40 + 0x80) ::
          UInt8.ofNat (v / 64 % 0x40 + 0x80) :: UInt8.ofNat (v % 0x40 + 0x80) :: rest) =
      (decodeFrom .between (position + 4) rest).map (Char.ofNat v :: ·) := by
  obtain ⟨low, high, hl, hlow, hhigh⟩ := lead?_four hv hv'
  rw [decodeFrom_lead (by omega) hl, decodeFrom_next (by omega) hlow hhigh,
    decodeFrom_next (by omega) (by omega) (by omega),
    decodeFrom_last (by omega) (by omega) (by omega)]
  have hbits : ((v / 262144 * 0x40 + (v / 4096 % 0x40 + 0x80) % 0x40) * 0x40 +
      (v / 64 % 0x40 + 0x80) % 0x40) * 0x40 + (v % 0x40 + 0x80) % 0x40 = v := by omega
  rw [hbits]

theorem decodeFrom_char (c : Char) (position : Nat) (rest : List UInt8) :
    ∃ position', decodeFrom .between position (String.utf8EncodeChar c ++ rest) =
      (decodeFrom .between position' rest).map (c :: ·) := by
  have hvalid : c.val.toNat < 0xd800 ∨ 0xdfff < c.val.toNat ∧ c.val.toNat < 0x110000 := c.valid
  have hc : Char.ofNat c.val.toNat = c := Char.ofNat_toNat c
  fun_cases String.utf8EncodeChar c with
  | case1 v h1 => exact ⟨_, hc ▸ decodeFrom_single (b := v) (by omega)⟩
  | case2 v h1 h2 => exact ⟨_, hc ▸ decodeFrom_two (v := v) (by omega) (by omega)⟩
  | case3 v h1 h2 h3 => exact ⟨_, hc ▸ decodeFrom_three (v := v) (by omega) (by omega) (by omega)⟩
  | case4 v h1 h2 h3 => exact ⟨_, hc ▸ decodeFrom_four (v := v) (by omega) (by omega)⟩

/-! ### Whole texts -/

theorem decodeFrom_chars (cs : List Char) (position : Nat) :
    decodeFrom .between position (cs.flatMap String.utf8EncodeChar) = .ok cs := by
  induction cs generalizing position with
  | nil => rfl
  | cons c cs ih =>
    obtain ⟨position', h⟩ := decodeFrom_char c position (cs.flatMap String.utf8EncodeChar)
    rw [List.flatMap_cons, h, ih]
    rfl

theorem toList_loop (bs : ByteArray) (i : Nat) (r : List UInt8) :
    ByteArray.toList.loop bs i r = r.reverse ++ bs.data.toList.drop i := by
  fun_induction ByteArray.toList.loop bs i r with
  | case1 i r h ih =>
    have hi : i < bs.data.toList.length := h
    rw [ih, List.drop_eq_getElem_cons hi, List.reverse_cons, List.append_assoc]
    simp [ByteArray.get!, h]
  | case2 i r h =>
    have hi : bs.data.toList.length ≤ i := Nat.le_of_not_lt h
    rw [List.drop_eq_nil_of_le hi, List.append_nil]

theorem encode_eq (s : String) : encode s = s.toList.flatMap String.utf8EncodeChar := by
  have hbytes : s.toUTF8 = (s.toList.flatMap String.utf8EncodeChar).toByteArray :=
    String.utf8Encode_toList.symm
  rw [encode, ByteArray.toList, toList_loop, hbytes, List.toList_data_toByteArray]
  rfl

theorem decode_encode (s : String) : decode (encode s) = .ok s := by
  rw [decode, encode_eq, decodeFrom_chars]
  exact congrArg Except.ok String.ofList_toList

theorem map_ok {f : List Char → List Char} {r : Except Fault (List Char)} {cs : List Char}
    (h : r.map f = .ok cs) : ∃ ds, r = .ok ds ∧ f ds = cs := by
  cases r with
  | error e => cases h
  | ok ds => exact ⟨ds, rfl, Except.ok.inj h⟩

/-- What is read without a fault is read so by the lossy reading too. -/
theorem decodeLossyFrom_of_ok {state : State} {octets : List UInt8} {cs : List Char}
    (h : decodeFrom state position octets = .ok cs) : decodeLossyFrom state octets = cs := by
  induction octets generalizing state position cs with
  | nil =>
    cases state with
    | between =>
      cases h
      rfl
    | inside => cases h
  | cons b rest ih =>
    cases state with
    | between =>
      simp only [decodeFrom, decodeLossyFrom, begin] at h ⊢
      split at h
      · cases h
      · split at h <;> rename_i hm <;> simp only [hm]
        · obtain ⟨ds, hds, rfl⟩ := map_ok h
          simp [ih hds]
        · exact ih h
    | inside first bits read more low high =>
      simp only [decodeFrom, decodeLossyFrom] at h ⊢
      split at h
      · split at h <;> rename_i hrange hm <;> simp only [hrange, hm]
        · obtain ⟨ds, hds, rfl⟩ := map_ok h
          simp [ih hds]
        · exact ih h
      · cases h

theorem decodeLossy_encode (s : String) : decodeLossy (encode s) = s.toList := by
  rw [encode_eq]
  exact decodeLossyFrom_of_ok (decodeFrom_chars s.toList 0)

/-! ### Nothing else is read -/

/-- The octets `front`, whose bits are `bits`, and any `more` octets behind them, the first of
them in a range, are those of a character. -/
def Completes (front : List UInt8) (bits : Nat) : Nat → Nat → Nat → Prop
  | 0, _, _ => front = String.utf8EncodeChar (Char.ofNat bits)
  | more + 1, low, high => ∀ b : UInt8, low ≤ b.toNat → b.toNat ≤ high →
      Completes (front ++ [b]) (bits * 0x40 + b.toNat % 0x40) more 0x80 0xbf

theorem eq_octet {b : UInt8} {n : Nat} (h : n = b.toNat) : b = UInt8.ofNat n := by
  rw [h, UInt8.ofNat_toNat]

theorem toNat_ofNat {v : Nat} (hv : v < 0xd800 ∨ 0xdfff < v ∧ v < 0x110000) :
    (Char.ofNat v).val.toNat = v := by
  have hvalid : v.isValidChar := hv
  rw [Char.ofNat, dif_pos hvalid]
  rfl

variable {b b₁ b₂ b₃ : UInt8} {v : Nat}

theorem octets_one (hv : v < 0x80) (h : v = b.toNat) :
    [b] = String.utf8EncodeChar (Char.ofNat v) := by
  have hn : (Char.ofNat v).val.toNat = v := toNat_ofNat (by omega)
  simp only [String.utf8EncodeChar, hn]
  rw [if_pos (by omega), ← eq_octet h]

theorem octets_two (hv : 0x80 ≤ v) (hv' : v < 0x800) (h : v / 64 % 0x20 + 0xc0 = b.toNat)
    (h₁ : v % 0x40 + 0x80 = b₁.toNat) : [b, b₁] = String.utf8EncodeChar (Char.ofNat v) := by
  have hn : (Char.ofNat v).val.toNat = v := toNat_ofNat (by omega)
  simp only [String.utf8EncodeChar, hn]
  rw [if_neg (by omega), if_pos (by omega), ← eq_octet h, ← eq_octet h₁]

theorem octets_three (hv : 0x800 ≤ v) (hv' : v < 0x10000) (hs : v < 0xd800 ∨ 0xdfff < v)
    (h : v / 4096 % 0x10 + 0xe0 = b.toNat) (h₁ : v / 64 % 0x40 + 0x80 = b₁.toNat)
    (h₂ : v % 0x40 + 0x80 = b₂.toNat) : [b, b₁, b₂] = String.utf8EncodeChar (Char.ofNat v) := by
  have hn : (Char.ofNat v).val.toNat = v := toNat_ofNat (by omega)
  simp only [String.utf8EncodeChar, hn]
  rw [if_neg (by omega), if_neg (by omega), if_pos (by omega), ← eq_octet h, ← eq_octet h₁,
    ← eq_octet h₂]

theorem octets_four (hv : 0x10000 ≤ v) (hv' : v < 0x110000)
    (h : v / 262144 % 8 + 0xf0 = b.toNat) (h₁ : v / 4096 % 0x40 + 0x80 = b₁.toNat)
    (h₂ : v / 64 % 0x40 + 0x80 = b₂.toNat) (h₃ : v % 0x40 + 0x80 = b₃.toNat) :
    [b, b₁, b₂, b₃] = String.utf8EncodeChar (Char.ofNat v) := by
  have hn : (Char.ofNat v).val.toNat = v := toNat_ofNat (by omega)
  simp only [String.utf8EncodeChar, hn]
  rw [if_neg (by omega), if_neg (by omega), if_neg (by omega), ← eq_octet h, ← eq_octet h₁,
    ← eq_octet h₂, ← eq_octet h₃]

theorem completes_two {bits : Nat} (hbits : bits = b.toNat % 0x20) (hl : 0xc2 ≤ b.toNat)
    (hr : b.toNat < 0xe0) : Completes [b] bits 1 0x80 0xbf := by
  intro b₁ h₁ h₁'
  apply octets_two <;> omega

theorem completes_three {bits low high : Nat} (hbits : bits = b.toNat % 0x10)
    (hl : 0xe0 ≤ b.toNat) (hr : b.toNat < 0xf0) (hlow : 0x80 ≤ low) (hhigh : high ≤ 0xbf)
    (hshort : b.toNat = 0xe0 → low = 0xa0) (hsurrogate : b.toNat = 0xed → high = 0x9f) :
    Completes [b] bits 2 low high := by
  intro b₁ h₁ h₁' b₂ h₂ h₂'
  apply octets_three <;> omega

theorem completes_four {bits low high : Nat} (hbits : bits = b.toNat % 8)
    (hl : 0xf0 ≤ b.toNat) (hr : b.toNat ≤ 0xf4) (hlow : 0x80 ≤ low) (hhigh : high ≤ 0xbf)
    (hshort : b.toNat = 0xf0 → low = 0x90) (hbeyond : b.toNat = 0xf4 → high = 0x8f) :
    Completes [b] bits 3 low high := by
  intro b₁ h₁ h₁' b₂ h₂ h₂' b₃ h₃ h₃'
  apply octets_four <;> omega

theorem completes_lead {l : Lead} (h : lead? b.toNat = some l) :
    Completes [b] l.bits l.more l.low l.high := by
  unfold lead? at h
  repeat' split at h
  all_goals cases h
  all_goals dsimp only
  · exact octets_one (by omega) rfl
  · apply completes_two <;> omega
  iterate 3 apply completes_three <;> omega
  all_goals apply completes_four <;> omega

/-- The octets that have been read of the character that a reading is in. -/
def State.Holds (front : List UInt8) : State → Prop
  | between => front = []
  | inside _ bits _ more low high => more ≠ 0 ∧ Completes front bits more low high

theorem State.holds_between : between.Holds [] := rfl

theorem octets_of_decodeFrom {state : State} {front octets : List UInt8} {cs : List Char}
    (hs : state.Holds front) (h : decodeFrom state position octets = .ok cs) :
    front ++ octets = cs.flatMap String.utf8EncodeChar := by
  induction octets generalizing state front position cs with
  | nil =>
    cases state with
    | between =>
      cases h
      rw [show front = [] from hs]
      rfl
    | inside => cases h
  | cons b rest ih =>
    cases state with
    | between =>
      obtain rfl : front = [] := hs
      simp only [decodeFrom] at h
      split at h
      · cases h
      rename_i l hl
      have hlead : Completes [b] l.bits l.more l.low l.high := completes_lead hl
      split at h
      · rename_i hm
        obtain ⟨ds, hds, rfl⟩ := map_ok h
        rw [hm] at hlead
        have hrest := ih State.holds_between hds
        rw [List.flatMap_cons, ← hrest, ← show [b] = _ from hlead]
        rfl
      · rename_i hm
        have hinside : (State.inside b l.bits 1 l.more l.low l.high).Holds [b] := ⟨hm, hlead⟩
        exact ih hinside h
    | inside first bits read more low high =>
      obtain ⟨hm, hc⟩ := hs
      obtain ⟨more, rfl⟩ := Nat.exists_eq_succ_of_ne_zero hm
      simp only [decodeFrom] at h
      split at h
      · rename_i hrange
        rw [Bool.and_eq_true, decide_eq_true_eq, decide_eq_true_eq] at hrange
        have hnext := hc b hrange.1 hrange.2
        rw [List.append_cons]
        split at h
        · rename_i hone
          obtain rfl : more = 0 := by omega
          obtain ⟨ds, hds, rfl⟩ := map_ok h
          have hrest := ih State.holds_between hds
          rw [List.flatMap_cons, ← hrest, ← show front ++ [b] = _ from hnext]
          rfl
        · rename_i hone
          have hmore : more ≠ 0 := by omega
          have hinside : (State.inside first (bits * 0x40 + b.toNat % 0x40) (read + 1) more
              0x80 0xbf).Holds (front ++ [b]) := ⟨hmore, hnext⟩
          exact ih hinside h
      · cases h

/-- The octets of a text are those that are read as it, and no others. -/
theorem decode_eq_ok_iff {octets : List UInt8} {s : String} :
    decode octets = .ok s ↔ octets = encode s := by
  constructor
  · intro h
    cases hd : decodeFrom .between 0 octets with
    | error fault =>
      rw [decode, hd] at h
      cases h
    | ok cs =>
      rw [decode, hd] at h
      cases h
      have hoctets := octets_of_decodeFrom State.holds_between hd
      rw [encode_eq, String.toList_ofList]
      exact hoctets
  · rintro rfl
    exact decode_encode s

end MeowLang.Text.Utf8
