import Mathlib.Data.Int.Bitwise
import Mathlib.Data.Int.ModEq
import MeowLang.Value.Operation

/-! Bit operators. They work on integers with as many bits as these need, cut down to 64 bits at the
end; what they give is what a machine with words of 64 bits gives. -/
namespace MeowLang.Number

def IsWord (n : Int) : Prop := -2 ^ 63 ≤ n ∧ n ≤ 2 ^ 63 - 1

theorem minWord_eq : minWord = -2 ^ 63 := rfl

theorem maxWord_eq : maxWord = 2 ^ 63 - 1 := rfl

theorem isWord_toWord (x : Float) : IsWord (toWord x) := by
  simp only [IsWord, toWord, minWord_eq, maxWord_eq]
  split
  · omega
  · split
    · omega
    · split <;> omega

/-! ### Wrapping -/

theorem wrap_eq_iff (v w : Int) : wrap v = w ↔ IsWord w ∧ w ≡ v [ZMOD 2 ^ 64] := by
  have hpow : Int.pow 2 64 = 2 ^ 64 := rfl
  simp only [wrap, hpow, minWord_eq, IsWord, Int.ModEq]
  omega

theorem wrap_eq_toInt (n : Int) : wrap n = (BitVec.ofInt 64 n).toInt := by
  rw [wrap_eq_iff, BitVec.toInt_ofInt, IsWord]
  refine ⟨?_, Int.bmod_emod⟩
  have hle := Int.le_bmod (x := n) (m := 2 ^ 64) (by decide)
  have hlt := Int.bmod_lt (x := n) (m := 2 ^ 64) (by decide)
  omega

/-! ### Bits -/

theorem testBit_eq (a : Int) (i : Nat) :
    a.testBit i = ((magnitude a).testBit i ^^ decide (a < 0)) := by
  cases a with
  | ofNat m => simp [Int.testBit, magnitude, Int.not_lt_of_ge (Int.natCast_nonneg m)]
  | negSucc m => simp [Int.testBit, magnitude, Int.negSucc_lt_zero]

theorem testBit_bitwise (f : Bool → Bool → Bool) (a b : Int) (i : Nat) :
    (bitwise f a b).testBit i = f (a.testBit i) (b.testBit i) := by
  rw [testBit_eq a, testBit_eq b, bitwise]
  split
  · rename_i h
    simp only [Int.testBit]
    rw [Nat.testBit_bitwise (by simpa using h), Bool.not_not]
  · rename_i h
    simp only [Int.testBit]
    rw [Nat.testBit_bitwise (by simpa using h)]

theorem getElem_ofInt {w i : Nat} (hi : i < w) (a : Int) :
    (BitVec.ofInt w a)[i] = a.testBit i := by
  have hnat (m : Nat) : (BitVec.ofNat w m)[i] = m.testBit i := by
    rw [BitVec.getElem_eq_testBit_toNat, BitVec.toNat_ofNat, Nat.testBit_mod_two_pow]
    simp [hi]
  cases a with
  | ofNat m => simp [Int.testBit, hnat]
  | negSucc m => simp [Int.testBit, BitVec.ofInt_negSucc_eq_not_ofNat, hnat]

/-- The word of two integers combined bit by bit is their words combined bit by bit. -/
theorem wrap_bitwise {f : Bool → Bool → Bool} {a b : Int} {z : BitVec 64}
    (hz : ∀ (i : Nat) (hi : i < 64), z[i] = f (BitVec.ofInt 64 a)[i] (BitVec.ofInt 64 b)[i]) :
    wrap (bitwise f a b) = z.toInt := by
  rw [wrap_eq_toInt]
  congr 1
  ext i hi
  rw [hz i hi, getElem_ofInt hi, getElem_ofInt hi, getElem_ofInt hi, testBit_bitwise]

/-! ### Shifts -/

theorem bitwise_and_nonneg (a : Int) {b : Int} (hb : 0 ≤ b) : 0 ≤ bitwise and a b := by
  simp [bitwise, Int.not_lt_of_ge hb]

theorem testBit_toNat {a : Int} (ha : 0 ≤ a) (i : Nat) : a.toNat.testBit i = a.testBit i := by
  obtain ⟨m, rfl⟩ := Int.eq_ofNat_of_zero_le ha
  rfl

/-- The last six bits of an integer are its remainder, also of a negative one. -/
theorem shiftCount_eq (n : Int) : shiftCount n = (n % 64).toNat := by
  have hmask (i : Nat) : Int.testBit 63 i = decide (i < 6) := Nat.testBit_two_pow_sub_one 6 i
  have hword : (BitVec.ofInt 6 n).toNat = (n % 64).toNat := BitVec.toNat_ofInt n
  rw [← hword]
  apply Nat.eq_of_testBit_eq
  intro i
  rw [shiftCount, testBit_toNat (bitwise_and_nonneg n (by decide)), testBit_bitwise, hmask]
  by_cases hi : i < 6
  · rw [← getElem_ofInt hi, BitVec.getElem_eq_testBit_toNat]
    simp [hi]
  · rw [BitVec.testBit_toNat, BitVec.getLsbD_of_ge _ _ (Nat.le_of_not_lt hi)]
    simp [hi]

theorem ofInt_two_pow (w k : Nat) : BitVec.ofInt w (2 ^ k) = BitVec.twoPow w k := by
  rw [← BitVec.toNat_inj, BitVec.toNat_twoPow]
  norm_cast

theorem shiftLeftWord_eq (a b : Int) :
    shiftLeftWord a b = (BitVec.ofInt 64 a <<< (b % 64).toNat).toInt := by
  have hpow (k : Nat) : Int.pow 2 k = 2 ^ k := rfl
  rw [shiftLeftWord, wrap_eq_toInt, shiftCount_eq, hpow, BitVec.ofInt_mul, ofInt_two_pow,
    ← BitVec.shiftLeft_eq_mul_twoPow]

theorem shiftRightWord_eq {a : Int} (ha : IsWord a) (b : Int) :
    shiftRightWord a b = ((BitVec.ofInt 64 a).sshiftRight (b % 64).toNat).toInt := by
  have hword : (BitVec.ofInt 64 a).toInt = a := by
    rw [← wrap_eq_toInt, wrap_eq_iff]
    exact ⟨ha, rfl⟩
  have hquotient : a / Int.pow 2 (shiftCount b) =
      ((BitVec.ofInt 64 a).sshiftRight (b % 64).toNat).toInt := by
    rw [BitVec.toInt_sshiftRight, hword, Int.shiftRight_eq_div_pow, shiftCount_eq]
    norm_cast
  rw [shiftRightWord, hquotient, wrap_eq_toInt, BitVec.ofInt_toInt]

/-! ### Operators -/

def bits (x : Float) : BitVec 64 := BitVec.ofInt 64 (toWord x)

/-- Between two numbers the operator gives the number that `n` is rounded to, and `n` is what the
bits `z` stand for. -/
def ComesTo (op : Op) (x y : Float) (n : Int) (z : BitVec 64) : Prop :=
  Value.binary op (.number x) (.number y) = .ok (.number (Float.ofInt n)) ∧ n = z.toInt

/-- The operands of a bit operator are words. What it gives is a word too, before that is rounded to
a number: the one that the operation on bit vectors gives, where a shift goes as far as the other
operand modulo 64. Wrapping gives the one word that is congruent to an integer. -/
theorem bit_operators_are_machine_operations (x y : Float) :
    IsWord (toWord x) ∧ IsWord (toWord y) ∧
      ComesTo .andBits x y (andWord (toWord x) (toWord y)) (bits x &&& bits y) ∧
      ComesTo .orBits x y (orWord (toWord x) (toWord y)) (bits x ||| bits y) ∧
      ComesTo .xorBits x y (xorWord (toWord x) (toWord y)) (bits x ^^^ bits y) ∧
      ComesTo .shiftLeft x y (shiftLeftWord (toWord x) (toWord y))
        (bits x <<< (toWord y % 64).toNat) ∧
      ComesTo .shiftRight x y (shiftRightWord (toWord x) (toWord y))
        ((bits x).sshiftRight (toWord y % 64).toNat) ∧
      ∀ n w, wrap n = w ↔ IsWord w ∧ w ≡ n [ZMOD 2 ^ 64] := by
  refine ⟨isWord_toWord x, isWord_toWord y, ⟨rfl, ?_⟩, ⟨rfl, ?_⟩, ⟨rfl, ?_⟩, ⟨rfl, ?_⟩, ⟨rfl, ?_⟩,
    wrap_eq_iff⟩
  · exact wrap_bitwise fun _ => BitVec.getElem_and
  · exact wrap_bitwise fun _ => BitVec.getElem_or
  · exact wrap_bitwise fun _ => BitVec.getElem_xor
  · exact shiftLeftWord_eq _ _
  · exact shiftRightWord_eq (isWord_toWord x) _

end MeowLang.Number
