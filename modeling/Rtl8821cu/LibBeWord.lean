import Mathlib

/-! Words of 32 bits as four bytes side by side, high byte first. -/
namespace Rtl8821cu.BeWord

/-- The word of four bytes, highest first. -/
def word (a b c d : BitVec 8) : BitVec 32 := a ++ b ++ c ++ d

section Word

variable (a b c d a' b' c' d' : BitVec 8)

theorem word_xor :
    word a b c d ^^^ word a' b' c' d' = word (a ^^^ a') (b ^^^ b') (c ^^^ c') (d ^^^ d') := by
  simp only [word, ← BitVec.xor_append]

theorem word_or :
    word a b c d ||| word a' b' c' d' = word (a ||| a') (b ||| b') (c ||| c') (d ||| d') := by
  simp only [word, ← BitVec.or_append]

theorem word_and :
    word a b c d &&& word a' b' c' d' = word (a &&& a') (b &&& b') (c &&& c') (d &&& d') := by
  simp only [word, ← BitVec.and_append]

theorem word_shiftLeft_8 : word a b c d <<< 8 = word b c d 0 := by
  ext i hi
  grind [word]

theorem word_shiftLeft_16 : word a b c d <<< 16 = word c d 0 0 := by
  ext i hi
  grind [word]

theorem word_shiftLeft_24 : word a b c d <<< 24 = word d 0 0 0 := by
  ext i hi
  grind [word]

theorem word_ushiftRight_8 : word a b c d >>> 8 = word 0 a b c := by
  ext i hi
  grind [word]

theorem word_ushiftRight_16 : word a b c d >>> 16 = word 0 0 a b := by
  ext i hi
  grind [word]

theorem word_ushiftRight_24 : word a b c d >>> 24 = word 0 0 0 a := by
  ext i hi
  grind [word]

theorem word_setWidth : (word a b c d).setWidth 8 = d := by
  ext i hi
  grind [word]

theorem setWidth_eq_word : a.setWidth 32 = word 0 0 0 a := by
  ext i hi
  grind [word]

theorem byte_and_zero : a &&& 0 = 0 := BitVec.and_zero

/-- The masks of single bytes. -/
theorem word_and_first : word a b c d &&& 0xff000000 = word a 0 0 0 := by
  have hmask : (0xff000000 : BitVec 32) = word (BitVec.allOnes 8) 0 0 0 := by decide
  simp only [hmask, word_and, BitVec.and_allOnes, byte_and_zero]

theorem word_and_second : word a b c d &&& 0x00ff0000 = word 0 b 0 0 := by
  have hmask : (0x00ff0000 : BitVec 32) = word 0 (BitVec.allOnes 8) 0 0 := by decide
  simp only [hmask, word_and, BitVec.and_allOnes, byte_and_zero]

theorem word_and_third : word a b c d &&& 0x0000ff00 = word 0 0 c 0 := by
  have hmask : (0x0000ff00 : BitVec 32) = word 0 0 (BitVec.allOnes 8) 0 := by decide
  simp only [hmask, word_and, BitVec.and_allOnes, byte_and_zero]

theorem word_and_last : word a b c d &&& 0x000000ff = word 0 0 0 d := by
  have hmask : (0x000000ff : BitVec 32) = word 0 0 0 (BitVec.allOnes 8) := by decide
  simp only [hmask, word_and, BitVec.and_allOnes, byte_and_zero]

theorem toNat_word_last : (word 0 0 0 d).toNat = d.toNat := by
  rw [← setWidth_eq_word, BitVec.toNat_setWidth]
  exact Nat.mod_eq_of_lt (by omega)

end Word

end Rtl8821cu.BeWord
