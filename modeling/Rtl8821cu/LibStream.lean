import Mathlib

/-! Stream ciphers: a byte string is combined with the bytes that a generator gives out. -/
namespace Rtl8821cu.StreamCipher

variable {σ : Type*} (gen : σ → BitVec 8 × σ)

/-- The bytes combined with those of the generator, and the generator's state behind them. -/
def cipher : σ → List (BitVec 8) → List (BitVec 8) × σ
  | s, [] => ([], s)
  | s, b :: l => ((b ^^^ (gen s).1) :: (cipher (gen s).2 l).1, (cipher (gen s).2 l).2)

@[simp] theorem length_cipher (s : σ) (l : List (BitVec 8)) :
    (cipher gen s l).1.length = l.length := by
  induction l generalizing s with
  | nil => rfl
  | cons b l ih => rw [cipher, List.length_cons, ih, List.length_cons]

/-- The cipher takes itself back, and ends in the same state. -/
theorem cipher_cipher (s : σ) (l : List (BitVec 8)) :
    cipher gen s (cipher gen s l).1 = (l, (cipher gen s l).2) := by
  induction l generalizing s with
  | nil => rfl
  | cons b l ih => simp only [cipher, ih, BitVec.xor_assoc, BitVec.xor_self, BitVec.xor_zero]

/-- One string after the other. -/
theorem cipher_append (s : σ) (l l' : List (BitVec 8)) :
    (cipher gen s (l ++ l')).1 =
      (cipher gen s l).1 ++ (cipher gen (cipher gen s l).2 l').1 := by
  induction l generalizing s with
  | nil => rfl
  | cons b l ih => simp only [List.cons_append, cipher, ih]

end Rtl8821cu.StreamCipher
