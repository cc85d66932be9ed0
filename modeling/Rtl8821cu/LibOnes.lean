import Rtl8821cu.LibBytes
import Rtl8821cu.LibStore

/-! Ones-complement sums of the 16-bit words in a memory of bytes. -/
namespace Rtl8821cu.OnesComplement
open Store Bytes

/-- The carries of a sum are added to its low 16 bits until there are none. -/
def fold (sum : ℕ) : ℕ :=
  if sum / 65536 = 0 then sum else fold (sum % 65536 + sum / 65536)
termination_by sum
decreasing_by omega

/-- The word at an address, high byte first. -/
def word (m : ℕ → BitVec 8) (a : ℕ) : ℕ := (m a).toNat * 256 + (m (a + 1)).toNat

/-- A word is written, high byte first. -/
def setWord (m : ℕ → BitVec 8) (a v : ℕ) : ℕ → BitVec 8 := store m a (be16 v)

/-- The sum of the words in `n` bytes; an odd last byte is the high one of its word. -/
def sumAt (m : ℕ → BitVec 8) (a : ℕ) : ℕ → ℕ
  | 0 => 0
  | 1 => (m a).toNat * 256
  | n + 2 => word m a + sumAt m (a + 2) n

theorem fold_lt (sum : ℕ) : fold sum < 65536 := by
  fun_induction fold sum with
  | case1 sum h => omega
  | case2 sum h ih => exact ih

theorem fold_mod (sum : ℕ) : fold sum % 65535 = sum % 65535 := by
  fun_induction fold sum with
  | case1 sum h => rfl
  | case2 sum h ih =>
    rw [ih]
    omega

theorem fold_pos {sum : ℕ} (hpos : 0 < sum) : 0 < fold sum := by
  fun_induction fold sum with
  | case1 sum h => exact hpos
  | case2 sum h ih => exact ih (by omega)

/-- A sum folds to all ones where it is a multiple of them. -/
theorem fold_eq_max_iff {sum : ℕ} (hpos : 0 < sum) : fold sum = 65535 ↔ sum % 65535 = 0 := by
  have hlt := fold_lt sum
  have hmod := fold_mod sum
  have := fold_pos hpos
  omega

/-- Numbers without a common bit. -/
theorem or_eq_add {x y : ℕ} (h : x &&& y = 0) : x ||| y = x + y := by
  have hlt : x + y < 2 ^ (x + y) := Nat.lt_two_pow_self
  have hx : x % 2 ^ (x + y) = x := Nat.mod_eq_of_lt (by omega)
  have hy : y % 2 ^ (x + y) = y := Nat.mod_eq_of_lt (by omega)
  have hadd := BitVec.add_eq_or_of_and_eq_zero (BitVec.ofNat (x + y) x) (BitVec.ofNat (x + y) y)
    (BitVec.eq_of_toNat_eq (by simp [hx, hy, h]))
  simpa [hx, hy, Nat.mod_eq_of_lt hlt] using (congrArg BitVec.toNat hadd).symm

/-- A number and one bit. -/
theorem and_two_pow_eq_zero_iff (x i : ℕ) : x &&& 2 ^ i = 0 ↔ x / 2 ^ i % 2 = 0 := by
  rw [Nat.and_two_pow, Nat.testBit_eq_decide_div_mod_eq]
  by_cases h : x / 2 ^ i % 2 = 1
  · simp [h]
  · simp [h]
    omega

section Words

variable {m : ℕ → BitVec 8} {a i v : ℕ}

theorem word_lt (m : ℕ → BitVec 8) (a : ℕ) : word m a < 65536 := by
  have h0 := (m a).isLt
  have h1 := (m (a + 1)).isLt
  rw [word]
  omega

theorem setWord_of_disjoint (h : i < a ∨ a + 2 ≤ i) : setWord m a v i = m i :=
  store_of_disjoint m _ h

theorem word_setWord (hv : v < 65536) : word (setWord m a v) a = v := by
  have h := holdsAt_store m a (be16 v)
  have h0 : setWord m a v a = BitVec.ofNat 8 (v / 256) := h 0 _ rfl
  have h1 : setWord m a v (a + 1) = BitVec.ofNat 8 v := h 1 _ rfl
  rw [word, h0, h1, BitVec.toNat_ofNat, BitVec.toNat_ofNat]
  omega

theorem word_setWord_of_disjoint {b : ℕ} (h : b + 2 ≤ a ∨ a + 2 ≤ b) :
    word (setWord m a v) b = word m b := by
  rw [word, word, setWord_of_disjoint (by omega), setWord_of_disjoint (by omega)]

theorem sumAt_congr {m' : ℕ → BitVec 8} {n : ℕ} (h : ∀ i, a ≤ i → i < a + n → m' i = m i) :
    sumAt m' a n = sumAt m a n := by
  fun_induction sumAt m a n with
  | case1 a => rfl
  | case2 a => rw [sumAt, h a le_rfl (by omega)]
  | case3 a n ih =>
    rw [sumAt, ih fun i hi hi' ↦ h i (by omega) (by omega), word, word, h a le_rfl (by omega),
      h (a + 1) (by omega) (by omega)]

/-- A word of the sum is replaced. -/
theorem sumAt_setWord {k n : ℕ} (hv : v < 65536) (h : 2 * k + 2 ≤ n) :
    sumAt (setWord m (a + 2 * k) v) a n + word m (a + 2 * k) = sumAt m a n + v := by
  induction k generalizing a n with
  | zero =>
    obtain ⟨n, rfl⟩ := Nat.exists_eq_add_of_le' h
    have hrest : sumAt (setWord m a v) (a + 2) n = sumAt m (a + 2) n :=
      sumAt_congr fun i hi _ ↦ setWord_of_disjoint (Or.inr hi)
    show word (setWord m a v) a + sumAt (setWord m a v) (a + 2) n + word m a =
      word m a + sumAt m (a + 2) n + v
    rw [hrest, word_setWord hv]
    omega
  | succ k ih =>
    obtain ⟨n, rfl⟩ := Nat.exists_eq_add_of_le' (show 2 ≤ n by omega)
    have hrest := @ih (a + 2) n (by omega)
    rw [show a + 2 + 2 * k = a + 2 * (k + 1) by omega] at hrest
    rw [sumAt, sumAt, word_setWord_of_disjoint (by omega)]
    omega

end Words

end Rtl8821cu.OnesComplement
