import Mathlib

/-! Counter mode: a text is combined with the blocks of a key stream, one for each `n` bytes. -/
namespace Rtl8821cu.CounterMode

abbrev Byte := BitVec 8

/-- The byte of the key stream at an offset, when block `i` is the first one. -/
def keyByte (n : ℕ) (block : ℕ → List Byte) (i k : ℕ) : Byte := (block (i + k / n)).getD (k % n) 0

/-- The text combined with the key stream from block `i` on. -/
def crypt (n : ℕ) (block : ℕ → List Byte) (i : ℕ) (l : List Byte) : List Byte :=
  l.mapIdx fun k x => x ^^^ keyByte n block i k

section Crypt

variable {n : ℕ} {block : ℕ → List Byte}

@[simp] theorem length_crypt (i : ℕ) (l : List Byte) : (crypt n block i l).length = l.length := by
  simp [crypt]

/-- What is combined with the key stream twice is as it was. -/
theorem crypt_crypt (i : ℕ) (l : List Byte) : crypt n block i (crypt n block i l) = l := by
  refine List.ext_getElem (by simp) fun k _ _ => ?_
  simp [crypt]

theorem crypt_eq_iff {i : ℕ} {l l' : List Byte} :
    crypt n block i l = l' ↔ crypt n block i l' = l := by
  constructor
  · rintro rfl
    exact crypt_crypt i l
  · rintro rfl
    exact crypt_crypt i l'

/-- A whole block of the text, and what follows it. -/
theorem crypt_append (hn : 0 < n) (i : ℕ) {l l' : List Byte} (h : l.length = n) :
    crypt n block i (l ++ l') = crypt n block i l ++ crypt n block (i + 1) l' := by
  rw [crypt, List.mapIdx_append]
  congr 1
  refine List.ext_getElem (by simp) fun k hk _ => ?_
  simp [crypt, keyByte, h, Nat.add_div_right k hn, Nat.add_assoc, Nat.add_comm 1]

variable (hblock : ∀ i, (block i).length = n)
include hblock

/-- At most one block of a text. -/
theorem crypt_of_le (i : ℕ) {l : List Byte} (h : l.length ≤ n) :
    crypt n block i l = List.zipWith (· ^^^ ·) l (block i) := by
  refine List.ext_getElem (by simp [h, hblock]) fun k hk _ => ?_
  have hkn : k < n := by
    rw [length_crypt] at hk
    omega
  simp [crypt, keyByte, Nat.div_eq_of_lt hkn, Nat.mod_eq_of_lt hkn, hblock, hkn]

/-- A program that takes block after block of a text, and what is left in the end, is counter
mode. -/
theorem eq_crypt (hn : 0 < n) {f : ℕ → List Byte → List Byte}
    (hfull : ∀ i l, n ≤ l.length →
      f i l = List.zipWith (· ^^^ ·) (l.take n) (block i) ++ f (i + 1) (l.drop n))
    (hrest : ∀ i l, l.length < n → f i l = List.zipWith (· ^^^ ·) l (block i)) (i : ℕ)
    (l : List Byte) : f i l = crypt n block i l := by
  induction hlen : l.length using Nat.strong_induction_on generalizing i l with
  | _ len ih =>
    by_cases hle : n ≤ l.length
    · have htake : (l.take n).length = n := List.length_take_of_le hle
      have hnext := ih (l.drop n).length (by rw [List.length_drop]; omega) (i + 1) (l.drop n) rfl
      rw [hfull i l hle, hnext, ← crypt_of_le hblock i htake.le, ← crypt_append hn i htake,
        List.take_append_drop]
    · rw [hrest i l (by omega), crypt_of_le hblock i (by omega)]

end Crypt

end Rtl8821cu.CounterMode
