import Mathlib

/-! Numbers in byte strings: little-endian ones of any width and big-endian 16-bit ones. -/
namespace Rtl8821cu.Bytes

/-- The `n` low bytes of `v`, lowest first. -/
def leBytes : ℕ → ℕ → List (BitVec 8)
  | 0, _ => []
  | n + 1, v => BitVec.ofNat 8 v :: leBytes n (v / 256)

/-- The number whose bytes are given, lowest first. -/
def ofLe : List (BitVec 8) → ℕ
  | [] => 0
  | b :: l => b.toNat + 256 * ofLe l

@[simp] theorem length_leBytes (n v : ℕ) : (leBytes n v).length = n := by
  induction n generalizing v with
  | zero => rfl
  | succ n ih => simp [leBytes, ih]

theorem ofLe_leBytes (n v : ℕ) : ofLe (leBytes n v) = v % 256 ^ n := by
  induction n generalizing v with
  | zero => simp [leBytes, ofLe, Nat.mod_one]
  | succ n ih =>
    rw [leBytes, ofLe, ih, BitVec.toNat_ofNat, pow_succ' 256 n, Nat.mod_mul]

/-- The bytes of a number split into those of its low and of its high part. -/
theorem leBytes_add (m n v : ℕ) : leBytes (m + n) v = leBytes m v ++ leBytes n (v / 256 ^ m) := by
  induction m generalizing v with
  | zero => simp [leBytes]
  | succ m ih =>
    rw [Nat.succ_add, leBytes, ih, leBytes, List.cons_append, Nat.div_div_eq_div_mul, pow_succ']

theorem leBytes_zero (n : ℕ) : leBytes n 0 = List.replicate n 0 := by
  induction n with
  | zero => rfl
  | succ n ih =>
    rw [leBytes, Nat.zero_div, ih]
    rfl

theorem leBytes_eq_zero {n v : ℕ} (h : leBytes n v = List.replicate n 0) : v % 256 ^ n = 0 := by
  rw [← ofLe_leBytes, h, ← leBytes_zero, ofLe_leBytes, Nat.zero_mod]

/-- A 16-bit number, high byte first. -/
def be16 (v : ℕ) : List (BitVec 8) := [BitVec.ofNat 8 (v / 256), BitVec.ofNat 8 v]

/-- The 16-bit number at an offset, high byte first. -/
def getBe16 (l : List (BitVec 8)) (off : ℕ) : ℕ :=
  (l.getD off 0).toNat * 256 + (l.getD (off + 1) 0).toNat

@[simp] theorem length_be16 (v : ℕ) : (be16 v).length = 2 := rfl

theorem getBe16_be16 {v : ℕ} (hv : v < 65536) (l l' : List (BitVec 8)) {off : ℕ}
    (hoff : l.length = off) : getBe16 (l ++ (be16 v ++ l')) off = v := by
  have h0 : (l ++ (be16 v ++ l')).getD off 0 = BitVec.ofNat 8 (v / 256) := by
    rw [List.getD_eq_getElem?_getD, List.getElem?_append_right (by omega)]
    simp [be16, hoff]
  have h1 : (l ++ (be16 v ++ l')).getD (off + 1) 0 = BitVec.ofNat 8 v := by
    rw [List.getD_eq_getElem?_getD, List.getElem?_append_right (by omega)]
    simp [be16, hoff]
  rw [getBe16, h0, h1, BitVec.toNat_ofNat, BitVec.toNat_ofNat]
  omega

end Rtl8821cu.Bytes
