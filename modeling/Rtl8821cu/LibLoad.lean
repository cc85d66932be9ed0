import Rtl8821cu.LibBytes

/-! Reads of a byte string by offset. A read that does not lie in the string fails. -/
namespace Rtl8821cu.Load
open Bytes

/-- The `n` elements from an offset on. -/
def load {α : Type*} (l : List α) (pos n : ℕ) : Option (List α) :=
  if pos + n ≤ l.length then some ((l.drop pos).take n) else none

/-- The big-endian 16-bit number at an offset. -/
def loadBe16 (l : List (BitVec 8)) (pos : ℕ) : Option ℕ :=
  (load l pos 2).map (getBe16 · 0)

section Load

variable {α : Type*} {l : List α} {pos n : ℕ}

theorem load_eq (h : pos + n ≤ l.length) : load l pos n = some ((l.drop pos).take n) := if_pos h

end Load

theorem getBe16_drop (l : List (BitVec 8)) (pos off : ℕ) :
    getBe16 (l.drop pos) off = getBe16 l (pos + off) := by
  simp only [getBe16, List.getD_eq_getElem?_getD, List.getElem?_drop, Nat.add_assoc]

theorem getBe16_take {l : List (BitVec 8)} {n off : ℕ} (h : off + 2 ≤ n) :
    getBe16 (l.take n) off = getBe16 l off := by
  simp only [getBe16, List.getD_eq_getElem?_getD,
    List.getElem?_take_of_lt (show off < n by omega),
    List.getElem?_take_of_lt (show off + 1 < n by omega)]

theorem loadBe16_eq {l : List (BitVec 8)} {pos : ℕ} (h : pos + 2 ≤ l.length) :
    loadBe16 l pos = some (getBe16 l pos) := by
  rw [loadBe16, load_eq h, Option.map_some, getBe16_take (by omega), getBe16_drop, Nat.add_zero]

theorem getBe16_lt (l : List (BitVec 8)) (off : ℕ) : getBe16 l off < 65536 := by
  have h0 := (l.getD off 0).isLt
  have h1 := (l.getD (off + 1) 0).isLt
  unfold getBe16
  omega

/-- The two bytes that a 16-bit number was read from. -/
theorem be16_getBe16 {l : List (BitVec 8)} {off : ℕ} (h : off + 2 ≤ l.length) :
    be16 (getBe16 l off) = (l.drop off).take 2 := by
  have h0 : l.getD off 0 = l[off] := List.getD_eq_getElem _ _ (by omega)
  have h1 : l.getD (off + 1) 0 = l[off + 1] := List.getD_eq_getElem _ _ (by omega)
  have hhi : BitVec.ofNat 8 (getBe16 l off / 256) = l[off] := by
    apply BitVec.eq_of_toNat_eq
    have := l[off].isLt
    have := l[off + 1].isLt
    simp only [getBe16, h0, h1, BitVec.toNat_ofNat]
    omega
  have hlo : BitVec.ofNat 8 (getBe16 l off) = l[off + 1] := by
    apply BitVec.eq_of_toNat_eq
    have := l[off + 1].isLt
    simp only [getBe16, h0, h1, BitVec.toNat_ofNat]
    omega
  rw [be16, hhi, hlo, List.drop_eq_getElem_cons (by omega), List.take_succ_cons,
    List.drop_eq_getElem_cons (by omega), List.take_succ_cons, List.take_zero]

end Rtl8821cu.Load
