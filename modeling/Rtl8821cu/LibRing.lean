import Mathlib

/-! A ring of cells that holds the tail of a growing list. The two ends are counted from the start
of the list, and a cell is found by its count modulo the size of the ring. -/
namespace Rtl8821cu.RingBuf

variable {α : Type*}

/-- The cells hold the elements of `hist` from place `r` on. -/
structure Holds (size : ℕ) (cells : ℕ → α) (hist : List α) (r : ℕ) : Prop where
  le : r ≤ hist.length
  lt : hist.length < r + size
  cell : ∀ j, r ≤ j → ∀ a, hist[j]? = some a → cells (j % size) = a

variable {size : ℕ} {cells : ℕ → α} {hist : List α} {r w : ℕ}

/-- Places less than a turn apart have different cells. -/
theorem mod_ne {i j : ℕ} (hij : i < j) (hj : j < i + size) : i % size ≠ j % size := by
  intro h
  have hdvd : size ∣ j - i := (Nat.modEq_iff_dvd' hij.le).mp h
  have := Nat.le_of_dvd (by omega) hdvd
  omega

/-- The ends meet only if nothing is stored. -/
theorem mod_eq_iff (hle : r ≤ w) (hlt : w < r + size) : w % size = r % size ↔ w = r := by
  constructor
  · intro h
    by_contra hne
    exact mod_ne (by omega) hlt h.symm
  · exact fun h => by rw [h]

/-- The writing end is right behind the reading end only if all cells but one are in use. -/
theorem mod_pred_iff (hle : r ≤ w) (hlt : w < r + size) (hr : r % size ≠ 0) :
    w % size = r % size - 1 ↔ w + 1 = r + size := by
  have hr1 : (r - 1) % size = r % size - 1 := by
    have hlt' := Nat.mod_lt r (show 0 < size by omega)
    have hdiv := Nat.div_add_mod r size
    rw [show r - 1 = size * (r / size) + (r % size - 1) by omega, Nat.mul_add_mod,
      Nat.mod_eq_of_lt (by omega)]
  have hr0 : r ≠ 0 := by
    rintro rfl
    simp at hr
  have hturn : (r - 1 + size) % size = (r - 1) % size := Nat.add_mod_right _ _
  rw [← hr1, ← hturn]
  constructor
  · intro h
    by_contra hne
    exact mod_ne (show w < r - 1 + size by omega) (by omega) h
  · intro h
    rw [show w = r - 1 + size by omega]

/-- With the reading end at the first cell, all cells but one are in use when the writing end is
at the last one. -/
theorem mod_last_iff (hle : r ≤ w) (hlt : w < r + size) (hr : r % size = 0) :
    w % size = size - 1 ↔ w + 1 = r + size := by
  have hw : w % size = w - r := by
    have hadd := Nat.add_mod r (w - r) size
    rw [hr, zero_add, Nat.mod_mod, Nat.add_sub_cancel' hle] at hadd
    rw [hadd, Nat.mod_eq_of_lt (by omega)]
  omega

theorem Holds.push (h : Holds size cells hist r) (hlt : hist.length + 1 < r + size) (a : α) :
    Holds size (Function.update cells (hist.length % size) a) (hist ++ [a]) r := by
  refine ⟨by simp [Nat.le_succ_of_le h.le], by simpa using hlt, ?_⟩
  intro j hj b hb
  by_cases hlast : j = hist.length
  · subst hlast
    rw [Function.update_self]
    simpa using hb
  · have hjlt : j < hist.length := by
      have := (List.getElem?_eq_some_iff.mp hb).1
      simp at this
      omega
    rw [Function.update_of_ne (mod_ne hjlt (by omega))]
    rw [List.getElem?_append_left hjlt] at hb
    exact h.cell j hj b hb

theorem Holds.pop (h : Holds size cells hist r) (hr : r < hist.length) :
    hist[r]? = some (cells (r % size)) ∧ Holds size cells hist (r + 1) := by
  refine ⟨?_, hr, by have := h.lt; omega, fun j hj => h.cell j (by omega)⟩
  rw [List.getElem?_eq_getElem hr, h.cell r le_rfl _ (List.getElem?_eq_getElem hr)]

end Rtl8821cu.RingBuf
