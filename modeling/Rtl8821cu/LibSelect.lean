import Mathlib

/-! Selection sort of a list by a key, largest first. -/
namespace Rtl8821cu.Select

variable {α κ : Type*} [LinearOrder κ] {key : α → κ}

/-- The place of the first largest key when `best` at `pos` is the one so far and the rest is from
place `j` on. -/
def maxPos (key : α → κ) : α → ℕ → ℕ → List α → ℕ
  | _, pos, _, [] => pos
  | best, pos, j, y :: l =>
    if key best < key y then maxPos key y j (j + 1) l else maxPos key best pos (j + 1) l

/-- The front changes places with the first largest. -/
def swapMax (key : α → κ) (x : α) (l : List α) : α × List α :=
  match maxPos key x 0 1 l with
  | 0 => (x, l)
  | p + 1 => (l.getD p x, l.set p x)

def sortTurns (key : α → κ) : ℕ → List α → List α
  | 0, l => l
  | _ + 1, [] => []
  | k + 1, x :: l => (swapMax key x l).1 :: sortTurns key k (swapMax key x l).2

/-- The last turn has nothing to choose from and is left out. -/
def sort (key : α → κ) (l : List α) : List α := sortTurns key (l.length - 1) l

/-- The scan ends where it stands, or at a larger one of the rest. -/
theorem maxPos_spec {best : α} {pos j : ℕ} {l : List α} :
    (maxPos key best pos j l = pos ∧ ∀ y ∈ l, key y ≤ key best) ∨
      ∃ (i : ℕ) (h : i < l.length), maxPos key best pos j l = j + i ∧ key best < key l[i] ∧
        ∀ y ∈ l, key y ≤ key l[i] := by
  induction l generalizing best pos j with
  | nil => exact .inl ⟨rfl, by simp⟩
  | cons x l ih =>
    rw [maxPos]
    split_ifs with hlt
    · right
      obtain ⟨hpos, hle⟩ | ⟨i, hi, hpos, hgt, hle⟩ := @ih x j (j + 1)
      · refine ⟨0, by simp, hpos, hlt, ?_⟩
        intro y hy
        obtain rfl | hy := List.mem_cons.mp hy
        · exact le_rfl
        · exact hle y hy
      · refine ⟨i + 1, by simpa using hi, by omega, hlt.trans hgt, ?_⟩
        intro y hy
        obtain rfl | hy := List.mem_cons.mp hy
        · exact hgt.le
        · exact hle y hy
    · obtain ⟨hpos, hle⟩ | ⟨i, hi, hpos, hgt, hle⟩ := @ih best pos (j + 1)
      · refine .inl ⟨hpos, ?_⟩
        intro y hy
        obtain rfl | hy := List.mem_cons.mp hy
        · exact not_lt.mp hlt
        · exact hle y hy
      · refine .inr ⟨i + 1, by simpa using hi, by omega, hgt, ?_⟩
        intro y hy
        obtain rfl | hy := List.mem_cons.mp hy
        · exact (not_lt.mp hlt).trans hgt.le
        · exact hle y hy

theorem swapMax_spec (x : α) (l : List α) :
    ((swapMax key x l).1 :: (swapMax key x l).2).Perm (x :: l) ∧
      ∀ y ∈ x :: l, key y ≤ key (swapMax key x l).1 := by
  rw [swapMax]
  obtain ⟨hpos, hle⟩ | ⟨i, hi, hpos, hgt, hle⟩ := @maxPos_spec _ _ _ key x 0 1 l
  · rw [hpos]
    exact ⟨.refl _, by simpa using hle⟩
  · rw [hpos, add_comm]
    dsimp only
    rw [List.getD_eq_getElem _ _ hi]
    refine ⟨?_, by simpa using ⟨hgt.le, hle⟩⟩
    calc (l[i] :: l.set i x).Perm (l[i] :: x :: l.eraseIdx i) :=
          (List.set_perm_cons_eraseIdx hi x).cons _
      _ |>.Perm (x :: l[i] :: l.eraseIdx i) := List.Perm.swap ..
      _ |>.Perm (x :: l) := (List.getElem_cons_eraseIdx_perm hi).cons _

theorem perm_sortTurns (k : ℕ) (l : List α) : (sortTurns key k l).Perm l := by
  induction k generalizing l with
  | zero => exact .refl _
  | succ k ih =>
    cases l with
    | nil => exact .refl _
    | cons x l => exact ((ih _).cons _).trans (swapMax_spec x l).1

theorem pairwise_sortTurns {k : ℕ} {l : List α} (h : l.length ≤ k + 1) :
    (sortTurns key k l).Pairwise fun a b => key b ≤ key a := by
  induction k generalizing l with
  | zero =>
    match l, h with
    | [], _ => exact .nil
    | [x], _ => exact List.pairwise_singleton _ x
  | succ k ih =>
    cases l with
    | nil => exact .nil
    | cons x l =>
      obtain ⟨hperm, hmax⟩ := @swapMax_spec _ _ _ key x l
      have hlen := hperm.length_eq
      rw [List.length_cons, List.length_cons] at hlen
      rw [List.length_cons] at h
      refine List.pairwise_cons.mpr ⟨?_, ih (by omega)⟩
      intro y hy
      have hy := (perm_sortTurns k _).mem_iff.mp hy
      exact hmax y (hperm.mem_iff.mp (List.mem_cons_of_mem _ hy))

theorem perm_sort (l : List α) : (sort key l).Perm l := perm_sortTurns _ l

theorem pairwise_sort (l : List α) : (sort key l).Pairwise fun a b => key b ≤ key a :=
  pairwise_sortTurns (by omega)

end Rtl8821cu.Select
