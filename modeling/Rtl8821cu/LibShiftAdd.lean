import Mathlib

/-! Multiplication by shifting and adding: the bits of a word as a polynomial, and the loop that
multiplies by it. -/
namespace Rtl8821cu.ShiftAdd

section Value

variable {R : Type*} [CommRing R]

/-- The polynomial with the bits as coefficients, the first one as the constant, at a point. -/
def value (α : R) (bits : List Bool) : R := bits.foldr (fun b r => (b.toNat : R) + α * r) 0

@[simp] theorem value_nil (α : R) : value α [] = 0 := rfl

@[simp] theorem value_cons (α : R) (b : Bool) (bits : List Bool) :
    value α (b :: bits) = (b.toNat : R) + α * value α bits := rfl

theorem value_append (α : R) (l l' : List Bool) :
    value α (l ++ l') = value α l + α ^ l.length * value α l' := by
  induction l with
  | nil => simp
  | cons b l ih =>
    rw [List.cons_append, value_cons, value_cons, ih, List.length_cons, pow_succ]
    ring

theorem map_value {S : Type*} [CommRing S] (f : R →+* S) (α : R) (bits : List Bool) :
    f (value α bits) = value (f α) bits := by
  induction bits with
  | nil => simp
  | cons b bits ih => simp [ih]

theorem value_zipWith_xor (h2 : (2 : R) = 0) (α : R) {l l' : List Bool}
    (hlen : l.length = l'.length) :
    value α (List.zipWith xor l l') = value α l + value α l' := by
  induction l generalizing l' with
  | nil =>
    rw [List.eq_nil_of_length_eq_zero hlen.symm]
    simp
  | cons b l ih =>
    cases l' with
    | nil => simp at hlen
    | cons b' l' =>
      have hbit : ((xor b b').toNat : R) = b.toNat + b'.toNat := by
        cases b <;> cases b' <;> simp [one_add_one_eq_two, h2]
      rw [List.zipWith_cons_cons, value_cons, value_cons, value_cons, hbit,
        ih (Nat.succ_injective hlen)]
      ring

/-- A loop over the bits of one factor that adds up the multiples of the other one. The class of a
state in the ring is `φ`. -/
theorem foldl_eq_mul {σ β : Type*} {α : R} {φ : σ → R} {bit : β → Bool} {step : σ × σ → β → σ × σ}
    (hadd : ∀ p x, φ (step p x).1 = φ p.1 + ((bit x).toNat : R) * φ p.2)
    (hshift : ∀ p x, φ (step p x).2 = α * φ p.2) (p : σ × σ) (l : List β) :
    φ (l.foldl step p).1 = φ p.1 + value α (l.map bit) * φ p.2 := by
  induction l generalizing p with
  | nil => simp
  | cons x l ih =>
    rw [List.foldl_cons, ih, hadd, hshift, List.map_cons, value_cons]
    ring

/-- Horner's rule, where the last coefficient is multiplied too. -/
theorem foldl_horner (x s : R) (l : List R) :
    l.foldl (fun s c => (s + c) * x) s =
      s * x ^ l.length + ∑ i ∈ Finset.range l.length, l.getD i 0 * x ^ (l.length - i) := by
  induction l generalizing s with
  | nil => simp
  | cons c l ih =>
    rw [List.foldl_cons, ih, List.length_cons, Finset.sum_range_succ', pow_succ']
    simp only [List.getD_cons_succ, List.getD_cons_zero, Nat.add_sub_add_right, Nat.sub_zero]
    ring

end Value

section Poly
open Polynomial

variable {K : Type*} [CommRing K]

theorem coeff_value (bits : List Bool) (i : ℕ) :
    (value (X : K[X]) bits).coeff i = ((bits.getD i false).toNat : K) := by
  induction bits generalizing i with
  | nil => simp
  | cons b bits ih =>
    cases i with
    | zero => simp [coeff_natCast_ite]
    | succ i => simp [coeff_natCast_ite, coeff_X_mul, ih]

theorem degree_value_lt (bits : List Bool) :
    (value (X : K[X]) bits).degree < bits.length := by
  rw [degree_lt_iff_coeff_zero]
  intro i hi
  rw [coeff_value, List.getD_eq_default _ _ hi]
  simp

variable [IsDomain K]

/-- As polynomials bits of the same number are different. -/
theorem value_injective {l l' : List Bool} (hlen : l.length = l'.length)
    (h : value (X : K[X]) l = value X l') : l = l' := by
  refine List.ext_getElem hlen fun i hi hi' => ?_
  have hcoeff := congrArg (fun p => p.coeff i) h
  simp only [coeff_value, List.getD_eq_getElem _ _ hi, List.getD_eq_getElem _ _ hi'] at hcoeff
  cases hl : l[i] <;> cases hl' : l'[i] <;> simp_all

/-- Modulo a polynomial whose degree is their number, too. -/
theorem value_injective_of_dvd {l l' : List Bool} {g : K[X]} (hg : g.degree = l.length)
    (hlen : l.length = l'.length) (h : g ∣ value X l - value X l') : l = l' := by
  refine value_injective (K := K) hlen (sub_eq_zero.mp (eq_zero_of_dvd_of_degree_lt h ?_))
  rw [hg]
  refine (degree_sub_le _ _).trans_lt (max_lt (degree_value_lt l) ?_)
  rw [hlen]
  exact degree_value_lt l'

end Poly

end Rtl8821cu.ShiftAdd
