import Mathlib

/-! Mixing steps of unbalanced Feistel networks: a word is changed by a function of another one. -/
namespace Rtl8821cu.Feistel

variable {G : Type*} {n : ℕ}

/-- Word `i` plus a function of word `j`. -/
def mix [Add G] (i j : Fin n) (g : G → G) (x : Vector G n) : Vector G n :=
  x.set i (x[i] + g x[j])

section Mix

variable [AddGroup G] {i j : Fin n}

theorem getElem_mix_self (g : G → G) (x : Vector G n) : (mix i j g x)[i] = x[i] + g x[j] :=
  Vector.getElem_set_self ..

theorem getElem_mix_of_ne {k : Fin n} (h : k ≠ i) (g : G → G) (x : Vector G n) :
    (mix i j g x)[k] = x[k] :=
  Vector.getElem_set_ne _ _ fun hik => h (Fin.ext hik.symm)

/-- A step loses nothing, whatever its function. -/
theorem mix_injective (h : j ≠ i) (g : G → G) : Function.Injective (mix i j g) := by
  intro x y hxy
  have hother : ∀ k, k ≠ i → x[k] = y[k] := by
    intro k hk
    rw [← getElem_mix_of_ne hk g x, hxy, getElem_mix_of_ne hk g y]
  have hself : x[i] + g x[j] = y[i] + g y[j] := by
    rw [← getElem_mix_self, hxy, getElem_mix_self]
  rw [hother j h] at hself
  apply Vector.ext
  intro k hk
  by_cases hki : (⟨k, hk⟩ : Fin n) = i
  · subst hki
    exact add_right_cancel hself
  · exact hother ⟨k, hk⟩ hki

end Mix

/-- A run of steps that lose nothing loses nothing. -/
theorem foldl_injective {α β : Type*} {f : α → β → α} (h : ∀ b, Function.Injective fun a => f a b)
    (l : List β) : Function.Injective fun a => l.foldl f a := by
  induction l with
  | nil => exact fun _ _ hab => hab
  | cons b l ih => exact fun x y hxy => h b (ih hxy)

end Rtl8821cu.Feistel
