import Mathlib

/-! Walks: from a place on by a partial step. -/
namespace Rtl8821cu.Walk

variable {α : Type*} {next : α → Option α} {P : α → Prop} {a b c : α}

/-- The walk from `a` comes to `b`. -/
def Reaches (next : α → Option α) : α → α → Prop :=
  Relation.ReflTransGen fun x y => next x = some y

theorem Reaches.refl (a : α) : Reaches next a a := Relation.ReflTransGen.refl

theorem Reaches.head (h : next a = some b) (hb : Reaches next b c) : Reaches next a c :=
  Relation.ReflTransGen.head h hb

theorem Reaches.tail (ha : Reaches next a b) (h : next b = some c) : Reaches next a c :=
  Relation.ReflTransGen.tail ha h

theorem reaches_iff_of_none (h : next a = none) : Reaches next a b ↔ b = a := by
  constructor
  · intro hab
    rcases Relation.ReflTransGen.cases_head hab with rfl | ⟨c, hc, -⟩
    · rfl
    · rw [h] at hc
      cases hc
  · rintro rfl
    exact Reaches.refl b

theorem reaches_iff_of_some (h : next a = some c) : Reaches next a b ↔ b = a ∨ Reaches next c b := by
  constructor
  · intro hab
    rcases Relation.ReflTransGen.cases_head hab with rfl | ⟨d, hd, hdb⟩
    · exact Or.inl rfl
    · obtain rfl : d = c := Option.some.inj (hd.symm.trans h)
      exact Or.inr hdb
  · rintro (rfl | hcb)
    · exact Reaches.refl b
    · exact Reaches.head h hcb

/-- Of two places on a walk one comes after the other. -/
theorem Reaches.total (hb : Reaches next a b) (hc : Reaches next a c) :
    Reaches next b c ∨ Reaches next c b := by
  refine Relation.ReflTransGen.total_of_right_unique (fun x y z hy hz => ?_) hb hc
  exact Option.some.inj (hy.symm.trans hz)

/-- A walk that goes up only. -/
theorem Reaches.le_of_lt {next : ℕ → Option ℕ} {a b : ℕ} (h : Reaches next a b)
    (hnext : ∀ {i j}, next i = some j → i < j) : a ≤ b := by
  induction h with
  | refl => exact le_rfl
  | tail _ hstep ih => exact ih.trans (hnext hstep).le

/-- What holds everywhere on a walk that stops at once. -/
theorem forall_reaches_of_none (h : next a = none) : (∀ b, Reaches next a b → P b) ↔ P a := by
  simp [reaches_iff_of_none h]

/-- What holds everywhere on a walk holds at its start and everywhere behind. -/
theorem forall_reaches_of_some (h : next a = some c) :
    (∀ b, Reaches next a b → P b) ↔ P a ∧ ∀ b, Reaches next c b → P b := by
  simp [reaches_iff_of_some h, or_imp, forall_and]

end Rtl8821cu.Walk
