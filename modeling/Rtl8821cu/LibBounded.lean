import Rtl8821cu.LibReads

/-! Computations over a memory that may need any number of turns: when they come to their end, look
only at the cells below a bound, and return a result that is called for. -/
namespace Rtl8821cu.Reads
open Reading

variable {β α γ : Type}

/-- The computation comes to its end for some number of turns, and for every number of turns it
reads cells below `size` only and returns what is called for, if anything. -/
structure Bounded (x : ℕ → Reading β (Option α)) (mem : ℕ → β) (size : ℕ) (P : α → Prop) :
    Prop where
  halts : ∃ turns, (x turns).value mem ≠ none
  inside : ∀ turns, (x turns).Inside mem 0 size
  result : ∀ turns r, (x turns).value mem = some r → P r

variable {mem : ℕ → β} {size : ℕ} {P : α → Prop} {x y : ℕ → Reading β (Option α)}

theorem bounded_pure {a : α} : Bounded (fun _ => pure (some a)) mem size P ↔ P a := by
  constructor
  · intro h
    exact h.result 0 a rfl
  · intro ha
    refine ⟨⟨0, by simp⟩, fun _ => inside_pure _, ?_⟩
    rintro _ _ ⟨⟩
    exact ha

theorem bounded_bind {z : Reading β γ} {f : γ → ℕ → Reading β (Option α)} :
    Bounded (fun turns => z >>= fun a => f a turns) mem size P ↔
      z.Inside mem 0 size ∧ Bounded (f (z.value mem)) mem size P := by
  constructor
  · rintro ⟨⟨turns, hturns⟩, hin, hresult⟩
    simp only [inside_bind, value_bind] at hturns hin hresult
    exact ⟨(hin 0).1, ⟨turns, hturns⟩, fun t => (hin t).2, hresult⟩
  · rintro ⟨hz, ⟨turns, hturns⟩, hin, hresult⟩
    refine ⟨⟨turns, ?_⟩, fun t => ?_, fun t => ?_⟩
    · rwa [value_bind]
    · rw [inside_bind]
      exact ⟨hz, hin t⟩
    · rw [value_bind]
      exact hresult t

theorem bounded_ite {c : Prop} [Decidable c] :
    Bounded (fun turns => if c then x turns else y turns) mem size P ↔
      (c → Bounded x mem size P) ∧ (¬c → Bounded y mem size P) := by
  by_cases h : c <;> simp [h]

/-- A computation that does nothing in no turns. -/
theorem bounded_succ (h : x 0 = pure none) :
    Bounded (fun turns => x (turns + 1)) mem size P ↔ Bounded x mem size P := by
  constructor
  · rintro ⟨⟨turns, hturns⟩, hin, hresult⟩
    refine ⟨⟨turns + 1, hturns⟩, fun t => ?_, fun t r hr => ?_⟩
    · cases t with
      | zero =>
        rw [h]
        exact inside_pure _
      | succ t => exact hin t
    · cases t with
      | zero =>
        rw [h] at hr
        cases hr
      | succ t => exact hresult t r hr
  · rintro ⟨⟨turns, hturns⟩, hin, hresult⟩
    cases turns with
    | zero =>
      rw [h] at hturns
      exact absurd rfl hturns
    | succ turns => exact ⟨⟨turns, hturns⟩, fun t => hin (t + 1), fun t => hresult (t + 1)⟩

theorem bounded_map {g : α → γ} {Q : γ → Prop} :
    Bounded (fun turns => x turns >>= fun r => pure (r.map g)) mem size Q ↔
      Bounded x mem size fun r => Q (g r) := by
  constructor
  · rintro ⟨⟨turns, hturns⟩, hin, hresult⟩
    simp only [inside_bind, value_bind, value_pure] at hturns hin hresult
    refine ⟨⟨turns, fun hnone => hturns ?_⟩, fun t => (hin t).1, fun t r hr => ?_⟩
    · rw [hnone]
      rfl
    · refine hresult t _ ?_
      rw [hr]
      rfl
  · rintro ⟨⟨turns, hturns⟩, hin, hresult⟩
    refine ⟨⟨turns, ?_⟩, fun t => ?_, fun t r hr => ?_⟩
    · rw [value_bind, value_pure]
      simpa using hturns
    · rw [inside_bind]
      exact ⟨hin t, inside_pure _⟩
    · rw [value_bind, value_pure] at hr
      obtain ⟨r', hr', rfl⟩ := Option.map_eq_some_iff.mp hr
      exact hresult t r' hr'

/-- What is called for of every result holds outright where it does not depend on it. -/
theorem bounded_and {A : Prop} :
    Bounded x mem size (fun r => A ∧ P r) ↔ A ∧ Bounded x mem size P := by
  constructor
  · rintro ⟨⟨turns, hturns⟩, hin, hresult⟩
    obtain ⟨r, hr⟩ := Option.ne_none_iff_exists'.mp hturns
    exact ⟨(hresult turns r hr).1, ⟨turns, hturns⟩, hin, fun t r hr => (hresult t r hr).2⟩
  · rintro ⟨hA, hhalts, hin, hresult⟩
    exact ⟨hhalts, hin, fun t r hr => ⟨hA, hresult t r hr⟩⟩

end Rtl8821cu.Reads
