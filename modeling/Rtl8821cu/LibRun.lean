import Mathlib

/-! Finite runs of a deterministic step function, and properties that hold along them. -/
namespace Rtl8821cu.Run

variable {σ ε : Type*}

/-- The state after the events of `es`, in order. -/
def run (step : σ → ε → σ) (s : σ) (es : List ε) : σ := es.foldl step s

/-- `P` holds of every event of the run together with the state it meets. -/
def Along (step : σ → ε → σ) (P : σ → ε → Prop) : σ → List ε → Prop
  | _, [] => True
  | s, e :: es => P s e ∧ Along step P (step s e) es

variable {step : σ → ε → σ} {P Q : σ → ε → Prop} {I : σ → Prop} {s : σ} {es : List ε}

@[simp] theorem run_nil (s : σ) : run step s [] = s := rfl

@[simp] theorem run_cons (s : σ) (e : ε) (es : List ε) :
    run step s (e :: es) = run step (step s e) es := rfl

theorem run_append (s : σ) (xs ys : List ε) :
    run step s (xs ++ ys) = run step (run step s xs) ys := List.foldl_append

theorem along_append (s : σ) (xs ys : List ε) :
    Along step P s (xs ++ ys) ↔ Along step P s xs ∧ Along step P (run step s xs) ys := by
  induction xs generalizing s with
  | nil => simp [Along]
  | cons x xs ih => simp [Along, ih, and_assoc]

theorem along_of_forall (h : ∀ s e, e ∈ es → P s e) : Along step P s es := by
  induction es generalizing s with
  | nil => trivial
  | cons e es ih => exact ⟨h s e (by simp), ih fun t x hx => h t x (by simp [hx])⟩

/-- An invariant kept by every step that meets the condition holds at the end. -/
theorem run_invariant (hstep : ∀ s e, I s → P s e → I (step s e)) (h0 : I s)
    (h : Along step P s es) : I (run step s es) := by
  induction es generalizing s with
  | nil => exact h0
  | cons e es ih => exact ih (hstep s e h0 h.1) h.2

/-- Under an invariant, a condition on every step turns into a guarantee on every step. -/
theorem along_mono (hstep : ∀ s e, I s → P s e → I (step s e)) (hq : ∀ s e, I s → P s e → Q s e)
    (h0 : I s) (h : Along step P s es) : Along step Q s es := by
  induction es generalizing s with
  | nil => trivial
  | cons e es ih => exact ⟨hq s e h0 h.1, ih (hstep s e h0 h.1) h.2⟩

/-- When a step keeps the invariant exactly if it meets the condition, the invariant holds in
every state of the run exactly if every step meets it. -/
theorem forall_take_iff_along (hstep : ∀ s, ∀ e ∈ es, I s → (I (step s e) ↔ P s e)) (h0 : I s) :
    (∀ k, I (run step s (es.take k))) ↔ Along step P s es := by
  induction es generalizing s with
  | nil => simpa [Along] using h0
  | cons e es ih =>
    replace ih := fun {s} => ih (s := s) fun s x hx => hstep s x (by simp [hx])
    replace hstep := fun s => hstep s e (by simp)
    constructor
    · intro h
      have h1 : I (step s e) := by simpa using h 1
      refine ⟨(hstep s h0).mp h1, (ih h1).mp ?_⟩
      intro k
      simpa using h (k + 1)
    · rintro ⟨hp, hrest⟩ k
      have h1 := (hstep s h0).mpr hp
      cases k with
      | zero => exact h0
      | succ k => simpa using (ih h1).mpr hrest k

end Rtl8821cu.Run
