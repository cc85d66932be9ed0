import Rtl8821cu.LibRun

/-! Runs that climb a ladder of stages, each reached from the one below through its own milestone,
and weights of the events along a run. -/
namespace Rtl8821cu.Stages
open Run

variable {σ ε : Type*} (step : σ → ε → σ) (stage : σ → ℕ) (M : ℕ → σ → ε → Prop)

/-- The events of `es` end in stage `n`: its milestones came in order, and the run stayed in each
stage until the next one. -/
def Climb (s : σ) : ℕ → List ε → Prop
  | 0, _ => True
  | n + 1, es => ∃ a e b, es = a ++ e :: b ∧ Climb s n a ∧ M n (run step s a) e ∧
      ∀ p, p <+: b → stage (run step s (a ++ e :: p)) = n + 1

/-- A step falls to the ground, stays where it is, starts a new climb or goes one stage up. -/
def Moves (s : σ) (e : ε) : Prop :=
  stage (step s e) = 0 ∨ stage (step s e) = stage s ∨ stage (step s e) = 1 ∧ M 0 s e ∨
    stage (step s e) = stage s + 1 ∧ M (stage s) s e

/-- What the events of a run weigh together, each in the state before it. -/
def weigh (c : σ → ε → ℕ) : σ → List ε → ℕ
  | _, [] => 0
  | s, e :: es => c s e + weigh c (step s e) es

variable {step stage M} {s : σ} {I : σ → Prop} {P : σ → ε → Prop} {es : List ε}

/-- One more event of the same stage does not interrupt a climb. -/
theorem Climb.stay {n : ℕ} (h : Climb step stage M s n es) {e : ε}
    (he : stage (run step s (es ++ [e])) = n) : Climb step stage M s n (es ++ [e]) := by
  cases n with
  | zero => trivial
  | succ n =>
    obtain ⟨a, x, b, rfl, ha, hx, hb⟩ := h
    refine ⟨a, x, b ++ [e], by simp, ha, hx, ?_⟩
    intro p hp
    rcases List.prefix_concat_iff.mp hp with rfl | hp
    · simpa using he
    · exact hb p hp

/-- A milestone lifts a climb by one stage. -/
theorem Climb.up {n : ℕ} (h : Climb step stage M s n es) {e : ε} (hm : M n (run step s es) e)
    (he : stage (run step s (es ++ [e])) = n + 1) :
    Climb step stage M s (n + 1) (es ++ [e]) := by
  refine ⟨es, e, [], rfl, h, hm, ?_⟩
  intro p hp
  rw [List.prefix_nil.mp hp]
  exact he

/-- A run that starts on the ground has climbed to the stage it is in. -/
theorem climb_run (hI : ∀ s e, I s → P s e → I (step s e))
    (hm : ∀ s e, I s → P s e → Moves step stage M s e) (h0 : I s) (hs : stage s = 0)
    (hp : Along step P s es) : Climb step stage M s (stage (run step s es)) es := by
  induction es using List.reverseRecOn with
  | nil =>
    rw [run_nil, hs]
    trivial
  | append_singleton es e ih =>
    rw [along_append] at hp
    have hi : I (run step s es) := run_invariant hI h0 hp.1
    have hrun : run step s (es ++ [e]) = step (run step s es) e := by simp [run_append]
    rcases hm _ e hi hp.2.1 with h | h | ⟨h, hzero⟩ | ⟨h, hup⟩
    · rw [hrun, h]
      trivial
    · rw [hrun, h]
      exact (ih hp.1).stay (by rw [hrun, h])
    · rw [hrun, h]
      exact Climb.up (n := 0) trivial hzero (by rw [hrun, h])
    · rw [hrun, h]
      exact (ih hp.1).up hup (by rw [hrun, h])

theorem weigh_countP (p : ε → Bool) (k : ℕ) :
    weigh step (fun _ e => if p e then k else 0) s es = k * es.countP p := by
  induction es generalizing s with
  | nil => rfl
  | cons e es ih =>
    rw [weigh, ih, List.countP_cons]
    split
    · rw [Nat.mul_add, Nat.mul_one, Nat.add_comm]
    · rw [Nat.zero_add, Nat.add_zero]

/-- What a potential pays for the events of a run bounds their weight. -/
theorem weigh_add_le {c g : σ → ε → ℕ} {b : σ → ℕ} (hI : ∀ s e, I s → P s e → I (step s e))
    (hb : ∀ s e, I s → P s e → c s e + b (step s e) ≤ b s + g s e) (h0 : I s)
    (hp : Along step P s es) :
    weigh step c s es + b (run step s es) ≤ b s + weigh step g s es := by
  induction es generalizing s with
  | nil => simp [weigh]
  | cons e es ih =>
    have h1 := hb s e h0 hp.1
    have h2 := ih (hI s e h0 hp.1) hp.2
    rw [weigh, weigh, run_cons]
    omega

end Rtl8821cu.Stages
