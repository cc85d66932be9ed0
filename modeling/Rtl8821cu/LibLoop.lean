import Rtl8821cu.LibReads
import Rtl8821cu.LibWalk

/-! Loops over a memory that may go on for ever, by the number of turns allowed. -/
namespace Rtl8821cu.Loop
open Reads Walk

/-- A turn of a loop goes on in a state or leaves with a result. -/
inductive Turn (σ ρ : Type)
  | next (s : σ)
  | leave (r : ρ)

variable {β σ ρ : Type}

/-- The loop, for as many turns as are allowed. -/
def run (turn : σ → Reading β (Turn σ ρ)) : ℕ → σ → Reading β (Option ρ)
  | 0, _ => pure none
  | n + 1, s => do
    match ← turn s with
    | .next t => run turn n t
    | .leave r => pure (some r)

/-- The state behind a turn that goes on. -/
def nextState (turn : σ → Reading β (Turn σ ρ)) (mem : ℕ → β) (s : σ) : Option σ :=
  match (turn s).value mem with
  | .next t => some t
  | .leave _ => none

/-- Enough turns bring the loop to its end. -/
def Halts (turn : σ → Reading β (Turn σ ρ)) (mem : ℕ → β) (s : σ) : Prop :=
  ∃ n, (run turn n s).value mem ≠ none

variable {turn : σ → Reading β (Turn σ ρ)} {mem : ℕ → β} {s t : σ} {r : ρ} {a k n : ℕ}

theorem value_run_next (h : (turn s).value mem = .next t) :
    (run turn (n + 1) s).value mem = (run turn n t).value mem := by
  rw [run, value_bind, h]

theorem value_run_leave (h : (turn s).value mem = .leave r) :
    (run turn (n + 1) s).value mem = some r := by
  rw [run, value_bind, h, value_pure]

theorem nextState_next (h : (turn s).value mem = .next t) : nextState turn mem s = some t := by
  rw [nextState, h]

theorem eq_next_of_nextState (h : nextState turn mem s = some t) :
    (turn s).value mem = .next t := by
  rw [nextState] at h
  cases hturn : (turn s).value mem with
  | next u =>
    rw [hturn] at h
    rw [Option.some.inj h]
  | leave r =>
    rw [hturn] at h
    cases h

theorem nextState_leave (h : (turn s).value mem = .leave r) : nextState turn mem s = none := by
  rw [nextState, h]

/-- The loop reads inside a stretch, however long it runs, exactly when every turn does. -/
theorem forall_inside_iff : (∀ n, (run turn n s).Inside mem a k) ↔
    ∀ t, Reaches (nextState turn mem) s t → (turn t).Inside mem a k := by
  constructor
  · intro h t ht
    induction ht using Relation.ReflTransGen.head_induction_on with
    | refl => exact (inside_bind.mp (h 1)).1
    | head hstep _ ih =>
      refine ih fun n => ?_
      have hrest := (inside_bind.mp (h (n + 1))).2
      rwa [eq_next_of_nextState hstep] at hrest
  · intro h n
    induction n generalizing s with
    | zero => exact inside_pure none
    | succ n ih =>
      refine inside_bind.mpr ⟨h s (.refl s), ?_⟩
      cases hturn : (turn s).value mem with
      | next t => exact ih fun u hu => h u (.head (nextState_next hturn) hu)
      | leave r => exact inside_pure _

/-- The loop leaves with good results only exactly when every turn does. -/
theorem forall_result_iff {P : ρ → Prop} : (∀ n, ∀ r ∈ (run turn n s).value mem, P r) ↔
    ∀ t, Reaches (nextState turn mem) s t → ∀ r, (turn t).value mem = .leave r → P r := by
  constructor
  · intro h t ht r hr
    induction ht using Relation.ReflTransGen.head_induction_on with
    | refl => exact h 1 r (value_run_leave hr)
    | head hstep _ ih =>
      refine ih fun n r hn => h (n + 1) r ?_
      rwa [value_run_next (eq_next_of_nextState hstep)]
  · intro h n
    induction n generalizing s with
    | zero =>
      intro r hr
      cases hr
    | succ n ih =>
      cases hturn : (turn s).value mem with
      | next t =>
        rw [value_run_next hturn]
        exact ih fun u hu => h u (.head (nextState_next hturn) hu)
      | leave r =>
        rw [value_run_leave hturn]
        rintro _ ⟨⟩
        exact h s (.refl s) r hturn

/-- A loop comes to its end exactly when it comes to a state whose turn leaves. -/
theorem halts_iff : Halts turn mem s ↔
    ∃ t, Reaches (nextState turn mem) s t ∧ nextState turn mem t = none := by
  constructor
  · rintro ⟨n, hn⟩
    induction n generalizing s with
    | zero => exact absurd rfl hn
    | succ n ih =>
      cases hturn : (turn s).value mem with
      | next t =>
        rw [value_run_next hturn] at hn
        obtain ⟨u, hu, hnone⟩ := ih hn
        exact ⟨u, .head (nextState_next hturn) hu, hnone⟩
      | leave r => exact ⟨s, .refl s, nextState_leave hturn⟩
  · rintro ⟨t, ht, hnone⟩
    induction ht using Relation.ReflTransGen.head_induction_on with
    | refl =>
      cases hturn : (turn t).value mem with
      | next u =>
        rw [nextState_next hturn] at hnone
        cases hnone
      | leave r => exact ⟨1, by simp [value_run_leave hturn]⟩
    | head hstep _ ih =>
      obtain ⟨n, hn⟩ := ih
      refine ⟨n + 1, ?_⟩
      rwa [value_run_next (eq_next_of_nextState hstep)]

/-- A loop that comes nearer to something with each turn comes to its end. -/
theorem halts_of_measure (f : σ → ℕ)
    (h : ∀ u v, nextState turn mem u = some v → f v < f u) : Halts turn mem s := by
  induction hd : f s using Nat.strong_induction_on generalizing s with
  | _ d ih =>
    cases hturn : (turn s).value mem with
    | next t =>
      have hnext := nextState_next hturn
      obtain ⟨n, hn⟩ := ih (f t) (hd ▸ h s t hnext) rfl
      refine ⟨n + 1, ?_⟩
      rwa [value_run_next hturn]
    | leave r => exact ⟨1, by simp [value_run_leave hturn]⟩

/-- A loop whose place never goes back and stays below a bound comes to its end exactly when no
turn stays where it is. -/
theorem halts_iff_of_le {turn : ℕ → Reading β (Turn ℕ ρ)} {i : ℕ} (bound : ℕ)
    (hle : ∀ j l, nextState turn mem j = some l → j ≤ l ∧ j ≤ bound) :
    Halts turn mem i ↔ ∀ j, Reaches (nextState turn mem) i j → nextState turn mem j ≠ some j := by
  rw [halts_iff]
  constructor
  · rintro ⟨t, ht, hnone⟩ j hj hloop
    have hunique : Relator.RightUnique fun x y => nextState turn mem x = some y :=
      fun _ _ _ h h' => Option.some.inj (h.symm.trans h')
    have hstay : ∀ u, Reaches (nextState turn mem) j u → u = j := by
      intro u hu
      induction hu with
      | refl => rfl
      | tail _ hstep ih =>
        rw [ih] at hstep
        exact Option.some.inj (hstep.symm.trans hloop)
    rcases Relation.ReflTransGen.total_of_right_unique hunique hj ht with h | h
    · rw [hstay t h, hloop] at hnone
      cases hnone
    · rw [(reaches_iff_of_none hnone).mp h, hnone] at hloop
      cases hloop
  · intro h
    induction hd : bound + 1 - i using Nat.strong_induction_on generalizing i with
    | _ d ih =>
      cases hnext : nextState turn mem i with
      | none => exact ⟨i, .refl i, hnext⟩
      | some j =>
        have hij := hle i j hnext
        have hne : i ≠ j := by
          rintro rfl
          exact h i (.refl i) hnext
        obtain ⟨t, ht, hnone⟩ := ih (bound + 1 - j) (by omega)
          (fun l hl => h l (.head hnext hl)) rfl
        exact ⟨t, .head hnext ht, hnone⟩

end Rtl8821cu.Loop
