import Rtl8821cu.LibStore

/-! Computations that look at a memory only by reading its cells. -/
namespace Rtl8821cu.Reads
open Store

/-- A computation over a memory: it ends, or reads a cell and goes on with what the cell holds. -/
inductive Reading (β α : Type)
  | done (a : α)
  | read (p : ℕ) (next : β → Reading β α)

namespace Reading

variable {β α γ : Type}

def bind : Reading β α → (α → Reading β γ) → Reading β γ
  | done a, f => f a
  | read p next, f => read p fun x => (next x).bind f

instance : Monad (Reading β) where
  pure := done
  bind := Reading.bind

/-- What the computation returns over a memory. -/
def value (mem : ℕ → β) : Reading β α → α
  | done a => a
  | read p next => (next (mem p)).value mem

/-- The places that the computation reads, in order. -/
def places (mem : ℕ → β) : Reading β α → List ℕ
  | done _ => []
  | read p next => p :: (next (mem p)).places mem

/-- All reads lie in the `n` cells from `a` on. -/
def Inside (mem : ℕ → β) (a n : ℕ) (x : Reading β α) : Prop :=
  ∀ p ∈ x.places mem, a ≤ p ∧ p < a + n

end Reading

/-- The cell at `p`. -/
def cell {β : Type} (p : ℕ) : Reading β β := .read p .done

/-- The `n` cells from `p` on. -/
def cells {β : Type} (p : ℕ) : ℕ → Reading β (List β)
  | 0 => pure []
  | n + 1 => do
    let x ← cell p
    let l ← cells (p + 1) n
    pure (x :: l)

section Rules

variable {β α γ : Type} {mem mem' : ℕ → β} {a n k p : ℕ} {x : Reading β α} {f : α → Reading β γ}

@[simp] theorem value_pure (r : α) : (pure r : Reading β α).value mem = r := rfl

@[simp] theorem places_pure (r : α) : (pure r : Reading β α).places mem = [] := rfl

@[simp] theorem value_cell : (cell p).value mem = mem p := rfl

@[simp] theorem places_cell : (cell p).places mem = [p] := rfl

@[simp] theorem value_bind : (x >>= f).value mem = (f (x.value mem)).value mem := by
  induction x with
  | done r => rfl
  | read q next ih => exact ih (mem q)

@[simp] theorem places_bind :
    (x >>= f).places mem = x.places mem ++ (f (x.value mem)).places mem := by
  induction x with
  | done r => rfl
  | read q next ih => exact congrArg (q :: ·) (ih (mem q))

@[simp] theorem value_cells : (cells p n).value mem = load mem p n := by
  induction n generalizing p with
  | zero => rfl
  | succ n ih =>
    rw [cells, value_bind, value_bind, ih, value_pure, value_cell, add_comm n 1, load_add]
    simp [load]

@[simp] theorem places_cells : (cells p n : Reading β (List β)).places mem = List.range' p n := by
  induction n generalizing p with
  | zero => rfl
  | succ n ih =>
    rw [cells, places_bind, places_bind, ih, places_pure, places_cell, List.append_nil]
    rfl

@[simp] theorem inside_pure (r : α) : (pure r : Reading β α).Inside mem a n := by
  simp [Reading.Inside]

@[simp] theorem inside_cell :
    (cell p : Reading β β).Inside mem a n ↔ a ≤ p ∧ p < a + n := by
  simp [Reading.Inside]

@[simp] theorem inside_bind :
    (x >>= f).Inside mem a n ↔ x.Inside mem a n ∧ (f (x.value mem)).Inside mem a n := by
  simp only [Reading.Inside, places_bind, List.mem_append]
  constructor
  · intro h
    exact ⟨fun q hq => h q (Or.inl hq), fun q hq => h q (Or.inr hq)⟩
  · rintro ⟨hx, hf⟩ q (hq | hq)
    · exact hx q hq
    · exact hf q hq

theorem value_cell_bind {g : β → Reading β γ} :
    (cell p >>= g).value mem = (g (mem p)).value mem := rfl

theorem inside_cell_bind {g : β → Reading β γ} : (cell p >>= g).Inside mem a n ↔
    (a ≤ p ∧ p < a + n) ∧ (g (mem p)).Inside mem a n := by
  rw [inside_bind, inside_cell, value_cell]

@[simp] theorem inside_cells :
    (cells p k : Reading β (List β)).Inside mem a n ↔ k = 0 ∨ a ≤ p ∧ p + k ≤ a + n := by
  simp only [Reading.Inside, places_cells, List.mem_range'_1]
  constructor
  · intro h
    rcases Nat.eq_zero_or_pos k with hk | hk
    · exact Or.inl hk
    · have hfirst := h p (by omega)
      have hlast := h (p + k - 1) (by omega)
      exact Or.inr (by omega)
  · intro h q hq
    omega

@[simp] theorem value_ite {c : Prop} [Decidable c] {y : Reading β α} :
    (if c then x else y).value mem = if c then x.value mem else y.value mem := by
  split_ifs <;> rfl

@[simp] theorem inside_ite {c : Prop} [Decidable c] {y : Reading β α} :
    (if c then x else y).Inside mem a n ↔ (c → x.Inside mem a n) ∧ (¬c → y.Inside mem a n) := by
  split_ifs with h <;> simp [h]

end Rules

end Rtl8821cu.Reads
