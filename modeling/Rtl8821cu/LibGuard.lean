import Rtl8821cu.LibStore

/-! Programs over a buffer: to touch a cell outside of it is a fault, and a loop may run out of the
turns that it is allowed. A program meets a postcondition when it ends, without a fault, in it. -/
namespace Rtl8821cu.Guard
open Store

/-- A memory with the number of cells that are in use and that of the free ones behind them. -/
@[ext] structure Buf (α : Type) where
  mem : ℕ → α
  len : ℕ
  room : ℕ

inductive Outcome (β : Type)
  | done (b : β)
  | fault
  | timeout

def Prog (α β : Type) : Type := Buf α → Outcome (β × Buf α)

variable {α β γ : Type}

def Prog.bind (p : Prog α β) (f : β → Prog α γ) : Prog α γ := fun s =>
  match p s with
  | .done (b, s') => f b s'
  | .fault => .fault
  | .timeout => .timeout

instance : Monad (Prog α) where
  pure b := fun s => .done (b, s)
  bind := Prog.bind

/-- The `n` cells from `a` on lie in the buffer. -/
def Buf.Inside (s : Buf α) (a n : ℕ) : Prop := n = 0 ∨ a + n ≤ s.len

instance (s : Buf α) (a n : ℕ) : Decidable (s.Inside a n) := inferInstanceAs (Decidable (_ ∨ _))

/-- The buffer with cells stored. -/
def Buf.store (s : Buf α) (a : ℕ) (l : List α) : Buf α := { s with mem := Store.store s.mem a l }

def read (a n : ℕ) : Prog α (List α) := fun s =>
  if s.Inside a n then .done (load s.mem a n, s) else .fault

/-- A single cell. -/
def cell (a : ℕ) : Prog α α := fun s => if a < s.len then .done (s.mem a, s) else .fault

def write (a : ℕ) (l : List α) : Prog α Unit := fun s =>
  if s.Inside a l.length then .done ((), s.store a l) else .fault

/-- What is known of the buffer without touching its cells. -/
def look (f : Buf α → β) : Prog α β := fun s => .done (f s, s)

/-- The number of cells in use is changed. -/
def resize (f : Buf α → Buf α) : Prog α Unit := fun s => .done ((), f s)

def fault : Prog α β := fun _ => .fault

def timeout : Prog α β := fun _ => .timeout

/-- The program ends without a fault, with a result and in a buffer as they are called for. -/
def Meets (p : Prog α β) (s : Buf α) (Q : β → Buf α → Prop) : Prop :=
  match p s with
  | .done (b, s') => Q b s'
  | .fault => False
  | .timeout => False

section Rules

variable {s : Buf α} {a n : ℕ} {l : List α} {Q : β → Buf α → Prop} {p : Prog α β}

@[simp] theorem meets_pure {b : β} : Meets (pure b : Prog α β) s Q ↔ Q b s := Iff.rfl

@[simp] theorem meets_bind {R : γ → Buf α → Prop} {f : β → Prog α γ} :
    Meets (p >>= f) s R ↔ Meets p s fun b s' => Meets (f b) s' R := by
  show Meets (Prog.bind p f) s R ↔ _
  cases h : p s <;> simp [Meets, Prog.bind, h]

@[simp] theorem meets_read {Q : List α → Buf α → Prop} :
    Meets (read a n) s Q ↔ s.Inside a n ∧ Q (load s.mem a n) s := by
  by_cases h : s.Inside a n <;> simp [Meets, read, h]

@[simp] theorem meets_cell {Q : α → Buf α → Prop} :
    Meets (cell a) s Q ↔ a < s.len ∧ Q (s.mem a) s := by
  by_cases h : a < s.len <;> simp [Meets, cell, h]

@[simp] theorem meets_write {Q : Unit → Buf α → Prop} :
    Meets (write a l) s Q ↔ s.Inside a l.length ∧ Q () (s.store a l) := by
  by_cases h : s.Inside a l.length <;> simp [Meets, write, h]

@[simp] theorem meets_look {f : Buf α → β} : Meets (look f) s Q ↔ Q (f s) s := Iff.rfl

@[simp] theorem meets_resize {f : Buf α → Buf α} {Q : Unit → Buf α → Prop} :
    Meets (resize f) s Q ↔ Q () (f s) := Iff.rfl

@[simp] theorem meets_fault : Meets (fault : Prog α β) s Q ↔ False := Iff.rfl

@[simp] theorem meets_timeout : Meets (timeout : Prog α β) s Q ↔ False := Iff.rfl

theorem meets_ite {c : Prop} [Decidable c] {p' : Prog α β} :
    Meets (if c then p else p') s Q ↔ (c → Meets p s Q) ∧ (¬c → Meets p' s Q) := by
  split_ifs with h <;> simp [h]

theorem Meets.mono {R : β → Buf α → Prop} (h : Meets p s Q) (hle : ∀ b s', Q b s' → R b s') :
    Meets p s R := by
  unfold Meets at *
  split at h
  · exact hle _ _ h
  · exact h
  · exact h

theorem meets_congr {R : β → Buf α → Prop} (h : ∀ b s', Q b s' ↔ R b s') :
    Meets p s Q ↔ Meets p s R :=
  ⟨fun hp => hp.mono fun b s' => (h b s').mp, fun hp => hp.mono fun b s' => (h b s').mpr⟩

theorem inside_of_le (h : a + n ≤ s.len) : s.Inside a n := Or.inr h

theorem inside_iff (hpos : 0 < n) : s.Inside a n ↔ a + n ≤ s.len := by
  rw [Buf.Inside, or_iff_right hpos.ne']

@[simp] theorem store_len : (s.store a l).len = s.len := rfl

@[simp] theorem store_room : (s.store a l).room = s.room := rfl

theorem store_mem_of_disjoint {i : ℕ} (h : i < a ∨ a + l.length ≤ i) :
    (s.store a l).mem i = s.mem i :=
  store_of_disjoint s.mem l h

@[simp] theorem inside_store {b : ℕ} : (s.store a l).Inside b n ↔ s.Inside b n := Iff.rfl

end Rules

end Rtl8821cu.Guard
