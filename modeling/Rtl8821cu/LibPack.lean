import Mathlib

/-! Items of given sizes packed into bins in the order in which they come. -/
namespace Rtl8821cu.Pack

variable {α : Type*} {size : α → ℕ} {cap : ℕ}

def total (size : α → ℕ) (l : List α) : ℕ := (l.map size).sum

/-- One more item; the bins are given newest first. -/
def push (size : α → ℕ) (cap : ℕ) : List (List α) → α → List (List α)
  | [], x => [[x]]
  | b :: bs, x =>
    if total size b + size x ≤ cap then (b ++ [x]) :: bs else [x] :: b :: bs

def pack (size : α → ℕ) (cap : ℕ) (l : List α) : List (List α) := l.foldl (push size cap) []

@[simp] theorem total_nil : total size [] = 0 := rfl

@[simp] theorem total_singleton (x : α) : total size [x] = size x := by
  simp [total]

@[simp] theorem total_append (l l' : List α) :
    total size (l ++ l') = total size l + total size l' := by
  simp [total]

/-- Nothing is lost and the order is kept. -/
theorem flatten_push (bs : List (List α)) (x : α) :
    (push size cap bs x).reverse.flatten = bs.reverse.flatten ++ [x] := by
  cases bs with
  | nil => rfl
  | cons b bs =>
    rw [push]
    split_ifs
    · simp
    · simp

theorem flatten_foldl_push (bs : List (List α)) (l : List α) :
    (l.foldl (push size cap) bs).reverse.flatten = bs.reverse.flatten ++ l := by
  induction l generalizing bs with
  | nil => simp
  | cons x l ih => rw [List.foldl_cons, ih, flatten_push, List.append_assoc, List.singleton_append]

/-- A bin is opened for an item or none is. -/
theorem length_push (bs : List (List α)) (x : α) :
    (push size cap bs x).length = bs.length ∨ (push size cap bs x).length = bs.length + 1 := by
  cases bs with
  | nil => exact .inr rfl
  | cons b bs =>
    rw [push]
    split_ifs
    · exact .inl rfl
    · exact .inr rfl

theorem length_le_foldl_push (bs : List (List α)) (l : List α) :
    bs.length ≤ (l.foldl (push size cap) bs).length := by
  induction l generalizing bs with
  | nil => exact le_rfl
  | cons x l ih =>
    have hpush := @length_push _ size cap bs x
    have := ih (push size cap bs x)
    rw [List.foldl_cons]
    omega

theorem length_foldl_push_le (bs : List (List α)) (l : List α) :
    (l.foldl (push size cap) bs).length ≤ bs.length + l.length := by
  induction l generalizing bs with
  | nil => exact le_rfl
  | cons x l ih =>
    have hpush := @length_push _ size cap bs x
    have := ih (push size cap bs x)
    rw [List.foldl_cons, List.length_cons]
    omega

/-- No bin is overfull when each item fits into one. -/
theorem total_le_of_mem_foldl_push {bs : List (List α)} {l : List α}
    (hbs : ∀ b ∈ bs, total size b ≤ cap) (hl : ∀ x ∈ l, size x ≤ cap) :
    ∀ b ∈ l.foldl (push size cap) bs, total size b ≤ cap := by
  induction l generalizing bs with
  | nil => exact hbs
  | cons x l ih =>
    obtain ⟨hx, hl⟩ := List.forall_mem_cons.mp hl
    refine ih ?_ hl
    cases bs with
    | nil =>
      intro b hb
      rw [List.mem_singleton.mp hb, total_singleton]
      exact hx
    | cons b bs =>
      rw [push]
      split_ifs with hfit
      · obtain ⟨-, hbs⟩ := List.forall_mem_cons.mp hbs
        refine List.forall_mem_cons.mpr ⟨?_, hbs⟩
        rwa [total_append, total_singleton]
      · refine List.forall_mem_cons.mpr ⟨?_, hbs⟩
        rwa [total_singleton]

/-- Only the sizes matter. -/
theorem length_pack_map {β : Type*} (f : β → α) (l : List β) :
    (pack size cap (l.map f)).length = (pack (fun x => size (f x)) cap l).length := by
  have hpush (bs : List (List β)) (x : β) :
      push size cap (bs.map (List.map f)) (f x) =
        (push (fun x => size (f x)) cap bs x).map (List.map f) := by
    cases bs with
    | nil => rfl
    | cons b bs =>
      have htotal : total size (b.map f) = total (fun x => size (f x)) b := by
        simp [total, Function.comp_def]
      rw [List.map_cons, push, push, htotal]
      split_ifs
      · simp
      · simp
  have hfold (bs : List (List β)) : (l.map f).foldl (push size cap) (bs.map (List.map f)) =
      (l.foldl (push (fun x => size (f x)) cap) bs).map (List.map f) := by
    induction l generalizing bs with
    | nil => rfl
    | cons x l ih => rw [List.map_cons, List.foldl_cons, hpush, ih, List.foldl_cons]
  have := congrArg List.length (hfold [])
  rwa [List.length_map] at this

end Rtl8821cu.Pack
