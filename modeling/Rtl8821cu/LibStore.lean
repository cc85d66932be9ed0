import Mathlib

/-! Memories as functions of an address, and stores of consecutive cells. -/
namespace Rtl8821cu.Store

variable {α : Type*}

/-- The cells of `l` from address `a` on. -/
def store (m : ℕ → α) (a : ℕ) : List α → ℕ → α
  | [] => m
  | x :: l => store (Function.update m a x) (a + 1) l

/-- The memory holds the cells of `l` from address `a` on. -/
def HoldsAt (m : ℕ → α) (a : ℕ) (l : List α) : Prop := ∀ k, ∀ x ∈ l[k]?, m (a + k) = x

theorem store_of_lt (m : ℕ → α) {a i : ℕ} (l : List α) (h : i < a) : store m a l i = m i := by
  induction l generalizing m a with
  | nil => rfl
  | cons x l ih =>
    rw [store, ih _ (by omega), Function.update_of_ne (by omega)]

theorem store_of_ge (m : ℕ → α) {a i : ℕ} (l : List α) (h : a + l.length ≤ i) :
    store m a l i = m i := by
  induction l generalizing m a with
  | nil => rfl
  | cons x l ih =>
    rw [List.length_cons] at h
    rw [store, ih _ (by omega), Function.update_of_ne (by omega)]

theorem store_append (m : ℕ → α) (a : ℕ) (l l' : List α) :
    store m a (l ++ l') = store (store m a l) (a + l.length) l' := by
  induction l generalizing m a with
  | nil => rfl
  | cons x l ih =>
    rw [List.cons_append, store, ih, List.length_cons, store,
      show a + 1 + l.length = a + (l.length + 1) by omega]

theorem holdsAt_nil (m : ℕ → α) (a : ℕ) : HoldsAt m a [] := by
  intro k x hx
  simp at hx

theorem holdsAt_cons {m : ℕ → α} {a : ℕ} {x : α} {l : List α} :
    HoldsAt m a (x :: l) ↔ m a = x ∧ HoldsAt m (a + 1) l := by
  constructor
  · intro h
    refine ⟨h 0 x (by simp), ?_⟩
    intro k y hy
    have := h (k + 1) y (by simpa using hy)
    rwa [show a + (k + 1) = a + 1 + k by omega] at this
  · rintro ⟨h0, h⟩ k y hy
    cases k with
    | zero =>
      obtain rfl : x = y := by simpa using hy
      exact h0
    | succ k =>
      have := h k y (by simpa using hy)
      rwa [show a + 1 + k = a + (k + 1) by omega] at this

theorem holdsAt_append {m : ℕ → α} {a : ℕ} {l l' : List α} :
    HoldsAt m a (l ++ l') ↔ HoldsAt m a l ∧ HoldsAt m (a + l.length) l' := by
  induction l generalizing a with
  | nil => simp [holdsAt_nil]
  | cons x l ih =>
    rw [List.cons_append, holdsAt_cons, ih, holdsAt_cons, and_assoc, List.length_cons,
      show a + 1 + l.length = a + (l.length + 1) by omega]

theorem holdsAt_replicate {m : ℕ → α} {a n : ℕ} {x : α} (h : ∀ i, a ≤ i → i < a + n → m i = x) :
    HoldsAt m a (List.replicate n x) := by
  intro k y hy
  obtain ⟨hk, rfl⟩ : k < n ∧ x = y := by simpa [List.getElem?_replicate] using hy
  exact h (a + k) (by omega) (by omega)

theorem holdsAt_store (m : ℕ → α) (a : ℕ) (l : List α) : HoldsAt (store m a l) a l := by
  induction l generalizing m a with
  | nil => exact holdsAt_nil m a
  | cons x l ih =>
    refine holdsAt_cons.mpr ⟨?_, ih _ _⟩
    rw [store, store_of_lt _ _ (by omega), Function.update_self]

theorem store_replicate (m : ℕ → α) {a i n : ℕ} (x : α) (h : a ≤ i) (hi : i < a + n) :
    store m a (List.replicate n x) i = x := by
  have hcell := holdsAt_store m a (List.replicate n x) (i - a) x
    (by rw [List.getElem?_replicate, if_pos (by omega)]; rfl)
  rwa [Nat.add_sub_cancel' h] at hcell

/-- The `n` cells from address `a` on. -/
def load (m : ℕ → α) (a n : ℕ) : List α := (List.range n).map fun k => m (a + k)

@[simp] theorem length_load (m : ℕ → α) (a n : ℕ) : (load m a n).length = n := by
  simp [load]

theorem load_congr {m m' : ℕ → α} {a n : ℕ} (h : ∀ i, a ≤ i → i < a + n → m i = m' i) :
    load m a n = load m' a n := by
  refine List.map_congr_left fun k hk => ?_
  have := List.mem_range.mp hk
  exact h (a + k) (by omega) (by omega)

theorem load_add (m : ℕ → α) (a n k : ℕ) : load m a (n + k) = load m a n ++ load m (a + n) k := by
  simp [load, List.range_add, Nat.add_assoc]

theorem getD_load (m : ℕ → α) (a : ℕ) {n k : ℕ} (h : k < n) (d : α) :
    (load m a n).getD k d = m (a + k) := by
  simp [load, List.getD_eq_getElem?_getD, h]

theorem holdsAt_load (m : ℕ → α) (a n : ℕ) : HoldsAt m a (load m a n) := by
  intro k x hx
  obtain ⟨hk, hget⟩ := List.getElem?_eq_some_iff.mp hx
  rw [← hget]
  simp [load]

theorem load_of_holdsAt {m : ℕ → α} {a : ℕ} {l : List α} (h : HoldsAt m a l) :
    load m a l.length = l := by
  apply List.ext_getElem
  · exact length_load m a l.length
  · intro k hk hk'
    simpa [load] using h k l[k] (by simp [hk'])

/-- A load of some of the cells that the memory holds. -/
theorem HoldsAt.load_eq {m : ℕ → α} {a i n : ℕ} {l : List α} (h : HoldsAt m a l)
    (hn : i + n ≤ l.length) : load m (a + i) n = (l.drop i).take n := by
  have hlen : ((l.drop i).take n).length = n := by
    rw [List.length_take, List.length_drop]
    omega
  apply List.ext_getElem
  · rw [length_load, hlen]
  · intro k hk hk'
    rw [length_load] at hk
    have hcell := h (i + k) l[i + k] (by simp [show i + k < l.length by omega])
    simpa [load, Nat.add_assoc] using hcell

theorem HoldsAt.congr {m m' : ℕ → α} {a : ℕ} {l : List α} (h : HoldsAt m a l)
    (he : ∀ i, a ≤ i → i < a + l.length → m' i = m i) : HoldsAt m' a l := by
  intro k x hx
  have hk : k < l.length := (List.getElem?_eq_some_iff.mp hx).1
  rw [he (a + k) (by omega) (by omega)]
  exact h k x hx

theorem store_of_disjoint (m : ℕ → α) {a i : ℕ} (l : List α) (h : i < a ∨ a + l.length ≤ i) :
    store m a l i = m i := by
  rcases h with h | h
  · exact store_of_lt m l h
  · exact store_of_ge m l h

/-- A store apart from a stretch leaves it. -/
theorem HoldsAt.store_disjoint {m : ℕ → α} {a b : ℕ} {l l' : List α} (h : HoldsAt m a l)
    (hb : a + l.length ≤ b ∨ b + l'.length ≤ a) : HoldsAt (store m b l') a l := by
  apply h.congr
  intro i hi hi'
  exact store_of_disjoint m l' (by omega)

/-- A store behind a stretch leaves it. -/
theorem HoldsAt.store_behind {m : ℕ → α} {a b : ℕ} {l : List α} (h : HoldsAt m a l)
    (hb : a + l.length ≤ b) (l' : List α) : HoldsAt (store m b l') a l :=
  h.store_disjoint (Or.inl hb)

end Rtl8821cu.Store
