import Mathlib

/-! Queues kept in strictly ascending order of a natural-number key: ordered insertion that
refuses an occupied key, and draining from a moving threshold. Nothing here depends on what
the elements or the keys are. -/
namespace Rtl8821cu.KeyQueue

variable {F : Type*}

/-- The keys of the queue are strictly ascending from front to back. -/
def Sorted (k : F → ℕ) (q : List F) : Prop := q.Pairwise (fun x y => k x < k y)

/-- Insert before the first element of larger key; an element of equal key refuses. -/
def insertKey (k : F → ℕ) (x : F) : List F → Option (List F)
  | [] => some [x]
  | y :: ys =>
      if k y < k x then (insertKey k x ys).map (y :: ·)
      else if k y = k x then none
      else some (x :: y :: ys)

/-- Release elements from the front while their key does not exceed the threshold; an element
sitting exactly on the threshold moves it up by one. Returns threshold, released, kept. -/
def drain (k : F → ℕ) (s : ℕ) : List F → ℕ × List F × List F
  | [] => (s, [], [])
  | x :: xs =>
      if k x ≤ s then
        let r := drain k (if k x = s then s + 1 else s) xs
        (r.1, x :: r.2.1, r.2.2)
      else (s, [], x :: xs)

variable {k : F → ℕ}

theorem insertKey_perm {x : F} {q q' : List F} (h : insertKey k x q = some q') :
    q'.Perm (x :: q) := by
  induction q generalizing q' with
  | nil => simp only [insertKey, Option.some.injEq] at h; subst q'; exact List.Perm.refl _
  | cons y ys ih =>
    simp only [insertKey] at h
    split_ifs at h with hlt heq
    · obtain ⟨r, hr, rfl⟩ := Option.map_eq_some_iff.mp h
      exact ((ih hr).cons y).trans (List.Perm.swap x y ys)
    · simp only [Option.some.injEq] at h
      subst q'
      exact List.Perm.refl _

theorem mem_insertKey {x z : F} {q q' : List F} (h : insertKey k x q = some q') :
    z ∈ q' ↔ z = x ∨ z ∈ q := by
  rw [(insertKey_perm h).mem_iff, List.mem_cons]

theorem insertKey_sorted {x : F} {q q' : List F} (hq : Sorted k q)
    (h : insertKey k x q = some q') : Sorted k q' := by
  induction q generalizing q' with
  | nil => simp only [insertKey, Option.some.injEq] at h; subst q'; simp [Sorted]
  | cons y ys ih =>
    obtain ⟨hy, hys⟩ := List.pairwise_cons.mp hq
    simp only [insertKey] at h
    split_ifs at h with hlt heq
    · obtain ⟨r, hr, rfl⟩ := Option.map_eq_some_iff.mp h
      refine List.pairwise_cons.mpr ⟨?_, ih hys hr⟩
      intro z hz
      rcases (mem_insertKey hr).mp hz with rfl | hz
      · exact hlt
      · exact hy z hz
    · simp only [Option.some.injEq] at h
      subst q'
      refine List.pairwise_cons.mpr ⟨?_, hq⟩
      intro z hz
      rcases List.mem_cons.mp hz with rfl | hz
      · omega
      · have := hy z hz
        omega

/-- On an ordered queue, insertion refuses exactly the keys that are already present. -/
theorem insertKey_eq_none {x : F} {q : List F} (hq : Sorted k q) :
    insertKey k x q = none ↔ ∃ y ∈ q, k y = k x := by
  induction q with
  | nil => simp [insertKey]
  | cons y ys ih =>
    obtain ⟨hy, hys⟩ := List.pairwise_cons.mp hq
    simp only [insertKey]
    split_ifs with hlt heq
    · rw [Option.map_eq_none_iff, ih hys]
      simp only [List.mem_cons, exists_eq_or_imp]
      exact ⟨Or.inr, fun h => h.resolve_left (by omega)⟩
    · exact ⟨fun _ => ⟨y, by simp, heq⟩, fun _ => rfl⟩
    · simp only [List.mem_cons, exists_eq_or_imp, false_iff, not_or, not_exists]
      refine ⟨heq, ?_⟩
      rintro z ⟨hz, he⟩
      have := hy z hz
      omega

theorem drain_append (s : ℕ) (q : List F) : (drain k s q).2.1 ++ (drain k s q).2.2 = q := by
  induction q generalizing s with
  | nil => rfl
  | cons x xs ih =>
    simp only [drain]
    split_ifs with h
    · simp [ih]
    · simp [ih]
    · simp

theorem le_drain (s : ℕ) (q : List F) : s ≤ (drain k s q).1 := by
  induction q generalizing s with
  | nil => exact le_rfl
  | cons x xs ih =>
    simp only [drain]
    split_ifs with h he
    · exact (Nat.le_succ s).trans (ih (s + 1))
    · exact ih s
    · exact le_rfl

/-- Everything released lies strictly below the threshold reached. -/
theorem drain_released_lt (s : ℕ) (q : List F) :
    ∀ x ∈ (drain k s q).2.1, k x < (drain k s q).1 := by
  induction q generalizing s with
  | nil => simp [drain]
  | cons x xs ih =>
    simp only [drain]
    split_ifs with h he
    · intro z hz
      rcases List.mem_cons.mp hz with rfl | hz
      · have := le_drain (k := k) (s + 1) xs
        omega
      · exact ih _ z hz
    · intro z hz
      rcases List.mem_cons.mp hz with rfl | hz
      · have := le_drain (k := k) s xs
        omega
      · exact ih _ z hz
    · simp

/-- Everything kept of an ordered queue lies strictly above the threshold reached. -/
theorem drain_kept_gt (s : ℕ) {q : List F} (hq : Sorted k q) :
    ∀ x ∈ (drain k s q).2.2, (drain k s q).1 < k x := by
  induction q generalizing s with
  | nil => simp [drain]
  | cons x xs ih =>
    obtain ⟨hx, hxs⟩ := List.pairwise_cons.mp hq
    simp only [drain]
    split_ifs with h he
    · exact ih _ hxs
    · exact ih _ hxs
    · intro z hz
      rcases List.mem_cons.mp hz with rfl | hz
      · omega
      · have := hx z hz
        omega

theorem drain_le {b : ℕ} (s : ℕ) (q : List F) (hb : ∀ x ∈ q, k x < b) (hs : s ≤ b) :
    (drain k s q).1 ≤ b := by
  induction q generalizing s with
  | nil => exact hs
  | cons x xs ih =>
    have hx := hb x (by simp)
    have ht : ∀ y ∈ xs, k y < b := fun y hy => hb y (by simp [hy])
    simp only [drain]
    split_ifs with h he
    · exact ih _ ht (by omega)
    · exact ih _ ht hs
    · exact hs

/-- The threshold moves only if some element sits exactly on it. -/
theorem drain_eq_of_no_hit (s : ℕ) (q : List F) (h : ∀ x ∈ q, k x ≠ s) : (drain k s q).1 = s := by
  induction q with
  | nil => rfl
  | cons x xs ih =>
    have hx := h x (by simp)
    simp only [drain, hx, if_false]
    split_ifs
    · exact ih fun y hy => h y (by simp [hy])
    · rfl

theorem drain_released_sorted (s : ℕ) {q : List F} (hq : Sorted k q) :
    Sorted k (drain k s q).2.1 := by
  rw [← drain_append (k := k) s q] at hq
  exact (List.pairwise_append.mp hq).1

theorem drain_kept_sorted (s : ℕ) {q : List F} (hq : Sorted k q) :
    Sorted k (drain k s q).2.2 := by
  rw [← drain_append (k := k) s q] at hq
  exact (List.pairwise_append.mp hq).2.1

theorem drain_kept_subset (s : ℕ) (q : List F) :
    ∀ x ∈ (drain k s q).2.2, x ∈ q := by
  intro x hx
  rw [← drain_append (k := k) s q]
  exact List.mem_append_right _ hx

end Rtl8821cu.KeyQueue
