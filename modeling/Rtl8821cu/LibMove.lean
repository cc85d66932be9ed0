import Rtl8821cu.LibStore

/-! Moving and filling stretches of a memory, and cutting a piece out of what it holds. -/
namespace Rtl8821cu.Move
open Store

variable {α : Type*} {m : ℕ → α} {a i : ℕ} {front x behind : List α}

/-- The `n` cells from `src` on are moved to `dst`; the stretches may overlap. -/
def memmove (m : ℕ → α) (dst src n : ℕ) : ℕ → α := store m dst (load m src n)

/-- The `n` cells from `a` on are filled. -/
def memset (m : ℕ → α) (a : ℕ) (v : α) (n : ℕ) : ℕ → α := store m a (List.replicate n v)

theorem memmove_of_disjoint {dst src n : ℕ} (h : i < dst ∨ dst + n ≤ i) :
    memmove m dst src n i = m i :=
  store_of_disjoint m _ (by rwa [length_load])

theorem memset_of_disjoint {v : α} {n : ℕ} (h : i < a ∨ a + n ≤ i) : memset m a v n i = m i :=
  store_of_disjoint m _ (by rwa [List.length_replicate])

/-- What follows a piece is moved to its place. -/
theorem holdsAt_memmove (h : HoldsAt m a (x ++ behind)) :
    HoldsAt (memmove m a (a + x.length) behind.length) a behind := by
  obtain ⟨-, hbehind⟩ := holdsAt_append.mp h
  rw [memmove, load_of_holdsAt hbehind]
  exact holdsAt_store m a behind

/-- Cutting leaves the cells in front of the piece and those behind the whole. -/
theorem cut_of_disjoint {v : α} {dst n k : ℕ} (h : i < dst ∨ dst + n + k ≤ i) :
    memset (memmove m dst (dst + k) n) (dst + n) v k i = m i := by
  rw [memset_of_disjoint (by omega), memmove_of_disjoint (by omega)]

/-- The `n` cells from `a` on hold `kept`, and behind it values with a property; the other cells are
as before. -/
structure Rewritten (P : α → Prop) (m m' : ℕ → α) (a n : ℕ) (kept : List α) : Prop where
  length_le : kept.length ≤ n
  holds : HoldsAt m' a kept
  freed : ∀ i, a + kept.length ≤ i → i < a + n → P (m' i)
  outside : ∀ i, i < a ∨ a + n ≤ i → m' i = m i

namespace Rewritten

variable {P : α → Prop} {m' m'' : ℕ → α} {n : ℕ} {kept kept' : List α}

theorem refl (h : HoldsAt m a kept) : Rewritten P m m a kept.length kept :=
  ⟨le_rfl, h, fun i hi hi' => by omega, fun _ _ => rfl⟩

/-- What was kept is rewritten once more. -/
theorem trans (h : Rewritten P m m' a n kept) (h' : Rewritten P m' m'' a kept.length kept') :
    Rewritten P m m'' a n kept' := by
  have hn := h.length_le
  refine ⟨h'.length_le.trans hn, h'.holds, ?_, ?_⟩
  · intro i hi hi'
    rcases Nat.lt_or_ge i (a + kept.length) with hlt | hge
    · exact h'.freed i hi hlt
    · rw [h'.outside i (Or.inr hge)]
      exact h.freed i hge hi'
  · intro i hi
    rw [h'.outside i (by omega)]
    exact h.outside i hi

/-- What stands in front may be counted in. -/
theorem cons_front (h : HoldsAt m a front) (h' : Rewritten P m m' (a + front.length) n kept) :
    Rewritten P m m' a (front.length + n) (front ++ kept) := by
  have hn := h'.length_le
  refine ⟨by rw [List.length_append]; omega, holdsAt_append.mpr ⟨?_, h'.holds⟩, ?_, ?_⟩
  · apply h.congr
    intro i _ hi
    exact h'.outside i (Or.inl hi)
  · intro i hi hi'
    rw [List.length_append] at hi
    exact h'.freed i (by omega) (by omega)
  · intro i hi
    exact h'.outside i (by omega)

/-- A piece is cut out. -/
theorem move (h : HoldsAt m a (x ++ behind)) :
    Rewritten (fun _ => True) m (memmove m a (a + x.length) behind.length) a
      (x.length + behind.length) behind :=
  ⟨by omega, holdsAt_memmove h, fun _ _ _ => trivial,
    fun i hi => memmove_of_disjoint (by omega)⟩

/-- A piece is cut out, and the cells that become free are filled. -/
theorem cut {v : α} (h : HoldsAt m a (x ++ behind)) :
    Rewritten (· = v) m (memset (memmove m a (a + x.length) behind.length)
      (a + behind.length) v x.length) a (x.length + behind.length) behind := by
  refine ⟨by omega, ?_, ?_, ?_⟩
  · exact (holdsAt_memmove h).store_behind le_rfl _
  · intro i hi hi'
    exact store_replicate _ v (by omega) (by omega)
  · intro i hi
    exact cut_of_disjoint (by omega)

/-- What follows stays behind what is kept whole. -/
theorem append_behind (h : Rewritten P m m' a kept.length kept')
    (hlen : kept'.length = kept.length) (hb : HoldsAt m (a + kept.length) behind) :
    Rewritten P m m' a (kept.length + behind.length) (kept' ++ behind) := by
  refine ⟨by rw [List.length_append]; omega, holdsAt_append.mpr ⟨h.holds, ?_⟩, ?_, ?_⟩
  · rw [hlen]
    exact hb.congr fun i hi _ => h.outside i (Or.inr hi)
  · intro i hi hi'
    rw [List.length_append] at hi
    omega
  · intro i hi
    exact h.outside i (by omega)

/-- What follows is moved up to what is kept. -/
theorem squeeze {v : α} (h : Rewritten (· = v) m m' a n kept) (hb : HoldsAt m (a + n) behind) :
    Rewritten (· = v) m (memset (memmove m' (a + kept.length) (a + n) behind.length)
      (a + kept.length + behind.length) v (n - kept.length)) a (n + behind.length)
      (kept ++ behind) := by
  have hn := h.length_le
  have hfreed : HoldsAt m' (a + kept.length) (List.replicate (n - kept.length) v ++ behind) := by
    rw [holdsAt_append, List.length_replicate, show a + kept.length + (n - kept.length) = a + n by
      omega]
    exact ⟨holdsAt_replicate fun i hi hi' => h.freed i hi (by omega),
      hb.congr fun i hi _ => h.outside i (Or.inr hi)⟩
  have hcut := cons_front h.holds (cut (v := v) hfreed)
  rw [List.length_replicate, show a + kept.length + (n - kept.length) = a + n by omega,
    show kept.length + (n - kept.length + behind.length) = n + behind.length by omega] at hcut
  refine ⟨hcut.length_le, hcut.holds, hcut.freed, ?_⟩
  intro i hi
  rw [hcut.outside i hi]
  exact h.outside i (by omega)

/-- A cell of what is kept is changed. -/
theorem update {y z : α} (h : Rewritten P m m' a n (front ++ y :: behind)) :
    Rewritten P m (Function.update m' (a + front.length) z) a n (front ++ z :: behind) := by
  have hn := h.length_le
  rw [List.length_append, List.length_cons] at hn
  obtain ⟨hfront, hrest⟩ := holdsAt_append.mp h.holds
  obtain ⟨-, hbehind⟩ := holdsAt_cons.mp hrest
  refine ⟨by simpa using h.length_le, ?_, ?_, ?_⟩
  · refine holdsAt_append.mpr ⟨?_, holdsAt_cons.mpr ⟨Function.update_self .., ?_⟩⟩
    · exact hfront.congr fun i _ hi => Function.update_of_ne (by omega) ..
    · exact hbehind.congr fun i hi _ => Function.update_of_ne (by omega) ..
  · intro i hi hi'
    rw [List.length_append, List.length_cons] at hi
    rw [Function.update_of_ne (by omega)]
    exact h.freed i (by rw [List.length_append, List.length_cons]; omega) hi'
  · intro i hi
    rw [Function.update_of_ne (by omega)]
    exact h.outside i hi

end Rewritten

end Rtl8821cu.Move
