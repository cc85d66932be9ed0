import Mathlib

/-! A bitmap of up to 128 ids kept in four 32-bit words, of which only the words below a
software limit are compiled in. `set` and `clr` are insertion and deletion on the set of ids
that are below the capacity. -/
namespace Rtl8821cu.Bitmap

structure WordMap where
  m0 : BitVec 32
  m1 : BitVec 32
  m2 : BitVec 32
  m3 : BitVec 32
  deriving DecidableEq

def empty : WordMap := ⟨0, 0, 0, 0⟩

/-- The number of ids the compiled-in words can hold. -/
def capacity (lim : ℕ) : ℕ :=
  if 96 < lim then 128 else if 64 < lim then 96 else if 32 < lim then 64 else 32

def isSet (lim : ℕ) (map : WordMap) (id : ℕ) : Bool :=
  if id < 32 then map.m0.getLsbD id
  else if 32 < lim ∧ id < 64 then map.m1.getLsbD (id - 32)
  else if 64 < lim ∧ id < 96 then map.m2.getLsbD (id - 64)
  else if 96 < lim ∧ id < 128 then map.m3.getLsbD (id - 96)
  else false

def set (lim : ℕ) (map : WordMap) (id : ℕ) : WordMap :=
  if id < 32 then { map with m0 := map.m0 ||| BitVec.twoPow 32 id }
  else if 32 < lim ∧ id < 64 then { map with m1 := map.m1 ||| BitVec.twoPow 32 (id - 32) }
  else if 64 < lim ∧ id < 96 then { map with m2 := map.m2 ||| BitVec.twoPow 32 (id - 64) }
  else if 96 < lim ∧ id < 128 then { map with m3 := map.m3 ||| BitVec.twoPow 32 (id - 96) }
  else map

def clr (lim : ℕ) (map : WordMap) (id : ℕ) : WordMap :=
  if id < 32 then { map with m0 := map.m0 &&& ~~~BitVec.twoPow 32 id }
  else if 32 < lim ∧ id < 64 then { map with m1 := map.m1 &&& ~~~BitVec.twoPow 32 (id - 32) }
  else if 64 < lim ∧ id < 96 then { map with m2 := map.m2 &&& ~~~BitVec.twoPow 32 (id - 64) }
  else if 96 < lim ∧ id < 128 then { map with m3 := map.m3 &&& ~~~BitVec.twoPow 32 (id - 96) }
  else map

def word (map : WordMap) : ℕ → BitVec 32
  | 0 => map.m0
  | 1 => map.m1
  | 2 => map.m2
  | _ => map.m3

def setWord (map : WordMap) (w : BitVec 32) : ℕ → WordMap
  | 0 => { map with m0 := w }
  | 1 => { map with m1 := w }
  | 2 => { map with m2 := w }
  | _ => { map with m3 := w }

section Words
variable {lim : ℕ} {map : WordMap}

theorem word_setWord (w : BitVec 32) {k l : ℕ} (hk : k < 4) (hl : l < 4) :
    word (setWord map w k) l = if k = l then w else word map l := by
  interval_cases k <;> interval_cases l <;> rfl

theorem setWord_setWord (v w : BitVec 32) : ∀ k,
    setWord (setWord map v k) w k = setWord map w k
  | 0 => rfl
  | 1 => rfl
  | 2 => rfl
  | _ + 3 => rfl

theorem setWord_word : ∀ k, setWord map (word map k) k = map
  | 0 => rfl
  | 1 => rfl
  | 2 => rfl
  | _ + 3 => rfl

theorem le_capacity (h : lim ≤ 128) : lim ≤ capacity lim := by
  unfold capacity
  split_ifs <;> omega

theorem capacity_le (lim : ℕ) : capacity lim ≤ 128 := by
  unfold capacity
  split_ifs <;> omega

/-- The compiled-in branch for `id` is the one of its word. -/
theorem branch_cases {id : ℕ} (h : id < capacity lim) :
    id / 32 = 0 ∧ id < 32 ∨
      id / 32 = 1 ∧ ¬ id < 32 ∧ (32 < lim ∧ id < 64) ∨
      id / 32 = 2 ∧ ¬ id < 32 ∧ ¬ (32 < lim ∧ id < 64) ∧ (64 < lim ∧ id < 96) ∨
      id / 32 = 3 ∧ ¬ id < 32 ∧ ¬ (32 < lim ∧ id < 64) ∧ ¬ (64 < lim ∧ id < 96) ∧
        (96 < lim ∧ id < 128) := by
  unfold capacity at h
  split_ifs at h <;> omega

theorem isSet_eq_word {id : ℕ} (h : id < capacity lim) :
    isSet lim map id = (word map (id / 32)).getLsbD (id % 32) := by
  have hmod : id % 32 = id - 32 * (id / 32) := by omega
  rw [hmod]
  rcases branch_cases h with ⟨hk, h0⟩ | ⟨hk, h0, h1⟩ | ⟨hk, h0, h1, h2⟩ | ⟨hk, h0, h1, h2, h3⟩
  · simp [isSet, word, hk, h0]
  · simp [isSet, word, hk, h0, h1]
  · simp [isSet, word, hk, h0, h1, h2]
  · simp [isSet, word, hk, h0, h1, h2, h3]

theorem set_eq_setWord {id : ℕ} (h : id < capacity lim) :
    set lim map id =
      setWord map (word map (id / 32) ||| BitVec.twoPow 32 (id % 32)) (id / 32) := by
  have hmod : id % 32 = id - 32 * (id / 32) := by omega
  rw [hmod]
  rcases branch_cases h with ⟨hk, h0⟩ | ⟨hk, h0, h1⟩ | ⟨hk, h0, h1, h2⟩ | ⟨hk, h0, h1, h2, h3⟩
  · simp [set, setWord, word, hk, h0]
  · simp [set, setWord, word, hk, h0, h1]
  · simp [set, setWord, word, hk, h0, h1, h2]
  · simp [set, setWord, word, hk, h0, h1, h2, h3]

theorem clr_eq_setWord {id : ℕ} (h : id < capacity lim) :
    clr lim map id =
      setWord map (word map (id / 32) &&& ~~~BitVec.twoPow 32 (id % 32)) (id / 32) := by
  have hmod : id % 32 = id - 32 * (id / 32) := by omega
  rw [hmod]
  rcases branch_cases h with ⟨hk, h0⟩ | ⟨hk, h0, h1⟩ | ⟨hk, h0, h1, h2⟩ | ⟨hk, h0, h1, h2, h3⟩
  · simp [clr, setWord, word, hk, h0]
  · simp [clr, setWord, word, hk, h0, h1]
  · simp [clr, setWord, word, hk, h0, h1, h2]
  · simp [clr, setWord, word, hk, h0, h1, h2, h3]

theorem branch_none {id : ℕ} (h : ¬ id < capacity lim) :
    ¬ id < 32 ∧ ¬ (32 < lim ∧ id < 64) ∧ ¬ (64 < lim ∧ id < 96) ∧ ¬ (96 < lim ∧ id < 128) := by
  unfold capacity at h
  split_ifs at h <;> omega

end Words

theorem getLsbD_or_twoPow {n : ℕ} (w : BitVec n) {i j : ℕ} (hi : i < n) :
    (w ||| BitVec.twoPow n i).getLsbD j = (w.getLsbD j || decide (i = j)) := by
  simp [BitVec.getLsbD_twoPow, hi]

theorem getLsbD_and_not_twoPow {n : ℕ} (w : BitVec n) {i j : ℕ} (hi : i < n) :
    (w &&& ~~~BitVec.twoPow n i).getLsbD j = (w.getLsbD j && !decide (i = j)) := by
  by_cases hj : j < n
  · simp only [BitVec.getLsbD_and, BitVec.getLsbD_not, BitVec.getLsbD_twoPow, hi, hj,
      decide_true, Bool.true_and]
  · have := BitVec.getLsbD_of_ge w j (by omega)
    simp [this]

theorem and_not_twoPow_eq_zero {n : ℕ} (w : BitVec n) {i : ℕ} (hi : i < n) :
    w &&& ~~~BitVec.twoPow n i = 0 ↔ ∀ j, j ≠ i → w.getLsbD j = false := by
  constructor
  · intro h j hj
    have := congrArg (fun v => v.getLsbD j) h
    simpa [getLsbD_and_not_twoPow w hi, hj.symm] using this
  · intro h
    refine BitVec.eq_of_getLsbD_eq fun j _ => ?_
    rw [getLsbD_and_not_twoPow w hi]
    by_cases hij : i = j
    · simp [hij]
    · simp [h j (Ne.symm hij)]

theorem and_twoPow_eq_zero {n : ℕ} (w : BitVec n) {i : ℕ} (hi : i < n) :
    w &&& BitVec.twoPow n i = 0 ↔ w.getLsbD i = false := by
  constructor
  · intro h
    have := congrArg (fun v => v.getLsbD i) h
    simpa [BitVec.getLsbD_twoPow, hi] using this
  · intro h
    refine BitVec.eq_of_getLsbD_eq fun j _ => ?_
    by_cases hij : i = j
    · subst hij
      simp [h]
    · simp [BitVec.getLsbD_twoPow, hij]

/-- Or-ing in the bits of the indices that pass a test. -/
theorem getLsbD_foldl_or_twoPow {ι : Type*} {n : ℕ} (p : ι → Bool) (f : ι → ℕ) (l : List ι)
    (hf : ∀ i ∈ l, f i < n) (w : BitVec n) (j : ℕ) :
    (l.foldl (fun w i => if p i then w ||| BitVec.twoPow n (f i) else w) w).getLsbD j =
      (w.getLsbD j || l.any fun i => p i && decide (f i = j)) := by
  induction l generalizing w with
  | nil => simp
  | cons i l ih =>
    have hi := hf i (by simp)
    rw [List.foldl_cons, ih fun x hx => hf x (by simp [hx])]
    cases hp : p i with
    | true => simp [getLsbD_or_twoPow w hi, hp, Bool.or_assoc]
    | false => simp [hp]

theorem and_not_or_twoPow (w : BitVec 32) {i : ℕ} (hi : i < 32) (h : w.getLsbD i = false) :
    (w ||| BitVec.twoPow 32 i) &&& ~~~BitVec.twoPow 32 i = w := by
  refine BitVec.eq_of_getLsbD_eq fun j _ => ?_
  rw [getLsbD_and_not_twoPow _ hi, getLsbD_or_twoPow _ hi]
  by_cases hij : i = j
  · subst hij
    simp [h]
  · simp [hij]

section Ids
variable {lim : ℕ} {map : WordMap} {i : ℕ}

@[simp] theorem isSet_empty (lim id : ℕ) : isSet lim empty id = false := by
  simp [isSet, empty]

theorem isSet_set (j : ℕ) (hi : i < capacity lim) :
    isSet lim (set lim map i) j = (isSet lim map j || decide (i = j)) := by
  by_cases hj : j < capacity lim
  · have hcap := capacity_le lim
    rw [set_eq_setWord hi, isSet_eq_word hj, isSet_eq_word hj,
      word_setWord _ (show i / 32 < 4 by omega) (show j / 32 < 4 by omega)]
    by_cases hk : i / 32 = j / 32
    · have hij : i % 32 = j % 32 ↔ i = j := by omega
      rw [if_pos hk, getLsbD_or_twoPow _ (Nat.mod_lt _ (by decide)), hk, decide_eq_decide.mpr hij]
    · have hij : i ≠ j := by
        rintro rfl
        exact hk rfl
      simp [hk, hij]
  · have hij : i ≠ j := by
      rintro rfl
      exact hj hi
    obtain ⟨h0, h1, h2, h3⟩ := branch_none hj
    simp [isSet, h0, h1, h2, h3, hij]

theorem isSet_clr (j : ℕ) : isSet lim (clr lim map i) j = (isSet lim map j && !decide (i = j)) := by
  by_cases hj : j < capacity lim
  · by_cases hi : i < capacity lim
    · have hcap := capacity_le lim
      rw [clr_eq_setWord hi, isSet_eq_word hj, isSet_eq_word hj,
        word_setWord _ (show i / 32 < 4 by omega) (show j / 32 < 4 by omega)]
      by_cases hk : i / 32 = j / 32
      · have hij : i % 32 = j % 32 ↔ i = j := by omega
        rw [if_pos hk, getLsbD_and_not_twoPow _ (Nat.mod_lt _ (by decide)), hk,
          decide_eq_decide.mpr hij]
      · have hij : i ≠ j := by
          rintro rfl
          exact hk rfl
        simp [hk, hij]
    · have hij : i ≠ j := by
        rintro rfl
        exact hi hj
      obtain ⟨h0, h1, h2, h3⟩ := branch_none hi
      simp [clr, h0, h1, h2, h3, hij]
  · obtain ⟨h0, h1, h2, h3⟩ := branch_none hj
    simp [isSet, h0, h1, h2, h3]

/-- Clearing the id that was just set gives back the very same words. -/
theorem clr_set (h : isSet lim map i = false) : clr lim (set lim map i) i = map := by
  by_cases hi : i < capacity lim
  · have hcap := capacity_le lim
    have hk : i / 32 < 4 := by omega
    rw [isSet_eq_word hi] at h
    rw [clr_eq_setWord hi, set_eq_setWord hi, word_setWord _ hk hk, if_pos rfl,
      and_not_or_twoPow _ (Nat.mod_lt _ (by decide)) h, setWord_setWord, setWord_word]
  · obtain ⟨h0, h1, h2, h3⟩ := branch_none hi
    simp [clr, set, h0, h1, h2, h3]

end Ids

end Rtl8821cu.Bitmap
