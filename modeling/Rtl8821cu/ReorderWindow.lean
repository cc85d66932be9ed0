import Rtl8821cu.Reorder

/-! The reordering functions read in offsets from the window start. As long as everything
involved lies within half the sequence space of one base, `SN_LESS` is the order of offsets,
the queue insertion is ordered insertion and the indication loop is a drain. -/
namespace Rtl8821cu.Reorder
open KeyQueue

variable {α : Type*}

/-- Forward distance from `base` to `seq` on the circle of 4096 sequence numbers. -/
def snOff (base seq : ℕ) : ℕ := (seq + 4096 - base) % 4096

/-- The offset of a frame, the key by which the pending queue is ordered. -/
def frameOff (base : ℕ) (f : RecvFrame α) : ℕ := snOff base f.seqNum

theorem snOff_self (base : ℕ) : snOff base base = 0 := by
  simp [snOff]

theorem add_snOff {base seq : ℕ} (hb : base < 4096) (hs : seq < 4096) :
    (base + snOff base seq) % 4096 = seq := by
  unfold snOff
  omega

theorem snOff_add {base s : ℕ} (hb : base < 4096) (hs : s < 4096) :
    snOff base ((base + s) % 4096) = s := by
  unfold snOff
  omega

/-- Moving the base forward by `s` lowers the offsets it has not passed by `s`. -/
theorem snOff_rebase {base s seq : ℕ} (hb : base < 4096) (hq : seq < 4096)
    (h : s ≤ snOff base seq) : snOff ((base + s) % 4096) seq = snOff base seq - s := by
  unfold snOff at *
  omega

theorem snOff_inj {base x y : ℕ} (hb : base < 4096) (hx : x < 4096) (hy : y < 4096) :
    snOff base x = snOff base y ↔ x = y := by
  unfold snOff
  omega

theorem snLess_iff (a b : ℕ) : snLess a b = true ↔ ((a : ℤ) - b) / 2048 % 2 = 1 :=
  decide_eq_true_iff

theorem snLess_iff_le_off {base seq : ℕ} (hb : base < 4096) (hs : seq < 4096) :
    snLess seq base = true ↔ 2048 ≤ snOff base seq := by
  rw [snLess_iff]
  unfold snOff
  omega

theorem snLess_add_iff {base s seq : ℕ} (hb : base < 4096) (hq : seq < 4096) (hs : s ≤ 2047)
    (hk : snOff base seq ≤ 2047) :
    snLess ((base + s) % 4096) seq = true ↔ s < snOff base seq := by
  rw [snLess_iff]
  unfold snOff at *
  omega

theorem snEqual_add_iff {base s seq : ℕ} (hb : base < 4096) (hq : seq < 4096) (hs : s < 4096) :
    snEqual ((base + s) % 4096) seq = true ↔ snOff base seq = s := by
  simp only [snEqual, decide_eq_true_eq]
  unfold snOff
  omega

theorem mask0xFFF_succ (base s : ℕ) :
    mask0xFFF (((base + s) % 4096 : ℕ) + 1 : ℤ) = (base + (s + 1)) % 4096 := by
  unfold mask0xFFF
  omega

/-- How far `check_indicate_seq` moves the window start for a frame at offset `d`. -/
def windowShift (w d : ℕ) : ℕ := if d = 0 then 1 else if w ≤ d then d + 1 - w else 0

theorem windowShift_le {w d : ℕ} (hw : 1 ≤ w) : windowShift w d ≤ d + 1 := by
  unfold windowShift
  split_ifs <;> omega

theorem checkIndicateSeq_behind {c : RecvReorderCtrl α} {seqNum : ℕ} (hb : c.indicateSeq < 4096)
    (hs : seqNum < 4096) (hd : 2048 ≤ snOff c.indicateSeq seqNum) :
    checkIndicateSeq c seqNum = (c, false) := by
  have hinit : c.indicateSeq ≠ 0xFFFF := by omega
  have hless := (snLess_iff_le_off hb hs).mpr hd
  simp [checkIndicateSeq, hinit, hless]

/-- The two hand-written shift formulas agree with circular addition on every input. -/
theorem checkIndicateSeq_ahead {c : RecvReorderCtrl α} {w seqNum : ℕ} (hb : c.indicateSeq < 4096)
    (hs : seqNum < 4096) (hcw : c.wsizeB = w) (hw : 1 ≤ w) (hw' : w ≤ 64)
    (hd : snOff c.indicateSeq seqNum < 2048) :
    checkIndicateSeq c seqNum =
      ({ c with indicateSeq :=
          (c.indicateSeq + windowShift w (snOff c.indicateSeq seqNum)) % 4096 }, true) := by
  subst w
  have hinit : c.indicateSeq ≠ 0xFFFF := by omega
  have hless : snLess seqNum c.indicateSeq = false := by
    rw [Bool.eq_false_iff, ne_eq, snLess_iff_le_off hb hs]
    omega
  have hend : snLess (mask0xFFF ((c.indicateSeq : ℤ) + c.wsizeB - 1)) seqNum = true ↔
      c.wsizeB ≤ snOff c.indicateSeq seqNum := by
    rw [snLess_iff]
    unfold mask0xFFF snOff at *
    omega
  simp only [checkIndicateSeq, hinit, if_false, hless, snEqual, decide_eq_true_eq, hend,
    Bool.false_eq_true]
  unfold windowShift
  split_ifs with heq h0 h0 hle hge <;>
    simp only [Prod.mk.injEq, and_true, RecvReorderCtrl.mk.injEq, true_and, mask0xFFF, toU16] <;>
    (unfold snOff at *; omega)

theorem enqueueReorderRecvframe_eq_insertKey {base : ℕ} (hb : base < 4096) (f : RecvFrame α)
    (q : List (RecvFrame α)) (hf : frameOff base f ≤ 2047) (hq : ∀ g ∈ q, frameOff base g ≤ 2047) :
    enqueueReorderRecvframe f q = insertKey (frameOff base) f q := by
  induction q with
  | nil => rfl
  | cons g q ih =>
    have hg := hq g (by simp)
    have hadd := add_snOff hb g.seqNum_lt
    have hless : snLess g.seqNum f.seqNum = true ↔ frameOff base g < frameOff base f := by
      have h := snLess_add_iff hb f.seqNum_lt hg hf
      rwa [frameOff, hadd] at h
    have heq : snEqual g.seqNum f.seqNum = true ↔ frameOff base g = frameOff base f := by
      simp only [snEqual, decide_eq_true_eq]
      exact (snOff_inj hb g.seqNum_lt f.seqNum_lt).symm
    simp only [enqueueReorderRecvframe, insertKey, hless, heq,
      ih (fun y hy => hq y (by simp [hy]))]

theorem indicateLoop_eq_drain {base : ℕ} (hb : base < 4096) (q : List (RecvFrame α)) (s : ℕ)
    (hq : ∀ g ∈ q, frameOff base g ≤ 2047) (hsort : Sorted (frameOff base) q)
    (hs : q ≠ [] → s ≤ 2047) :
    indicateLoop ((base + s) % 4096) q =
      ((base + (drain (frameOff base) s q).1) % 4096,
        (drain (frameOff base) s q).2.1, (drain (frameOff base) s q).2.2) := by
  induction q generalizing s with
  | nil => rfl
  | cons g q ih =>
    have hg := hq g (by simp)
    have hs' := hs (by simp)
    obtain ⟨hhead, htail⟩ := List.pairwise_cons.mp hsort
    have hrest : ∀ y ∈ q, frameOff base y ≤ 2047 := fun y hy => hq y (by simp [hy])
    have hless := snLess_add_iff hb g.seqNum_lt hs' hg
    have hequal := snEqual_add_iff hb g.seqNum_lt (show s < 4096 by omega)
    have hnext : ∀ s', s' ≤ frameOff base g + 1 ∨ s' ≤ 2047 → q ≠ [] → s' ≤ 2047 := by
      intro s' hs' hne
      obtain ⟨y, hy⟩ := List.exists_mem_of_ne_nil q hne
      have := hhead y hy
      have := hrest y hy
      omega
    by_cases hle : frameOff base g ≤ s
    · have hl : snLess ((base + s) % 4096) g.seqNum = false := by
        rw [Bool.eq_false_iff, ne_eq, hless]
        exact not_lt.mpr hle
      by_cases he : frameOff base g = s
      · have hE := hequal.mpr he
        simp only [indicateLoop, drain, hl, Bool.not_false, if_true, hE, le_refl, he,
          mask0xFFF_succ, ih (s + 1) hrest htail (hnext _ (Or.inl (by omega)))]
      · have hE : snEqual ((base + s) % 4096) g.seqNum = false := by
          rw [Bool.eq_false_iff, ne_eq, hequal]
          exact he
        simp only [indicateLoop, drain, hl, Bool.not_false, if_true, hE, hle, he, if_false,
          Bool.false_eq_true, ih s hrest htail (hnext _ (Or.inr hs'))]
    · have hl := hless.mpr (not_le.mp hle)
      simp only [indicateLoop, drain, hl, Bool.not_true, hle, if_false, Bool.false_eq_true]

end Rtl8821cu.Reorder
