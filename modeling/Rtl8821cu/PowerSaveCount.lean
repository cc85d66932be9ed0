import Rtl8821cu.LibRun
import Rtl8821cu.PowerSave

/-! The counters of the sleep queue: how each operation keeps them, and the poll that does not. -/
namespace Rtl8821cu.PowerSave
open Run

/-- The two bits of an access category are set together. -/
theorem wmmpsAc_zero_eq_one (s : Sta) (priority : BitVec 8) :
    wmmpsAc s.uapsd 0 priority = wmmpsAc s.uapsd 1 priority := by
  unfold wmmpsAc Sta.uapsd rtwApParseStaWmmIe
  split
  · dsimp only
    split_ifs <;> rfl
  · simp

/-- A frame is marked as the end of the service period exactly if no frame follows. -/
def EospOnLast : List Frame → Prop
  | [] => True
  | f :: l => (f.eosp = true ↔ l = []) ∧ EospOnLast l

/-- The two counters say how many frames are buffered, and how many of them a trigger delivers. -/
structure Counted (s : Sta) : Prop where
  len : s.sleepqLen = s.sleepQ.length
  acLen : s.sleepqAcLen = s.sleepQ.countP (deliveryEnabled s.uapsd)

/-- The counters are exact, and a service period that starts now ends with its last frame. -/
structure Exact (s : Sta) : Prop extends Counted s where
  eosp : EospOnLast (xmitDeliveryEnabledFrames s).handed

section Loops

variable {u : Uapsd} {f : Frame} (q : List Frame) (len acLen : ℕ) (tim : Bool)

theorem deliveryLoop_cons_kept (h : deliveryEnabled u f = false) :
    deliveryLoop u (f :: q) len acLen tim =
      { deliveryLoop u q len acLen tim with kept := f :: (deliveryLoop u q len acLen tim).kept } := by
  rw [deliveryLoop, if_pos (by simp [h])]

theorem deliveryLoop_cons_handed (h : deliveryEnabled u f = true) :
    deliveryLoop u (f :: q) len acLen tim =
      let r := deliveryLoop u q (dec len) (dec acLen)
        (tim && !(dec acLen == 0 && !u.hasLegacyAc))
      { r with handed := { f with
          mdata := dec acLen != 0
          eosp := dec acLen == 0
          triggered := true } :: r.handed } := by
  rw [deliveryLoop, if_neg (by simp [h])]

/-- The trigger takes the delivery-enabled frames out of the queue. -/
theorem deliveryLoop_kept :
    (deliveryLoop u q len acLen tim).kept = q.filter fun f => !deliveryEnabled u f := by
  induction q generalizing len acLen tim with
  | nil => rfl
  | cons f q ih =>
    cases h : deliveryEnabled u f with
    | false => rw [deliveryLoop_cons_kept q len acLen tim h, List.filter_cons_of_pos (by simp [h]), ih]
    | true =>
      rw [deliveryLoop_cons_handed q len acLen tim h, List.filter_cons_of_neg (by simp [h])]
      exact ih _ _ _

/-- It takes what it delivers off the length. -/
theorem deliveryLoop_len (n : ℕ) :
    (deliveryLoop u q (n + q.countP (deliveryEnabled u)) acLen tim).len = n := by
  induction q generalizing acLen tim with
  | nil => rfl
  | cons f q ih =>
    cases h : deliveryEnabled u f with
    | false =>
      rw [List.countP_cons_of_neg (by simp [h]), deliveryLoop_cons_kept _ _ _ _ h]
      exact ih _ _
    | true =>
      rw [List.countP_cons_of_pos h, ← Nat.add_assoc, deliveryLoop_cons_handed _ _ _ _ h, dec_succ]
      exact ih _ _

/-- If the second counter is exact, it reaches zero at the last frame, which is marked. -/
theorem deliveryLoop_counted :
    let r := deliveryLoop u q len (q.countP (deliveryEnabled u)) tim
    r.acLen = 0 ∧ r.handed.length = q.countP (deliveryEnabled u) ∧ EospOnLast r.handed := by
  induction q generalizing len tim with
  | nil => exact ⟨rfl, rfl, trivial⟩
  | cons f q ih =>
    cases h : deliveryEnabled u f with
    | false =>
      rw [List.countP_cons_of_neg (by simp [h]), deliveryLoop_cons_kept _ _ _ _ h]
      exact ih len tim
    | true =>
      rw [List.countP_cons_of_pos h, deliveryLoop_cons_handed _ _ _ _ h]
      simp only [dec_succ]
      obtain ⟨hac, hcount, heosp⟩ :=
        ih (dec len) (tim && !(q.countP (deliveryEnabled u) == 0 && !u.hasLegacyAc))
      refine ⟨hac, ?_, ?_, heosp⟩
      · rw [List.length_cons, hcount]
      · rw [← List.length_eq_zero_iff, hcount, beq_iff_eq]

theorem wakeupLoop_cons_legacy (h : deliveryEnabled u f = false) :
    wakeupLoop u (f :: q) len acLen =
      ({ f with mdata := dec len != 0, triggered := true } :: (wakeupLoop u q (dec len) acLen).1,
        (wakeupLoop u q (dec len) acLen).2) := by
  rw [wakeupLoop, if_neg (by simp [h])]

theorem wakeupLoop_cons_delivered (h : deliveryEnabled u f = true) :
    wakeupLoop u (f :: q) len acLen =
      ({ f with mdata := dec acLen != 0, eosp := dec acLen == 0, triggered := true } ::
          (wakeupLoop u q (dec len) (dec acLen)).1,
        (wakeupLoop u q (dec len) (dec acLen)).2) := by
  rw [wakeupLoop, if_pos h]

/-- Waking up takes all frames off the length. -/
theorem wakeupLoop_len : (wakeupLoop u q q.length acLen).2.1 = 0 := by
  induction q generalizing acLen with
  | nil => rfl
  | cons f q ih =>
    cases h : deliveryEnabled u f with
    | false =>
      rw [wakeupLoop_cons_legacy _ _ _ h]
      exact ih acLen
    | true =>
      rw [wakeupLoop_cons_delivered _ _ _ h]
      exact ih (dec acLen)

theorem wakeupLoop_acLen :
    (wakeupLoop u q len (q.countP (deliveryEnabled u))).2.2 = 0 := by
  induction q generalizing len with
  | nil => rfl
  | cons f q ih =>
    cases h : deliveryEnabled u f with
    | false =>
      rw [List.countP_cons_of_neg (by simp [h]), wakeupLoop_cons_legacy _ _ _ h]
      exact ih (dec len)
    | true =>
      rw [List.countP_cons_of_pos h, wakeupLoop_cons_delivered _ _ _ h]
      exact ih (dec len)

end Loops

/-- What every buffering keeps, moving pending frames to the sleep queue keeps. -/
theorem dequeueToSleepq_invariant {I : Sta → Prop} {enqueue : Sta → Frame → Bool × Sta}
    (h : ∀ s f, I s → I (enqueue s f).2) (q : List Frame) {s : Sta} (hs : I s) :
    I (dequeueToSleepq enqueue q s).2 := by
  induction q generalizing s with
  | nil => exact hs
  | cons f q ih => exact ih (h s _ hs)

theorem length_eq_kept_add_delivered (u : Uapsd) (q : List Frame) :
    q.length = (q.filter fun f => !deliveryEnabled u f).length + q.countP (deliveryEnabled u) := by
  rw [List.length_eq_countP_add_countP (deliveryEnabled u), Nat.add_comm]
  simp [List.countP_eq_length_filter]

section Step

variable {s : Sta}

/-- The length stays exact whatever the second counter says. -/
theorem delivery_len (h : s.sleepqLen = s.sleepQ.length) :
    (xmitDeliveryEnabledFrames s).sta.sleepqLen =
      (xmitDeliveryEnabledFrames s).sta.sleepQ.length := by
  change (deliveryLoop _ _ _ _ _).len = (deliveryLoop _ _ _ _ _).kept.length
  rw [deliveryLoop_kept, h, length_eq_kept_add_delivered s.uapsd s.sleepQ, deliveryLoop_len]

theorem Counted.delivery (h : Counted s) :
    Counted (xmitDeliveryEnabledFrames s).sta ∧
      EospOnLast (xmitDeliveryEnabledFrames s).handed := by
  obtain ⟨hac, -, heosp⟩ := deliveryLoop_counted (u := s.uapsd) s.sleepQ s.sleepqLen s.tim
  rw [← h.acLen] at hac heosp
  refine ⟨⟨delivery_len h.len, ?_⟩, heosp⟩
  · change (deliveryLoop _ _ _ _ _).acLen = (deliveryLoop _ _ _ _ _).kept.countP _
    rw [hac, deliveryLoop_kept]
    symm
    rw [List.countP_eq_zero]
    intro f hf
    change ¬deliveryEnabled s.uapsd f = true
    simpa using (List.mem_filter.mp hf).2

theorem Counted.exact (h : Counted s) : Exact s := ⟨h, h.delivery.2⟩

theorem Counted.enqueue (h : Counted s) (f : Frame) :
    Counted (xmitframeEnqueueForSleepingSta s f).2 := by
  unfold xmitframeEnqueueForSleepingSta
  split_ifs with h1 h2 h3
  · exact h
  · exact h
  · refine ⟨?_, ?_⟩
    · rw [List.length_append, ← h.len]
      rfl
    · change (if wmmpsAc s.uapsd 0 f.priority then s.sleepqAcLen + 1 else s.sleepqAcLen) =
        (s.sleepQ ++ [f]).countP (deliveryEnabled s.uapsd)
      rw [wmmpsAc_zero_eq_one, List.countP_append, ← h.acLen, List.countP_singleton]
      change (if deliveryEnabled s.uapsd f then _ else _) = _
      split_ifs <;> rfl
  · exact h

theorem Counted.enqueueMgmt (h : Counted s) (f : Frame) :
    Counted (mgmtXmitframeEnqueueForSleepingSta s f).2 := by
  unfold mgmtXmitframeEnqueueForSleepingSta
  split_ifs
  all_goals exact ⟨h.len, h.acLen⟩

theorem Counted.stop (h : Counted s) (mgmt pending : List Frame) :
    Counted (stopStaXmit mgmt pending s) := by
  apply dequeueToSleepq_invariant fun t f ht => ht.enqueue f
  apply dequeueToSleepq_invariant fun t f ht => ht.enqueueMgmt f
  exact ⟨h.len, h.acLen⟩

theorem Counted.wakeup (h : Counted s) : Counted (wakeupStaToXmit s).sta := by
  have hlen := wakeupLoop_len (u := s.uapsd) s.sleepQ s.sleepqAcLen
  have hac := wakeupLoop_acLen (u := s.uapsd) s.sleepQ s.sleepqLen
  rw [← h.len] at hlen
  rw [← h.acLen] at hac
  unfold wakeupStaToXmit
  dsimp only
  split_ifs
  all_goals exact ⟨hlen, hac⟩

/-- A served poll that takes a delivery-enabled frame. -/
def PollsDelivery (s : Sta) : Op → Prop
  | .psPoll aid priority =>
    pollServed s aid priority ∧ ∃ f ∈ s.sleepQ.head?, deliveryEnabled s.uapsd f
  | _ => False

theorem validateRecvCtrlFrame_nil {aid : ℕ} {priority : BitVec 8}
    (hs : pollServed s aid priority = true) (hq : s.sleepQ = []) :
    (validateRecvCtrlFrame s aid priority).sta =
      { s with sleepqLen := if s.tim then 0 else s.sleepqLen, tim := false } := by
  rw [validateRecvCtrlFrame, if_pos hs, hq]

theorem validateRecvCtrlFrame_cons {aid : ℕ} {priority : BitVec 8} {f : Frame} {q : List Frame}
    (hs : pollServed s aid priority = true) (hq : s.sleepQ = f :: q) :
    (validateRecvCtrlFrame s aid priority).sta =
      { s with
        sleepQ := q
        sleepqLen := dec s.sleepqLen
        tim := s.tim && dec s.sleepqLen != 0 } := by
  rw [validateRecvCtrlFrame, if_pos hs, hq]

theorem validateRecvCtrlFrame_of_not_served {aid : ℕ} {priority : BitVec 8}
    (hs : ¬pollServed s aid priority = true) :
    (validateRecvCtrlFrame s aid priority).sta = s := by
  rw [validateRecvCtrlFrame, if_neg hs]

/-- The poll takes the frame off the queue and leaves the second counter. -/
theorem Counted.poll_iff (h : Counted s) (aid : ℕ) (priority : BitVec 8) :
    Counted (validateRecvCtrlFrame s aid priority).sta ↔
      ¬PollsDelivery s (.psPoll aid priority) := by
  obtain ⟨hl, ha⟩ := h
  by_cases hs : pollServed s aid priority = true
  · cases hq : s.sleepQ with
    | nil =>
      rw [hq] at hl ha
      rw [validateRecvCtrlFrame_nil hs hq]
      have hno : ¬PollsDelivery s (.psPoll aid priority) := by
        simp [PollsDelivery, hq]
      refine iff_of_true ⟨?_, ?_⟩ hno
      · dsimp only
        rw [hq, hl]
        split_ifs <;> rfl
      · dsimp only
        rw [hq, ha]
        rfl
    | cons f q =>
      rw [hq] at hl ha
      rw [validateRecvCtrlFrame_cons hs hq]
      have hlen : dec s.sleepqLen = q.length := by
        rw [hl, List.length_cons, dec_succ]
      constructor
      · rintro ⟨-, hac⟩ ⟨-, g, hg, hdel⟩
        obtain rfl : f = g := by simpa [hq] using hg
        rw [List.countP_cons_of_pos hdel] at ha
        have hac' : s.sleepqAcLen = q.countP (deliveryEnabled s.uapsd) := hac
        omega
      · intro hno
        have hdel : ¬deliveryEnabled s.uapsd f = true := fun hd => hno ⟨hs, f, by simp [hq], hd⟩
        rw [List.countP_cons_of_neg hdel] at ha
        exact ⟨hlen, ha⟩
  · rw [validateRecvCtrlFrame_of_not_served hs]
    exact iff_of_true ⟨hl, ha⟩ fun h => hs h.1

/-- Every operation keeps exact counters, but for the poll of a delivery-enabled frame. -/
theorem Counted.step_iff (h : Counted s) (op : Op) : Counted (step s op) ↔ ¬PollsDelivery s op := by
  cases op with
  | offer f => exact iff_of_true (h.enqueue f) not_false
  | offerMgmt f => exact iff_of_true (h.enqueueMgmt f) not_false
  | stop mgmt pending => exact iff_of_true (h.stop mgmt pending) not_false
  | wakeup => exact iff_of_true h.wakeup not_false
  | trigger => exact iff_of_true h.delivery.1 not_false
  | psPoll aid priority => exact h.poll_iff aid priority

end Step

/-- From an empty queue and zero counters, the counters and the end of every service period are
exact in all states of a run exactly if no poll of the run takes a delivery-enabled frame. -/
theorem sleepq_counters_exact_iff (s : Sta) (ops : List Op) (hq : s.sleepQ = [])
    (hlen : s.sleepqLen = 0) (hac : s.sleepqAcLen = 0) :
    (∀ k, Exact (run step s (ops.take k))) ↔ Along step (fun s op => ¬PollsDelivery s op) s ops := by
  have h0 : Counted s := ⟨by rw [hlen, hq]; rfl, by rw [hac, hq]; rfl⟩
  rw [← forall_take_iff_along (fun t op _ ht => ht.step_iff op) h0]
  exact forall_congr' fun k => ⟨fun h => h.toCounted, fun h => h.exact⟩

/-- A station that has just associated with the given QoS information. -/
def associated (aid : ℕ) (qosInfo : BitVec 8) : Sta where
  aid := aid
  asoc := true
  qosOption := true
  wmm := some qosInfo
  sleep := false
  dz := false
  tim := false
  sleepQ := []
  sleepqLen := 0
  sleepqAcLen := 0
  mgmtSleepQ := []
  mgmtSleepqLen := 0

/-- A unicast frame of the given priority. -/
def dataFrame (id : ℕ) (priority : BitVec 8) : Frame where
  id := id
  priority := priority
  psta := 1
  ra := .unicast 1
  psDontq := false
  triggered := false
  mdata := false
  eosp := false

/-- A voice frame and a best effort frame, of which the voice frame is delivery-enabled. -/
theorem sleepq_counters_exact_iff_trigger :
    (associated 1 0b0001#8).sleepQ = [] ∧
      ∀ k, Exact (run step (associated 1 0b0001#8)
        (([.stop [] [], .offer (dataFrame 0 6), .offer (dataFrame 1 0), .trigger,
          .psPoll 1 0] : List Op).take k)) := by
  refine ⟨rfl, (sleepq_counters_exact_iff _ _ rfl rfl rfl).mpr ?_⟩
  simp only [Along, PollsDelivery]
  decide

/-- The poll takes the voice frame, and one delivery-enabled frame stays on the books. -/
theorem poll_of_delivery_enabled_miscounts :
    ∃ k, ¬Exact (run step (associated 1 0b0001#8)
      (([.stop [] [], .offer (dataFrame 0 6), .psPoll 1 0] : List Op).take k)) := by
  refine ⟨3, fun h => ?_⟩
  have hac := h.acLen
  revert hac
  decide

end Rtl8821cu.PowerSave
