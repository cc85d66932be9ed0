import Rtl8821cu.PowerSaveCount

/-! The TIM bit of a sleeping station: when it tells of every frame that only a poll fetches. -/
namespace Rtl8821cu.PowerSave
open Run

/-- A frame without the marks that handing it to transmission sets. -/
def Frame.unmarked (f : Frame) : Frame := { f with triggered := false, mdata := false, eosp := false }

/-- No buffered frame is stranded: the TIM bit is set for every frame that a trigger does not
deliver, and for every frame if all access categories are delivery-enabled; it is clear when
nothing is buffered; and waking up hands out the sleep queue in its order. -/
structure NotStranded (s : Sta) : Prop where
  tim_set : s.sleep → ∀ f ∈ s.sleepQ,
    (deliveryEnabled s.uapsd f = false ∨ ∀ ac, (s.uapsd.ac ac).getLsbD 1) → s.tim
  tim_clear : s.sleepQ = [] → s.mgmtSleepQ = [] → s.tim = false
  wakeup : (wakeupStaToXmit s).handed.map Frame.unmarked = s.sleepQ.map Frame.unmarked ∧
    (wakeupStaToXmit s).sta.sleepQ = []

/-- A station has no legacy access category exactly if all of them are delivery-enabled. -/
theorem hasLegacyAc_eq_false_iff (s : Sta) :
    s.uapsd.hasLegacyAc = false ↔ ∀ ac, (s.uapsd.ac ac).getLsbD 1 := by
  unfold Sta.uapsd rtwApParseStaWmmIe
  split
  next qosInfo _ _ =>
    have hbits : ∀ q : BitVec 8, decide (q &&& 0xf ≠ 0xf) = false ↔
        q.getLsbD 0 ∧ q.getLsbD 1 ∧ q.getLsbD 2 ∧ q.getLsbD 3 := by
      decide
    rw [hbits]
    constructor
    · rintro ⟨h0, h1, h2, h3⟩ ac
      cases ac <;> simp [qosInfoBit, h0, h1, h2, h3]
    · intro h
      have hset : ∀ ac, qosInfo.getLsbD (qosInfoBit ac) = true := by
        intro ac
        have hac := h ac
        by_contra hn
        simp [hn] at hac
      exact ⟨hset .vo, hset .vi, hset .bk, hset .be⟩
  · exact iff_of_false (by simp) fun h => by simpa using h .vo

theorem deliveryEnabled_of_no_legacy {s : Sta} (h : s.uapsd.hasLegacyAc = false) (f : Frame) :
    deliveryEnabled s.uapsd f = true :=
  (hasLegacyAc_eq_false_iff s).mp h (acOf f.priority)

section Loops

variable {u : Uapsd} (q : List Frame) (len acLen : ℕ) (tim : Bool)

theorem wakeupLoop_handed :
    (wakeupLoop u q len acLen).1.map Frame.unmarked = q.map Frame.unmarked := by
  induction q generalizing len acLen with
  | nil => rfl
  | cons f q ih =>
    cases h : deliveryEnabled u f with
    | false =>
      rw [wakeupLoop_cons_legacy _ _ _ h, List.map_cons, List.map_cons, ih]
      rfl
    | true =>
      rw [wakeupLoop_cons_delivered _ _ _ h, List.map_cons, List.map_cons, ih]
      rfl

theorem wakeupStaToXmit_handed (s : Sta) :
    (wakeupStaToXmit s).handed = (wakeupLoop s.uapsd s.sleepQ s.sleepqLen s.sleepqAcLen).1 := by
  unfold wakeupStaToXmit
  dsimp only
  split_ifs <;> rfl

theorem wakeupMgmtLoop_len : (wakeupMgmtLoop q q.length).2 = 0 := by
  induction q with
  | nil => rfl
  | cons f q ih => exact ih

/-- A trigger leaves the TIM bit of a station with a legacy access category. -/
theorem deliveryLoop_tim_of_legacy (h : u.hasLegacyAc = true) :
    (deliveryLoop u q len acLen tim).tim = tim := by
  induction q generalizing len acLen tim with
  | nil => rfl
  | cons f q ih =>
    cases hf : deliveryEnabled u f with
    | false =>
      rw [deliveryLoop_cons_kept _ _ _ _ hf]
      exact ih _ _ _
    | true =>
      rw [deliveryLoop_cons_handed _ _ _ _ hf, h, Bool.not_true, Bool.and_false, Bool.not_false,
        Bool.and_true]
      exact ih _ _ _

/-- Where every frame is delivered, the last one clears it. -/
theorem deliveryLoop_tim_of_all (h : u.hasLegacyAc = false)
    (hq : ∀ f ∈ q, deliveryEnabled u f = true) (hne : q ≠ []) :
    (deliveryLoop u q len q.length tim).tim = false := by
  induction q generalizing len tim with
  | nil => exact absurd rfl hne
  | cons f q ih =>
    rw [deliveryLoop_cons_handed _ _ _ _ (hq f (by simp)), List.length_cons, dec_succ]
    cases q with
    | nil => simp [deliveryLoop, h]
    | cons g q => exact ih _ _ (fun f hf => hq f (by simp [hf])) (by simp)

end Loops

/-- What is true of a station after any run. -/
structure Books (s : Sta) : Prop where
  len : s.sleepqLen = s.sleepQ.length
  mgmtLen : s.mgmtSleepqLen = s.mgmtSleepQ.length
  acLen : s.uapsd.hasLegacyAc = false → s.sleepqAcLen = s.sleepQ.length
  awake : s.sleep = false → s.sleepQ = []

/-- What is true of the TIM bit while no trigger empties the sleep queue behind it. -/
structure Told (s : Sta) : Prop where
  tim_set : ∀ f ∈ s.sleepQ,
    deliveryEnabled s.uapsd f = false ∨ s.uapsd.hasLegacyAc = false → s.tim = true
  tim_clear : s.sleepQ = [] → s.mgmtSleepQ = [] → s.tim = false

section Books

variable {s : Sta}

theorem Books.enqueue (h : Books s) (f : Frame) : Books (xmitframeEnqueueForSleepingSta s f).2 := by
  unfold xmitframeEnqueueForSleepingSta
  split_ifs with h1 h2 h3
  · exact h
  · exact h
  · have hsleep : s.sleep = true := by
      rw [Bool.and_eq_true] at h3
      exact h3.1
    refine ⟨?_, h.mgmtLen, ?_, ?_⟩
    · rw [List.length_append, ← h.len]
      rfl
    · intro hleg
      change (if wmmpsAc s.uapsd 0 f.priority then s.sleepqAcLen + 1 else s.sleepqAcLen) = _
      have hd : wmmpsAc s.uapsd 1 f.priority = true := deliveryEnabled_of_no_legacy hleg f
      rw [wmmpsAc_zero_eq_one, hd, if_pos rfl, List.length_append, ← h.acLen hleg]
      rfl
    · intro hs
      rw [hsleep] at hs
      cases hs
  · exact h

theorem Books.enqueueMgmt (h : Books s) (f : Frame) :
    Books (mgmtXmitframeEnqueueForSleepingSta s f).2 := by
  unfold mgmtXmitframeEnqueueForSleepingSta
  split_ifs
  · exact h
  · exact h
  · refine ⟨h.len, ?_, h.acLen, h.awake⟩
    rw [List.length_append, ← h.mgmtLen]
    rfl
  · exact h

theorem Books.stop (h : Books s) (mgmt pending : List Frame) :
    Books (stopStaXmit mgmt pending s) := by
  apply dequeueToSleepq_invariant fun t f ht => ht.enqueue f
  apply dequeueToSleepq_invariant fun t f ht => ht.enqueueMgmt f
  exact ⟨h.len, h.mgmtLen, h.acLen, fun hs => by cases hs⟩

/-- Waking up empties the queues and clears the bit. -/
theorem Books.wakeup_eq (h : Books s) :
    (wakeupStaToXmit s).sta = { s with
      mgmtSleepQ := []
      mgmtSleepqLen := 0
      sleepQ := []
      sleepqLen := 0
      sleepqAcLen := (wakeupLoop s.uapsd s.sleepQ s.sleepqLen s.sleepqAcLen).2.2
      tim := false
      sleep := false
      dz := false } := by
  have hlen := wakeupLoop_len (u := s.uapsd) s.sleepQ s.sleepqAcLen
  have hmgmt := wakeupMgmtLoop_len s.mgmtSleepQ
  rw [← h.len] at hlen
  rw [← h.mgmtLen] at hmgmt
  simp only [wakeupStaToXmit, hlen, hmgmt, and_self, if_true]

theorem Books.wakeup (h : Books s) : Books (wakeupStaToXmit s).sta := by
  rw [h.wakeup_eq]
  refine ⟨rfl, rfl, ?_, fun _ => rfl⟩
  intro hleg
  change (wakeupLoop s.uapsd s.sleepQ s.sleepqLen s.sleepqAcLen).2.2 = 0
  have hall : s.sleepQ.countP (deliveryEnabled s.uapsd) = s.sleepQ.length :=
    List.countP_eq_length.mpr fun f _ => deliveryEnabled_of_no_legacy hleg f
  rw [h.acLen hleg, ← hall]
  exact wakeupLoop_acLen s.sleepQ s.sleepqLen

theorem Books.trigger (h : Books s) : Books (xmitDeliveryEnabledFrames s).sta := by
  refine ⟨delivery_len h.len, h.mgmtLen, ?_, ?_⟩
  · intro (hleg : s.uapsd.hasLegacyAc = false)
    have hall : s.sleepQ.countP (deliveryEnabled s.uapsd) = s.sleepQ.length :=
      List.countP_eq_length.mpr fun f _ => deliveryEnabled_of_no_legacy hleg f
    have hac := (deliveryLoop_counted (u := s.uapsd) s.sleepQ s.sleepqLen s.tim).1
    rw [hall, ← h.acLen hleg] at hac
    change (deliveryLoop _ _ _ _ _).acLen = (deliveryLoop _ _ _ _ _).kept.length
    rw [hac, deliveryLoop_kept, List.filter_eq_nil_iff.mpr]
    · rfl
    · intro f _
      simp [deliveryEnabled_of_no_legacy hleg f]
  · intro hs
    change (deliveryLoop _ _ _ _ _).kept = []
    rw [deliveryLoop_kept, h.awake hs]
    rfl

/-- A station without a legacy access category is not served by a poll. -/
theorem not_pollServed_of_no_legacy (h : s.uapsd.hasLegacyAc = false) (aid : ℕ)
    (priority : BitVec 8) : ¬pollServed s aid priority = true := by
  have hd : wmmpsAc s.uapsd 1 priority = true := (hasLegacyAc_eq_false_iff s).mp h (acOf priority)
  simp [pollServed, wmmpsAc_zero_eq_one, hd]

theorem Books.poll (h : Books s) (aid : ℕ) (priority : BitVec 8) :
    Books (validateRecvCtrlFrame s aid priority).sta := by
  by_cases hs : pollServed s aid priority = true
  · have hleg : ¬s.uapsd.hasLegacyAc = false :=
      fun hleg => not_pollServed_of_no_legacy hleg aid priority hs
    cases hq : s.sleepQ with
    | nil =>
      rw [validateRecvCtrlFrame_nil hs hq]
      have hlen := h.len
      rw [hq, List.length_nil] at hlen
      refine ⟨?_, h.mgmtLen, fun hl => absurd hl hleg, h.awake⟩
      dsimp only
      rw [hq, hlen]
      split_ifs <;> rfl
    | cons f q =>
      rw [validateRecvCtrlFrame_cons hs hq]
      have hlen := h.len
      rw [hq, List.length_cons] at hlen
      refine ⟨?_, h.mgmtLen, fun hl => absurd hl hleg, ?_⟩
      · dsimp only
        rw [hlen, dec_succ]
      · intro hsl
        have := h.awake hsl
        rw [hq] at this
        cases this
  · rw [validateRecvCtrlFrame_of_not_served hs]
    exact h

theorem Books.step (h : Books s) (op : Op) : Books (step s op) := by
  cases op with
  | offer f => exact h.enqueue f
  | offerMgmt f => exact h.enqueueMgmt f
  | stop mgmt pending => exact h.stop mgmt pending
  | wakeup => exact h.wakeup
  | trigger => exact h.trigger
  | psPoll aid priority => exact h.poll aid priority

theorem Books.notStranded_iff (h : Books s) : NotStranded s ↔ Told s := by
  constructor
  · intro hn
    refine ⟨?_, hn.tim_clear⟩
    intro f hf hd
    cases hs : s.sleep with
    | false =>
      rw [h.awake hs] at hf
      cases hf
    | true =>
      rw [hasLegacyAc_eq_false_iff] at hd
      exact hn.tim_set hs f hf hd
  · intro ht
    refine ⟨?_, ht.tim_clear, ?_, ?_⟩
    · intro _ f hf hd
      rw [← hasLegacyAc_eq_false_iff] at hd
      exact ht.tim_set f hf hd
    · rw [wakeupStaToXmit_handed, wakeupLoop_handed]
    · rw [h.wakeup_eq]

end Books

section Told

variable {s : Sta}

theorem Told.enqueue (h : Told s) (f : Frame) : Told (xmitframeEnqueueForSleepingSta s f).2 := by
  unfold xmitframeEnqueueForSleepingSta
  split_ifs with h1 h2 h3
  · exact h
  · exact h
  · refine ⟨?_, ?_⟩
    · intro g hg (hd : deliveryEnabled s.uapsd g = false ∨ s.uapsd.hasLegacyAc = false)
      change (s.tim || _) = true
      rw [wmmpsAc_zero_eq_one, Bool.or_eq_true]
      rcases List.mem_append.mp hg with hg | hg
      · exact .inl (h.tim_set g hg hd)
      · obtain rfl : g = f := by simpa using hg
        right
        change (_ && !deliveryEnabled s.uapsd g || _ && deliveryEnabled s.uapsd g) = true
        cases hl : s.uapsd.hasLegacyAc with
        | false => rw [deliveryEnabled_of_no_legacy hl g]; rfl
        | true =>
          rcases hd with hd | hd
          · rw [hd]; rfl
          · rw [hl] at hd; cases hd
    · intro hnil
      simp at hnil
  · exact h

theorem Told.enqueueMgmt (h : Told s) (f : Frame) :
    Told (mgmtXmitframeEnqueueForSleepingSta s f).2 := by
  unfold mgmtXmitframeEnqueueForSleepingSta
  split_ifs
  · exact h
  · exact h
  · refine ⟨fun _ _ _ => rfl, ?_⟩
    intro _ hnil
    simp at hnil
  · exact h

theorem Told.stop (h : Told s) (mgmt pending : List Frame) :
    Told (stopStaXmit mgmt pending s) := by
  apply dequeueToSleepq_invariant fun t f ht => ht.enqueue f
  apply dequeueToSleepq_invariant fun t f ht => ht.enqueueMgmt f
  exact ⟨h.tim_set, h.tim_clear⟩

theorem Told.wakeup (hb : Books s) : Told (wakeupStaToXmit s).sta := by
  rw [hb.wakeup_eq]
  refine ⟨?_, fun _ _ => rfl⟩
  intro f hf
  cases hf

theorem Told.poll (h : Told s) (hb : Books s) (aid : ℕ) (priority : BitVec 8) :
    Told (validateRecvCtrlFrame s aid priority).sta := by
  by_cases hs : pollServed s aid priority = true
  · cases hq : s.sleepQ with
    | nil =>
      rw [validateRecvCtrlFrame_nil hs hq]
      refine ⟨?_, fun _ _ => rfl⟩
      intro f hf
      rw [hq] at hf
      cases hf
    | cons f q =>
      rw [validateRecvCtrlFrame_cons hs hq]
      have hlen : dec s.sleepqLen = q.length := by
        rw [hb.len, hq, List.length_cons, dec_succ]
      rw [hlen]
      refine ⟨?_, ?_⟩
      · intro g hg hd
        have hg' : g ∈ s.sleepQ := by
          rw [hq]
          exact List.mem_cons_of_mem f hg
        have hne : q.length ≠ 0 := fun h0 => by
          rw [List.length_eq_zero_iff.mp h0] at hg
          cases hg
        simp [h.tim_set g hg' hd, hne]
      · intro (hnil : q = []) _
        simp [hnil]
  · rw [validateRecvCtrlFrame_of_not_served hs]
    exact h

/-- A trigger that takes the last buffered frame of a station with a legacy access category while
its TIM bit is set. -/
def TriggerEmpties (s : Sta) : Op → Prop
  | .trigger => s.uapsd.hasLegacyAc = true ∧ s.tim = true ∧ s.mgmtSleepQ = [] ∧
      ∀ f ∈ s.sleepQ, deliveryEnabled s.uapsd f = true
  | _ => False

/-- The trigger clears the TIM bit only where it delivers everything. -/
theorem Told.trigger_iff (h : Told s) (hb : Books s) :
    Told (xmitDeliveryEnabledFrames s).sta ↔ ¬TriggerEmpties s .trigger := by
  have hkept : (xmitDeliveryEnabledFrames s).sta.sleepQ =
      s.sleepQ.filter fun f => !deliveryEnabled s.uapsd f := deliveryLoop_kept _ _ _ _
  cases hl : s.uapsd.hasLegacyAc with
  | true =>
    have htim : (xmitDeliveryEnabledFrames s).sta.tim = s.tim :=
      deliveryLoop_tim_of_legacy _ _ _ _ hl
    constructor
    · rintro ⟨-, hclear⟩ ⟨-, ht, hm, hall⟩
      have hnil : (xmitDeliveryEnabledFrames s).sta.sleepQ = [] := by
        rw [hkept, List.filter_eq_nil_iff]
        intro f hf
        simp [hall f hf]
      have hfalse := hclear hnil hm
      rw [htim, ht] at hfalse
      cases hfalse
    · intro hno
      refine ⟨?_, ?_⟩
      · intro f hf hd
        rw [hkept] at hf
        rw [htim]
        exact h.tim_set f (List.mem_of_mem_filter hf) hd
      · intro hnil hm
        rw [hkept, List.filter_eq_nil_iff] at hnil
        rw [htim]
        by_contra ht
        refine hno ⟨hl, by simpa using ht, hm, ?_⟩
        intro f hf
        simpa using hnil f hf
  | false =>
    have hno : ¬TriggerEmpties s .trigger := fun hno => by
      rw [hno.1] at hl
      cases hl
    have hnil : (xmitDeliveryEnabledFrames s).sta.sleepQ = [] := by
      rw [hkept, List.filter_eq_nil_iff]
      intro f _
      simp [deliveryEnabled_of_no_legacy hl f]
    refine iff_of_true ⟨?_, ?_⟩ hno
    · intro f hf
      rw [hnil] at hf
      cases hf
    · intro _ hm
      by_cases hq : s.sleepQ = []
      · have ht := h.tim_clear hq hm
        change (deliveryLoop _ _ _ _ _).tim = false
        rw [hq]
        exact ht
      · change (deliveryLoop s.uapsd s.sleepQ s.sleepqLen s.sleepqAcLen s.tim).tim = false
        rw [hb.acLen hl]
        exact deliveryLoop_tim_of_all _ _ _ hl (fun f _ => deliveryEnabled_of_no_legacy hl f) hq

theorem Told.step_iff (h : Told s) (hb : Books s) (op : Op) :
    Told (step s op) ↔ ¬TriggerEmpties s op := by
  cases op with
  | offer f => exact iff_of_true (h.enqueue f) not_false
  | offerMgmt f => exact iff_of_true (h.enqueueMgmt f) not_false
  | stop mgmt pending => exact iff_of_true (h.stop mgmt pending) not_false
  | wakeup => exact iff_of_true (Told.wakeup hb) not_false
  | trigger => exact h.trigger_iff hb
  | psPoll aid priority => exact iff_of_true (h.poll hb aid priority) not_false

end Told

/-- From a station that is awake with nothing buffered, no frame is stranded in any state of a
run exactly if no trigger of the run empties the buffers behind a set TIM bit. -/
theorem no_frame_stranded_iff (s : Sta) (ops : List Op) (hq : s.sleepQ = [])
    (hm : s.mgmtSleepQ = []) (hlen : s.sleepqLen = 0) (hmlen : s.mgmtSleepqLen = 0)
    (hac : s.sleepqAcLen = 0) (htim : s.tim = false) :
    (∀ k, NotStranded (run step s (ops.take k))) ↔
      Along step (fun s op => ¬TriggerEmpties s op) s ops := by
  have hb : Books s := by
    refine ⟨?_, ?_, ?_, fun _ => hq⟩
    · rw [hlen, hq, List.length_nil]
    · rw [hmlen, hm, List.length_nil]
    · intro _
      rw [hac, hq, List.length_nil]
  have ht : Told s := by
    refine ⟨?_, fun _ _ => htim⟩
    intro f hf
    rw [hq] at hf
    cases hf
  have hall : ∀ k, Books (run step s (ops.take k)) := fun k =>
    run_invariant (P := fun _ _ => True) (fun t op h _ => h.step op) hb
      (along_of_forall fun _ _ _ => trivial)
  have hiff : (∀ k, Told (run step s (ops.take k)) ∧ Books (run step s (ops.take k))) ↔
      Along step (fun s op => ¬TriggerEmpties s op) s ops := by
    apply forall_take_iff_along (I := fun t => Told t ∧ Books t) _ ⟨ht, hb⟩
    intro t op _ h
    constructor
    · intro h'
      exact (h.1.step_iff h.2 op).mp h'.1
    · intro hno
      exact ⟨(h.1.step_iff h.2 op).mpr hno, h.2.step op⟩
  rw [← hiff]
  refine forall_congr' fun k => ?_
  rw [(hall k).notStranded_iff]
  exact ⟨fun h => ⟨h, hall k⟩, fun h => h.1⟩

/-- A best effort frame is polled and a voice frame is triggered; the wake-up clears the bit. -/
theorem no_frame_stranded_iff_poll :
    (associated 1 0b0001#8).sleepQ = [] ∧
      ∀ k, NotStranded (run step (associated 1 0b0001#8)
        (([.stop [] [], .offer (dataFrame 0 6), .offer (dataFrame 1 0), .trigger, .psPoll 1 0,
          .wakeup] : List Op).take k)) := by
  refine ⟨rfl, (no_frame_stranded_iff _ _ rfl rfl rfl rfl rfl rfl).mpr ?_⟩
  simp only [Along, TriggerEmpties]
  decide

/-- The poll takes the best effort frame and leaves the bit for the voice frame; the trigger then
takes the voice frame and leaves the bit with nothing buffered. -/
theorem trigger_leaves_tim :
    ∃ k, ¬NotStranded (run step (associated 1 0b0001#8)
      (([.stop [] [], .offer (dataFrame 0 0), .offer (dataFrame 1 6), .psPoll 1 0,
        .trigger] : List Op).take k)) := by
  refine ⟨5, fun h => ?_⟩
  have hclear := h.tim_clear (by decide) (by decide)
  revert hclear
  decide

end Rtl8821cu.PowerSave
