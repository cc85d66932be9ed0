import Rtl8821cu.LibRun
import Rtl8821cu.PowerSaveTim
import Rtl8821cu.XmitSchedCore

/-! Transmit scheduling over whole runs: whom the pending frames belong to, and what every
operation keeps of the accounting. -/
namespace Rtl8821cu.XmitSched
open PowerSave

variable {n : ℕ}

/-- A frame that `mgmt_xmitframe_enqueue_for_sleeping_sta` may buffer. -/
def Bufferable (f : Frame) : Prop := f.ra ≠ .group ∧ f.psDontq = false

namespace Xmit

/-- A frame that may stand in a queue: its station is associated under the receiver address, and
the queue is that of its priority or the management queue. -/
structure Owned (x : Xmit n) (p : Fin n × Hwq) (f : Frame) : Prop where
  addr : x.addr p.1 = some f.ra
  psta : f.psta = p.1
  asoc : (x.ps p.1).asoc = true
  hwq : p.2 = rtwGetStaPending f ∨ p.2 = .mgmt ∧ Bufferable f

/-- Whom the frames belong to. -/
structure Own (x : Xmit n) : Prop where
  owned : ∀ p, ∀ f ∈ (x.servq p).staPending, x.Owned p f
  mgmt : ∀ i, ∀ f ∈ (x.ps i).mgmtSleepQ, Bufferable f
  inj : ∀ i j a, x.addr i = some a → x.addr j = some a → i = j
  unused : ∀ i, x.addr i = none →
    (x.ps i).asoc = false ∧ (x.ps i).sleepQ = [] ∧ (x.ps i).mgmtSleepQ = []

/-- The invariant of a run. -/
structure Inv (x : Xmit n) (M : Multiset ℕ) : Prop extends x.Core M, x.Own

section Own

variable {x : Xmit n} {p : Fin n × Hwq} {f : Frame} {M : Multiset ℕ}

theorem addr_of_rtwGetStainfo {ra : Addr} {i : Fin n} (h : x.rtwGetStainfo ra = some i) :
    x.addr i = some ra := by
  simpa using List.find?_some h

theorem rtwGetStainfo_of_addr (hinj : ∀ i j a, x.addr i = some a → x.addr j = some a → i = j)
    {ra : Addr} {i : Fin n} (hi : x.addr i = some ra) : x.rtwGetStainfo ra = some i := by
  cases hf : x.rtwGetStainfo ra with
  | none =>
    have := List.find?_eq_none.mp hf i (List.mem_finRange i)
    simp [hi] at this
  | some j => rw [hinj i j ra hi (addr_of_rtwGetStainfo hf)]

/-- Fewer frames in the queues belong as before. -/
theorem Own.shrink (h : x.Own) {y : Xmit n} (haddr : y.addr = x.addr) (hps : y.ps = x.ps)
    (hq : ∀ p, ∀ f ∈ (y.servq p).staPending, f ∈ (x.servq p).staPending) : y.Own := by
  refine ⟨?_, ?_, ?_, ?_⟩
  · intro p f hf
    obtain ⟨h1, h2, h3, h4⟩ := h.owned p f (hq p f hf)
    exact ⟨by rw [haddr, h1], h2, by rw [hps, h3], h4⟩
  · rw [hps]
    exact h.mgmt
  · rw [haddr]
    exact h.inj
  · rw [haddr, hps]
    exact h.unused

theorem Own.setPs (h : x.Own) {i : Fin n} {s : Sta} (hasoc : s.asoc = (x.ps i).asoc)
    (hm : ∀ f ∈ s.mgmtSleepQ, Bufferable f)
    (hu : x.addr i = none → s.sleepQ = [] ∧ s.mgmtSleepQ = []) : (x.setPs i s).Own := by
  have hps : ∀ j, j ≠ i → (x.setPs i s).ps j = x.ps j := fun j hj => Function.update_of_ne hj _ _
  have hself : (x.setPs i s).ps i = s := Function.update_self _ _ _
  refine ⟨?_, ?_, h.inj, ?_⟩
  · intro p f hf
    obtain ⟨h1, h2, h3, h4⟩ := h.owned p f hf
    refine ⟨h1, h2, ?_, h4⟩
    by_cases hp : p.1 = i
    · rw [hp, hself, hasoc, ← hp, h3]
    · rw [hps _ hp, h3]
  · intro j f hf
    by_cases hj : j = i
    · subst hj
      rw [hself] at hf
      exact hm f hf
    · rw [hps j hj] at hf
      exact h.mgmt j f hf
  · intro j hj
    by_cases hji : j = i
    · subst hji
      rw [hself, hasoc]
      exact ⟨(h.unused j hj).1, hu hj⟩
    · rw [hps j hji]
      exact h.unused j hj

theorem Own.replace (h : x.Own) {l : List Frame} {d : ℤ} (hl : ∀ f ∈ l, x.Owned p f) :
    ((x.setPending p l).addCnt p d).Own := by
  refine ⟨?_, h.mgmt, h.inj, h.unused⟩
  intro q g hg
  rw [addCnt_pending] at hg
  have hown : x.Owned q g := by
    by_cases hq : q = p
    · subst hq
      rw [setPending_pending_self] at hg
      exact hl g hg
    · rw [setPending_servq_of_ne _ _ _ hq] at hg
      exact h.owned q g hg
  exact ⟨hown.addr, hown.psta, hown.asoc, hown.hwq⟩

end Own

section Inv

variable {x : Xmit n} {p : Fin n × Hwq} {f : Frame} {M : Multiset ℕ}

theorem link_servq : (x.link p).servq = x.servq := by
  unfold Xmit.link
  split_ifs <;> rfl

theorem link_addr : (x.link p).addr = x.addr := by
  unfold Xmit.link
  split_ifs <;> rfl

theorem link_ps : (x.link p).ps = x.ps := by
  unfold Xmit.link
  split_ifs <;> rfl

theorem mem_link : p.1 ∈ (x.link p).staQueue p.2 := by
  unfold Xmit.link
  split_ifs with hp
  · exact hp
  · simp

/-- A frame is put at the end of its queue, which gets linked. -/
theorem Inv.put (h : x.Inv M) (ho : x.Owned p f) :
    (((x.link p).setPending p ((x.servq p).staPending ++ [f])).addCnt p 1).Inv (M + {f.id}) := by
  have hlink : (x.link p).Own := h.toOwn.shrink link_addr link_ps fun q g hg => by
    rwa [link_servq] at hg
  refine ⟨(h.toCore.link p).replace ?_ (fun _ => mem_link) ?_, hlink.replace ?_⟩
  · rw [link_servq]
    simp
  · rw [link_servq, ids_append, ids_cons, ids_nil]
    abel
  · intro g hg
    have hown : x.Owned p g := by
      rcases List.mem_append.mp hg with hg | hg
      · exact h.owned p g hg
      · rw [List.mem_singleton.mp hg]
        exact ho
    obtain ⟨h1, h2, h3, h4⟩ := hown
    exact ⟨by rw [link_addr, h1], h2, by rw [link_ps, h3], h4⟩

/-- The first frame of a queue is taken off. -/
theorem Inv.pop (h : x.Inv (M + {f.id})) {q : List Frame} (hq : (x.servq p).staPending = f :: q) :
    ((x.setPending p q).addCnt p (-1)).Inv M := by
  refine ⟨h.toCore.replace ?_ ?_ ?_, h.toOwn.replace ?_⟩
  · rw [hq, List.length_cons]
    push_cast
    ring
  · intro _
    exact h.linked p (by simp [hq])
  · rw [hq, ids_cons, add_assoc]
  · intro g hg
    exact h.owned p g (by simp [hq, hg])

theorem Inv.exists_add (h : x.Inv M) {q : List Frame} (hq : (x.servq p).staPending = f :: q) :
    ∃ M', M = M' + {f.id} := by
  have hmem : f.id ∈ M := by
    rw [← h.conserved]
    simp only [everywhere, Multiset.mem_add]
    refine .inl (.inr (Pool.mem_total.mpr ⟨p, ?_⟩))
    simp [hq]
  exact ⟨M.erase f.id, by rw [add_comm, Multiset.singleton_add, Multiset.cons_erase hmem]⟩

theorem Inv.unlink (h : x.Inv M) (hp : (x.servq p).staPending = []) : (x.unlink p).Inv M :=
  ⟨h.toCore.unlink hp, h.toOwn.shrink rfl rfl fun _ _ hf => hf⟩

theorem Inv.rearrange (h : x.Inv M) (p : Fin n × Hwq) : (x.rearrange p).Inv M :=
  ⟨h.toCore.rearrange p, h.toOwn.shrink rfl rfl fun _ _ hf => hf⟩

theorem Inv.freeFrames (h : x.Inv M) (l : List Frame) : (x.freeFrames l).Inv (M + ids l) :=
  ⟨h.toCore.freeFrames l, h.toOwn.shrink rfl rfl fun _ _ hf => hf⟩

theorem Inv.release (h : x.Inv (M + {f.id})) {k : ℕ} (hk : x.held[k]? = some f) :
    (x.release k).Inv M :=
  ⟨h.toCore.release hk, h.toOwn.shrink rfl rfl fun _ _ hf => hf⟩

theorem Inv.hold (h : x.Inv M) (f : Frame) : Inv { x with held := f :: x.held } (M + {f.id}) :=
  ⟨h.toCore.hold f, h.toOwn.shrink rfl rfl fun _ _ hf => hf⟩

theorem Inv.exists_add_of_held (h : x.Inv M) {k : ℕ} (hk : x.held[k]? = some f) :
    ∃ M', M = M' + {f.id} := by
  have hmem : f.id ∈ M := by
    rw [← h.conserved]
    simp only [everywhere, Multiset.mem_add]
    refine .inl (.inl (.inr ?_))
    exact List.mem_map_of_mem (List.mem_of_getElem? hk)
  exact ⟨M.erase f.id, by rw [add_comm, Multiset.singleton_add, Multiset.cons_erase hmem]⟩

/-- A classified frame stands in the queue of its station. -/
theorem Inv.enqueueTo {hwq : Frame → Hwq} {x' : Xmit n} (h : x.Inv M)
    (he : enqueueTo hwq x f = some x') (hf : hwq f = rtwGetStaPending f ∨
      hwq f = .mgmt ∧ Bufferable f) : x'.Inv (M + {f.id}) := by
  unfold Xmit.enqueueTo at he
  cases hi : x.rtwGetStainfo f.ra with
  | none => simp [hi] at he
  | some i =>
    simp only [hi] at he
    split_ifs at he with hpsta hasoc
    obtain rfl := Option.some.inj he
    apply h.put
    exact ⟨addr_of_rtwGetStainfo hi, not_not.mp hpsta, by simpa using hasoc, hf⟩

theorem Inv.hand {enqueue : Xmit n → Frame → Option (Xmit n)} (h : x.Inv M)
    (he : ∀ x', enqueue x f = some x' → x'.Inv (M + {f.id})) :
    (hand enqueue x f).Inv (M + {f.id}) := by
  unfold Xmit.hand
  cases hx : enqueue x f with
  | none => exact h.freeFrames [f]
  | some x' => exact he x' hx

/-- Every frame handed to transmission is pending or freed. -/
theorem Inv.handAll (h : x.Inv M) (l : List Frame) :
    (l.foldl (Xmit.hand rtwXmitClassifier) x).Inv (M + ids l) := by
  induction l generalizing x M with
  | nil => simpa using h
  | cons f l ih =>
    rw [List.foldl_cons, ids_cons, ← add_assoc]
    exact ih (h.hand fun x' hx => h.enqueueTo hx (.inl rfl))

theorem Inv.handAllMgmt (h : x.Inv M) (l : List Frame) (hl : ∀ f ∈ l, Bufferable f) :
    (l.foldl (Xmit.hand rtwMgmtXmitframeEnqueue) x).Inv (M + ids l) := by
  induction l generalizing x M with
  | nil => simpa using h
  | cons f l ih =>
    rw [List.foldl_cons, ids_cons, ← add_assoc]
    refine ih (h.hand fun x' hx => h.enqueueTo hx (.inr ⟨rfl, hl f (by simp)⟩)) ?_
    intro g hg
    exact hl g (by simp [hg])

/-- What an operation on the sleep queues hands out was in them. -/
structure Hands (s : Sta) (r : Outcome) : Prop where
  frames : sleeping s = sleeping r.sta + ids r.mgmtHanded + ids r.handed
  asoc : r.sta.asoc = s.asoc
  mgmt : ∀ f ∈ r.sta.mgmtSleepQ, f ∈ s.mgmtSleepQ
  sleep : s.sleepQ = [] → r.sta.sleepQ = []
  handed : ∀ f ∈ r.mgmtHanded, ∃ g ∈ s.mgmtSleepQ, f.ra = g.ra ∧ f.psDontq = g.psDontq

theorem Inv.handOutcome (h : x.Inv M) {i : Fin n} {r : Outcome} (hr : Hands (x.ps i) r) :
    (x.handOutcome i r).Inv M := by
  have hle : ids r.mgmtHanded + ids r.handed ≤ M := by
    rw [← h.conserved]
    refine le_trans ?_ (Multiset.le_add_left _ _)
    refine le_trans ?_ (Finset.single_le_sum (f := fun i => sleeping (x.ps i)) (by simp)
      (Finset.mem_univ i))
    rw [hr.frames, add_assoc]
    exact Multiset.le_add_left _ _
  obtain ⟨M', rfl⟩ := Multiset.le_iff_exists_add.mp hle
  have hps : (x.setPs i r.sta).Inv M' := by
    refine ⟨h.toCore.setPs ?_, h.toOwn.setPs hr.asoc ?_ ?_⟩
    · rw [hr.frames]
      abel
    · intro f hf
      exact h.mgmt i f (hr.mgmt f hf)
    · intro hi
      obtain ⟨-, hs, hm⟩ := h.unused i hi
      refine ⟨hr.sleep hs, List.eq_nil_iff_forall_not_mem.mpr fun f hf => ?_⟩
      have := hr.mgmt f hf
      rw [hm] at this
      cases this
  have hmgmt : ∀ f ∈ r.mgmtHanded, Bufferable f := by
    intro f hf
    obtain ⟨g, hg, hra, hdq⟩ := hr.handed f hf
    have hb := h.mgmt i g hg
    exact ⟨by rw [hra]; exact hb.1, by rw [hdq]; exact hb.2⟩
  have hall := (hps.handAllMgmt _ hmgmt).handAll r.handed
  rwa [add_assoc, add_comm] at hall

end Inv

section Outcomes

variable (s : Sta)

theorem ids_of_unmarked {l l' : List Frame}
    (h : l.map Frame.unmarked = l'.map Frame.unmarked) : ids l = ids l' := by
  have hid : ∀ l : List Frame, ids l = ids (l.map Frame.unmarked) := by
    intro l
    simp [ids, Frame.unmarked, Function.comp_def]
  rw [hid l, h, ← hid l']

theorem wakeupMgmtLoop_eq (q : List Frame) (len : ℕ) :
    (wakeupMgmtLoop q len).1 = q.map fun f => { f with triggered := true } := by
  induction q generalizing len with
  | nil => rfl
  | cons f q ih => rw [wakeupMgmtLoop, List.map_cons, ih]

theorem wakeupBmcLoop_ids (q : List Frame) (len : ℕ) : ids (wakeupBmcLoop q len).1 = ids q := by
  induction q generalizing len with
  | nil => rfl
  | cons f q ih => rw [wakeupBmcLoop, ids_cons, ids_cons, ih]

theorem deliveryLoop_ids (u : Uapsd) (q : List Frame) (len acLen : ℕ) (tim : Bool) :
    ids (deliveryLoop u q len acLen tim).kept + ids (deliveryLoop u q len acLen tim).handed =
      ids q := by
  induction q generalizing len acLen tim with
  | nil => rfl
  | cons f q ih =>
    cases h : deliveryEnabled u f with
    | false =>
      rw [deliveryLoop_cons_kept _ _ _ _ h, ids_cons, ids_cons, add_assoc, ih]
    | true =>
      rw [deliveryLoop_cons_handed _ _ _ _ h, ids_cons, ids_cons, add_left_comm, ih]

theorem hands_wakeup : Hands s (wakeupStaToXmit s) := by
  have hids : ids (wakeupLoop s.uapsd s.sleepQ s.sleepqLen s.sleepqAcLen).1 = ids s.sleepQ :=
    ids_of_unmarked (wakeupLoop_handed _ _ _)
  have hm : ids (wakeupMgmtLoop s.mgmtSleepQ s.mgmtSleepqLen).1 = ids s.mgmtSleepQ := by
    rw [wakeupMgmtLoop_eq]
    simp [ids, Function.comp_def]
  have hh : ∀ f ∈ (wakeupMgmtLoop s.mgmtSleepQ s.mgmtSleepqLen).1,
      ∃ g ∈ s.mgmtSleepQ, f.ra = g.ra ∧ f.psDontq = g.psDontq := by
    intro f hf
    rw [wakeupMgmtLoop_eq] at hf
    obtain ⟨g, hg, rfl⟩ := List.mem_map.mp hf
    exact ⟨g, hg, rfl, rfl⟩
  unfold wakeupStaToXmit
  dsimp only
  split_ifs
  all_goals
    refine ⟨?_, rfl, fun f hf => absurd hf List.not_mem_nil, fun _ => rfl, hh⟩
    simp only [sleeping, ids_nil, hids, hm]
    abel

theorem hands_wakeupBmc : Hands s (wakeupBmc s) := by
  have hids := wakeupBmcLoop_ids s.sleepQ s.sleepqLen
  unfold wakeupBmc
  dsimp only
  split_ifs
  all_goals
    refine ⟨?_, rfl, fun f hf => hf, fun _ => rfl, fun f hf => absurd hf List.not_mem_nil⟩
    simp only [sleeping, ids_nil, hids]
    abel

theorem hands_trigger : Hands s (xmitDeliveryEnabledFrames s) := by
  refine ⟨?_, rfl, fun f hf => hf, ?_, fun f hf => absurd hf List.not_mem_nil⟩
  · simp only [sleeping, xmitDeliveryEnabledFrames, ids_nil,
      ← deliveryLoop_ids s.uapsd s.sleepQ s.sleepqLen s.sleepqAcLen s.tim]
    abel
  · intro hs
    simp [xmitDeliveryEnabledFrames, hs, deliveryLoop]

theorem hands_poll (aid : ℕ) (priority : BitVec 8) :
    Hands s (validateRecvCtrlFrame s aid priority) := by
  unfold validateRecvCtrlFrame
  by_cases hs : pollServed s aid priority = true
  · rw [if_pos hs]
    cases hq : s.sleepQ with
    | nil =>
      refine ⟨?_, rfl, fun f hf => hf, fun _ => rfl, fun f hf => absurd hf List.not_mem_nil⟩
      simp [sleeping, hq]
    | cons f q =>
      refine ⟨?_, rfl, fun f hf => hf, ?_, fun f hf => absurd hf List.not_mem_nil⟩
      · simp only [sleeping, hq, ids_cons, ids_nil]
        abel
      · intro h
        rw [hq] at h
        cases h
  · rw [if_neg hs]
    refine ⟨?_, rfl, fun f hf => hf, fun h => h, fun f hf => absurd hf List.not_mem_nil⟩
    simp

end Outcomes

section Ops

variable {x : Xmit n} {p : Fin n × Hwq} {f : Frame} {M : Multiset ℕ}

theorem Inv.dequeueOne {r : Frame × Xmit n} (h : x.Inv M)
    (hr : x.dequeueOneXmitframe p = some r) :
    Inv { r.2 with held := r.1 :: r.2.held } M := by
  unfold dequeueOneXmitframe at hr
  cases hq : (x.servq p).staPending with
  | nil => simp [hq] at hr
  | cons f q =>
    simp only [hq] at hr
    obtain rfl := Option.some.inj hr
    obtain ⟨M', rfl⟩ := h.exists_add hq
    have hpop := h.pop hq
    dsimp only
    split_ifs with he
    · apply Inv.hold
      apply hpop.unlink
      rw [addCnt_pending, setPending_pending_self]
      simpa using he
    · exact hpop.hold f

theorem Inv.dequeueHwq {r : Frame × Xmit n} (h : x.Inv M) {a : Hwq}
    (hr : x.dequeueHwq a = some r) : Inv { r.2 with held := r.1 :: r.2.held } M := by
  obtain ⟨i, -, hi⟩ := List.exists_of_findSome?_eq_some hr
  exact h.dequeueOne hi

theorem Inv.receive (h : x.Inv M) {r : Option (Frame × Xmit n)}
    (hr : ∀ y, r = some y → Inv { y.2 with held := y.1 :: y.2.held } M) : (x.receive r).Inv M := by
  cases r with
  | none => exact h
  | some y => exact hr y rfl

theorem Inv.rtwDequeueXframe (h : x.Inv M) (inx : List Ac) :
    (x.receive (x.rtwDequeueXframe inx)).Inv M := by
  apply h.receive
  intro y hy
  obtain ⟨a, -, ha⟩ := List.exists_of_findSome?_eq_some hy
  exact h.dequeueHwq ha

theorem Inv.aggregationLoop (h : x.Inv M) (k : ℕ) : (aggregationLoop p k x).Inv M := by
  induction k generalizing x with
  | zero => exact h
  | succ k ih =>
    unfold Xmit.aggregationLoop
    cases hq : (x.servq p).staPending with
    | nil => exact h
    | cons f q =>
      obtain ⟨M', rfl⟩ := h.exists_add hq
      exact ih ((h.pop hq).freeFrames [f])

theorem Inv.aggregate (h : x.Inv M) (p : Fin n × Hwq) (k : ℕ) : (x.aggregate p k).Inv M := by
  have hloop := h.aggregationLoop (p := p) k
  unfold Xmit.aggregate
  dsimp only
  split_ifs with he
  · exact hloop.unlink (by simpa using he)
  · exact hloop
  · exact hloop.rearrange p

theorem Inv.withHeld (h : x.Inv M) {k : ℕ} {op : Frame → Xmit n}
    (ho : ∀ f, x.held[k]? = some f → (op f).Inv M) : (x.withHeld k op).Inv M := by
  unfold Xmit.withHeld
  cases hk : x.held[k]? with
  | none => exact h
  | some f => exact ho f hk

theorem Inv.alloc (h : x.Inv M) (attrib : Frame) : (x.rtwAllocXmitframe attrib).Inv M := by
  unfold rtwAllocXmitframe
  cases hq : x.freeXmitQueue with
  | nil => exact h
  | cons id rest =>
    refine ⟨⟨h.qcnt, h.accnt, h.linked, ?_⟩, h.toOwn.shrink rfl rfl fun _ _ hf => hf⟩
    rw [← h.conserved]
    simp only [everywhere, hq, ids_cons, ← Multiset.cons_coe, ← Multiset.singleton_add]
    abel

theorem Inv.classify (h : x.Inv M) (k : ℕ) :
    (x.withHeld k fun f => ((x.release k).rtwXmitClassifier f).getD x).Inv M := by
  apply h.withHeld
  intro f hk
  obtain ⟨M', rfl⟩ := h.exists_add_of_held hk
  cases hc : (x.release k).rtwXmitClassifier f with
  | none => exact h
  | some y => exact (h.release hk).enqueueTo hc (.inl rfl)

end Ops

section Stop

variable {x : Xmit n} {p : Fin n × Hwq} {f : Frame} {M : Multiset ℕ}

/-- A frame has been added to a sleep queue of a station. -/
structure Buffered (s : Sta) (f : Frame) (t : Sta) : Prop where
  frames : sleeping t = sleeping s + {f.id}
  asoc : t.asoc = s.asoc
  mgmt : ∀ g ∈ t.mgmtSleepQ, g ∈ s.mgmtSleepQ ∨ Bufferable g

theorem Inv.buffer (h : x.Inv M) {j : Fin n} {t : Sta} (hb : Buffered (x.ps j) f t)
    (hasoc : (x.ps j).asoc = true) : (x.setPs j t).Inv (M + {f.id}) := by
  refine ⟨h.toCore.setPs ?_, h.toOwn.setPs hb.asoc ?_ ?_⟩
  · rw [hb.frames]
    abel
  · intro g hg
    rcases hb.mgmt g hg with hg | hg
    · exact h.mgmt j g hg
    · exact hg
  · intro hj
    have := (h.unused j hj).1
    rw [hasoc] at this
    cases this

theorem buffered_unicast {s : Sta} (h : (xmitframeEnqueueForSleepingSta s f).1 = true) :
    s.asoc = true ∧ Buffered s f (xmitframeEnqueueForSleepingSta s f).2 := by
  unfold xmitframeEnqueueForSleepingSta at h ⊢
  split_ifs at h ⊢ with h1
  refine ⟨by simpa using h1, ?_, rfl, fun g hg => .inl hg⟩
  simp only [sleeping, ids_append, ids_cons, ids_nil]
  abel

theorem buffered_bmc {s : Sta} {anyDz : Bool} (h : (enqueueForSleepingBmc anyDz s f).1 = true) :
    s.asoc = true ∧ Buffered s f (enqueueForSleepingBmc anyDz s f).2 := by
  unfold enqueueForSleepingBmc at h ⊢
  split_ifs at h ⊢ with h1
  refine ⟨by simpa using h1, ?_, rfl, fun g hg => .inl hg⟩
  simp only [sleeping, ids_append, ids_cons, ids_nil]
  abel

theorem buffered_mgmt {s : Sta} (h : (mgmtXmitframeEnqueueForSleepingSta s f).1 = true) :
    s.asoc = true ∧ Buffered s f (mgmtXmitframeEnqueueForSleepingSta s f).2 := by
  unfold mgmtXmitframeEnqueueForSleepingSta at h ⊢
  split_ifs at h ⊢ with h1 h2
  refine ⟨by simpa using h2, ?_, rfl, ?_⟩
  · simp only [sleeping, ids_append, ids_cons, ids_nil]
    abel
  · intro g hg
    rcases List.mem_append.mp hg with hg | hg
    · exact .inl hg
    · rw [List.mem_singleton.mp hg]
      exact .inr (by simpa [Bufferable] using h1)

/-- A frame that is buffered goes to a sleep queue and nothing else happens. -/
theorem Inv.offered (h : x.Inv M) {k : ℕ} (hk : x.held[k]? = some f) {r : Bool × Xmit n}
    (hr : r.1 = true → ∃ j t, r.2 = x.setPs j t ∧ (x.ps j).asoc = true ∧ Buffered (x.ps j) f t) :
    (x.offered k r).Inv M := by
  unfold Xmit.offered
  split_ifs with hbuf
  · obtain ⟨j, t, hy, hasoc, hb⟩ := hr hbuf
    rw [hy]
    exact (h.buffer hb hasoc).release hk
  · exact h

theorem enqueueForSleepingSta_buffers (h : (x.enqueueForSleepingSta f).1 = true) :
    ∃ j t, (x.enqueueForSleepingSta f).2 = x.setPs j t ∧ (x.ps j).asoc = true ∧
      Buffered (x.ps j) f t := by
  unfold Xmit.enqueueForSleepingSta at h ⊢
  cases hj : x.rtwGetStainfo f.ra with
  | none => simp [hj] at h
  | some j =>
    simp only [hj] at h ⊢
    split_ifs at h ⊢ with hpsta hg
    · obtain ⟨ha, hb⟩ := buffered_bmc h
      exact ⟨j, _, rfl, ha, hb⟩
    · obtain ⟨ha, hb⟩ := buffered_unicast h
      exact ⟨j, _, rfl, ha, hb⟩

theorem mgmtEnqueueForSleepingSta_buffers (h : (x.mgmtEnqueueForSleepingSta f).1 = true) :
    ∃ j t, (x.mgmtEnqueueForSleepingSta f).2 = x.setPs j t ∧ (x.ps j).asoc = true ∧
      Buffered (x.ps j) f t := by
  unfold Xmit.mgmtEnqueueForSleepingSta at h ⊢
  split_ifs at h ⊢ with hpsta
  obtain ⟨ha, hb⟩ := buffered_mgmt h
  exact ⟨_, _, rfl, ha, hb⟩

/-- The state of the stations lets the routine buffer every frame of a queue, and stays so. -/
def Takes (enqueue : Xmit n → Frame → Bool × Xmit n) (p : Fin n × Hwq)
    (R : (Fin n → Option Addr) → (Fin n → Sta) → Prop) : Prop :=
  ∀ (y : Xmit n) (f : Frame), (∀ i j a, y.addr i = some a → y.addr j = some a → i = j) →
    R y.addr y.ps → y.Owned p f → f.triggered = false →
    ∃ t, enqueue y f = (true, y.setPs p.1 t) ∧ Buffered (y.ps p.1) f t ∧
      R y.addr (y.setPs p.1 t).ps

/-- All frames of the queue go to the sleep queue, one by one. -/
theorem dequeueToSleepLoop_inv {enqueue : Xmit n → Frame → Bool × Xmit n} {hwq : Frame → Hwq}
    {R : (Fin n → Option Addr) → (Fin n → Sta) → Prop} (ht : Takes enqueue p R)
    (hhwq : ∀ f, p.2 = rtwGetStaPending f ∨ p.2 = .mgmt ∧ Bufferable f → hwq f = p.2)
    (l : List Frame) {y : Xmit n} (hR : R y.addr y.ps) (hy : (y.setPending p l).Inv M) :
    (dequeueToSleepLoop enqueue hwq p.1 l y).1 = [] ∧
      ((dequeueToSleepLoop enqueue hwq p.1 l y).2.setPending p []).Inv M ∧
      R (dequeueToSleepLoop enqueue hwq p.1 l y).2.addr
        (dequeueToSleepLoop enqueue hwq p.1 l y).2.ps := by
  induction l generalizing y with
  | nil => exact ⟨rfl, hy, hR⟩
  | cons f l ih =>
    obtain ⟨haddr, hpsta, hasoc, hown⟩ := hy.owned p f (by simp)
    obtain ⟨t, he, hb, hR'⟩ := ht y { f with triggered := false } hy.inj hR
      ⟨haddr, hpsta, hasoc, hown⟩ rfl
    have hq := hhwq { f with triggered := false } hown
    have hnext : (((y.setPs p.1 t).addCnt p (-1)).setPending p l).Inv M := by
      have hpop := (hy.buffer hb hasoc).pop (p := p) (f := f) (q := l) (by simp [setPs])
      rw [addCnt_setPending, setPs_setPending]
      rwa [← setPs_setPending, setPending_setPending, setPs_setPending] at hpop
    rw [dequeueToSleepLoop]
    simp only [he, hq, if_true, Prod.mk.eta]
    exact ih hR' hnext

/-- One queue of `stop_sta_xmit` is emptied into the sleep queue. -/
theorem Inv.dequeueToSleepq {enqueue : Xmit n → Frame → Bool × Xmit n} {hwq : Frame → Hwq}
    {R : (Fin n → Option Addr) → (Fin n → Sta) → Prop} (h : x.Inv M) (ht : Takes enqueue p R)
    (hhwq : ∀ f, p.2 = rtwGetStaPending f ∨ p.2 = .mgmt ∧ Bufferable f → hwq f = p.2)
    (hR : R x.addr x.ps) :
    (x.dequeueToSleepq enqueue hwq p).Inv M ∧
      R (x.dequeueToSleepq enqueue hwq p).addr (x.dequeueToSleepq enqueue hwq p).ps := by
  obtain ⟨hnil, hinv, hR'⟩ := dequeueToSleepLoop_inv ht hhwq (x.servq p).staPending hR
    (by rwa [setPending_self])
  refine ⟨?_, hR'⟩
  unfold Xmit.dequeueToSleepq
  dsimp only
  rw [hnil]
  exact hinv.unlink (by simp)

/-- Station `i` sleeps and dozes. -/
def Dozing (i : Fin n) (_ : Fin n → Option Addr) (ps : Fin n → Sta) : Prop :=
  (ps i).sleep = true ∧ (ps i).dz = true

/-- Slot `b` is the group pseudo station, and some station dozes. -/
def GroupDozing (b : Fin n) (addr : Fin n → Option Addr) (ps : Fin n → Sta) : Prop :=
  addr b = some .group ∧ ∃ j, (ps j).dz = true

theorem takes_mgmt (i : Fin n) : Takes mgmtEnqueueForSleepingSta (i, .mgmt) (Dozing i) := by
  rintro y f - ⟨hs, hd⟩ ⟨-, hpsta, hasoc, hown⟩ -
  have hb : Bufferable f := by
    rcases hown with hown | hown
    · cases hown
    · exact hown.2
  have hlt : f.psta < n := hpsta ▸ i.isLt
  have hi : (⟨f.psta, hlt⟩ : Fin n) = i := Fin.ext hpsta
  have hres : mgmtXmitframeEnqueueForSleepingSta (y.ps i) f =
      (true, { y.ps i with
        mgmtSleepQ := (y.ps i).mgmtSleepQ ++ [f]
        mgmtSleepqLen := (y.ps i).mgmtSleepqLen + 1
        tim := true }) := by
    have hasoc' : (y.ps i).asoc = true := hasoc
    simp [mgmtXmitframeEnqueueForSleepingSta, hb.1, hb.2, hasoc', hs, hd]
  refine ⟨_, ?_, (buffered_mgmt (by rw [hres])).2, ?_⟩
  · rw [mgmtEnqueueForSleepingSta, dif_pos hlt, hi]
    simp only [hres]
  · simp [Dozing, setPs, hres, hs, hd]

theorem anyDz_of {y : Xmit n} {j : Fin n} (h : (y.ps j).dz = true) : y.anyDz = true :=
  List.any_eq_true.mpr ⟨j, List.mem_finRange j, h⟩

theorem enqueueForSleepingSta_eq {y : Xmit n} {i : Fin n}
    (hinj : ∀ i j a, y.addr i = some a → y.addr j = some a → i = j)
    (haddr : y.addr i = some f.ra) (hpsta : f.psta = i) :
    y.enqueueForSleepingSta f =
      let r := if f.ra = .group then enqueueForSleepingBmc y.anyDz (y.ps i) f
        else xmitframeEnqueueForSleepingSta (y.ps i) f
      (r.1, y.setPs i r.2) := by
  simp [Xmit.enqueueForSleepingSta, rtwGetStainfo_of_addr hinj haddr, hpsta]

theorem bmc_takes {s : Sta} (hasoc : s.asoc = true) (ht : f.triggered = false) :
    (enqueueForSleepingBmc true s f).1 = true ∧ (enqueueForSleepingBmc true s f).2.dz = true ∧
      (enqueueForSleepingBmc true s f).2.sleep = s.sleep := by
  simp [enqueueForSleepingBmc, hasoc, ht]

theorem unicast_takes {s : Sta} (hasoc : s.asoc = true) (ht : f.triggered = false)
    (hs : s.sleep = true) (hd : s.dz = true) :
    (xmitframeEnqueueForSleepingSta s f).1 = true ∧
      (xmitframeEnqueueForSleepingSta s f).2.dz = true ∧
      (xmitframeEnqueueForSleepingSta s f).2.sleep = true := by
  simp [xmitframeEnqueueForSleepingSta, hasoc, ht, hs, hd]

theorem takes_own (i : Fin n) (a : Ac) :
    Takes enqueueForSleepingSta (i, .ac a) (Dozing i) := by
  rintro y f hinj ⟨hs, hd⟩ ⟨haddr, hpsta, hasoc, -⟩ ht
  rw [enqueueForSleepingSta_eq hinj haddr hpsta]
  by_cases hg : f.ra = .group
  · simp only [hg, if_true, anyDz_of hd]
    obtain ⟨h1, h2, h3⟩ := bmc_takes hasoc ht
    refine ⟨_, by rw [h1], (buffered_bmc h1).2, ?_⟩
    simp [Dozing, setPs, h2, h3, hs]
  · simp only [hg, if_false]
    obtain ⟨h1, h2, h3⟩ := unicast_takes hasoc ht hs hd
    refine ⟨_, by rw [h1], (buffered_unicast h1).2, ?_⟩
    simp [Dozing, setPs, h2, h3]

theorem takes_group (b : Fin n) (a : Ac) :
    Takes enqueueForSleepingSta (b, .ac a) (GroupDozing b) := by
  rintro y f hinj ⟨hb, j, hd⟩ ⟨haddr, hpsta, hasoc, -⟩ ht
  have hg : f.ra = .group := by
    have : some f.ra = some Addr.group := haddr.symm.trans hb
    exact Option.some.inj this
  rw [enqueueForSleepingSta_eq hinj haddr hpsta]
  simp only [hg, if_true, anyDz_of hd]
  obtain ⟨h1, h2, -⟩ := bmc_takes hasoc ht
  refine ⟨_, by rw [h1], (buffered_bmc h1).2, hb, b, ?_⟩
  simp [setPs, h2]

/-- The four queues of a station are emptied into the sleep queue. -/
theorem Inv.stopAcs {R : (Fin n → Option Addr) → (Fin n → Sta) → Prop} {i : Fin n} (h : x.Inv M)
    (ht : ∀ a, Takes enqueueForSleepingSta (i, .ac a) R) (hR : R x.addr x.ps) :
    (x.stopAcs i).Inv M ∧ R (x.stopAcs i).addr (x.stopAcs i).ps := by
  unfold Xmit.stopAcs
  generalize [Ac.vo, .vi, .be, .bk] = acs
  induction acs generalizing x with
  | nil => exact ⟨h, hR⟩
  | cons a acs ih =>
    have hhwq : ∀ f, Hwq.ac a = rtwGetStaPending f ∨ Hwq.ac a = .mgmt ∧ Bufferable f →
        rtwGetStaPending f = Hwq.ac a := by
      rintro f (hf | ⟨hf, -⟩)
      · exact hf.symm
      · cases hf
    obtain ⟨h', hR'⟩ := h.dequeueToSleepq (ht a) hhwq hR
    exact ih h' hR'

theorem Inv.doze (h : x.Inv M) (i : Fin n) :
    (x.setPs i { x.ps i with sleep := true, dz := true }).Inv M :=
  ⟨h.toCore.setPs rfl, h.toOwn.setPs rfl (h.mgmt i) fun hi => (h.unused i hi).2⟩

theorem Inv.stopStaXmit (h : x.Inv M) (i : Fin n) : (x.stopStaXmit i).Inv M := by
  have hdoze : Dozing i x.addr (x.setPs i { x.ps i with sleep := true, dz := true }).ps := by
    simp [Dozing, setPs]
  obtain ⟨h1, hR1⟩ := (h.doze i).dequeueToSleepq (takes_mgmt i) (fun _ _ => rfl) hdoze
  obtain ⟨h2, hR2⟩ := h1.stopAcs (takes_own i) hR1
  unfold Xmit.stopStaXmit
  dsimp only
  split
  · exact h2
  · rename_i b hb
    exact (h2.stopAcs (takes_group b) ⟨addr_of_rtwGetStainfo hb, i, hR2.2⟩).1

end Stop

section Sta

variable {x : Xmit n} {p : Fin n × Hwq} {M : Multiset ℕ}

theorem Inv.wakeup (h : x.Inv M) (i : Fin n) : (x.wakeup i).Inv M := by
  have h1 := h.handOutcome (hands_wakeup (x.ps i))
  unfold Xmit.wakeup
  dsimp only
  split
  · exact h1
  · split_ifs
    · exact h1
    · exact h1.handOutcome (hands_wakeupBmc _)

theorem Core.freeServq (h : x.Core M) (p : Fin n × Hwq) : (x.freeServq p).Core M := by
  have hrep : (((x.freeFrames (x.servq p).staPending).setPending p []).addCnt p
      (-(x.servq p).qcnt)).Core M := by
    refine (h.freeFrames _).replace ?_ (fun hne => absurd rfl hne) ?_
    · simp [Xmit.freeFrames, h.qcnt p]
    · simp [Xmit.freeFrames]
  exact hrep.unlink (by simp)

theorem freeServq_pending (q : Fin n × Hwq) :
    ((x.freeServq p).servq q).staPending = if q = p then [] else (x.servq q).staPending := by
  simp only [Xmit.freeServq, addCnt_pending]
  split_ifs with hq
  · subst hq
    exact setPending_pending_self _ _ _
  · exact congrArg _ (setPending_servq_of_ne _ _ _ hq)

/-- What freeing queues of station `i` does. -/
theorem foldl_freeServq (h : x.Core M) (i : Fin n) (as : List Hwq) :
    let y := as.foldl (fun x a => x.freeServq (i, a)) x
    y.Core M ∧ y.addr = x.addr ∧ y.ps = x.ps ∧
      ∀ q, (y.servq q).staPending = if q.1 = i ∧ q.2 ∈ as then [] else (x.servq q).staPending := by
  induction as generalizing x with
  | nil => exact ⟨h, rfl, rfl, fun q => by simp⟩
  | cons a as ih =>
    obtain ⟨hc, haddr, hps, hq⟩ := ih (h.freeServq (i, a))
    refine ⟨hc, haddr, hps, fun q => ?_⟩
    rw [List.foldl_cons, hq q, freeServq_pending]
    by_cases hi : q.1 = i
    · by_cases ha : q.2 = a
      · have hqa : q = (i, a) := Prod.ext hi ha
        simp [hqa]
      · have hqa : q ≠ (i, a) := fun he => ha (by rw [he])
        simp [hi, ha, hqa]
    · have hqa : q ≠ (i, a) := fun he => hi (by rw [he])
      simp [hi, hqa]

theorem Inv.rtwFreeStainfo (h : x.Inv M) (i : Fin n) : (x.rtwFreeStainfo i).Inv M := by
  have haddr : Core { x with addr := Function.update x.addr i none } M :=
    ⟨h.qcnt, h.accnt, h.linked, h.conserved⟩
  have hM : M + sleeping (x.ps i) =
      M + ids (x.ps i).sleepQ + ids (x.ps i).mgmtSleepQ + sleeping (freedSta (x.ps i)) := by
    simp only [sleeping, freedSta, ids_nil]
    abel
  have hcore := ((haddr.freeFrames (x.ps i).sleepQ).freeFrames (x.ps i).mgmtSleepQ).setPs hM
  obtain ⟨hc, ha, hps, hq⟩ := foldl_freeServq hcore i
    [Hwq.ac .vo, .ac .vi, .ac .be, .ac .bk, .mgmt]
  have hall : ∀ a : Hwq, a ∈ [Hwq.ac .vo, .ac .vi, .ac .be, .ac .bk, .mgmt] := by
    rintro (a | _)
    · cases a <;> decide
    · decide
  have hpend : ∀ q, ((x.rtwFreeStainfo i).servq q).staPending =
      if q.1 = i then [] else (x.servq q).staPending := by
    intro q
    rw [Xmit.rtwFreeStainfo]
    simp only [hq q, hall, and_true]
    rfl
  have haddr' : (x.rtwFreeStainfo i).addr = Function.update x.addr i none := ha
  have hps' : (x.rtwFreeStainfo i).ps = Function.update x.ps i (freedSta (x.ps i)) := hps
  refine ⟨hc, ⟨?_, ?_, ?_, ?_⟩⟩
  · intro q f hf
    rw [hpend q] at hf
    split_ifs at hf with hi
    · exact absurd hf List.not_mem_nil
    · obtain ⟨h1, h2, h3, h4⟩ := h.owned q f hf
      exact ⟨by rw [haddr', Function.update_of_ne hi, h1], h2,
        by rw [hps', Function.update_of_ne hi, h3], h4⟩
  · intro j f hf
    rw [hps'] at hf
    by_cases hj : j = i
    · subst hj
      rw [Function.update_self] at hf
      exact absurd hf List.not_mem_nil
    · rw [Function.update_of_ne hj] at hf
      exact h.mgmt j f hf
  · intro j k a hj hk
    rw [haddr'] at hj hk
    by_cases hji : j = i
    · subst hji
      simp at hj
    · by_cases hki : k = i
      · subst hki
        simp at hk
      · rw [Function.update_of_ne hji] at hj
        rw [Function.update_of_ne hki] at hk
        exact h.inj j k a hj hk
  · intro j hj
    rw [hps']
    by_cases hji : j = i
    · subst hji
      simp [freedSta]
    · rw [haddr', Function.update_of_ne hji] at hj
      rw [Function.update_of_ne hji]
      exact h.unused j hj

/-- The queues of an unused slot are empty. -/
theorem Inv.servq_unused (h : x.Inv M) (hi : x.addr p.1 = none) : x.servq p = ⟨[], 0⟩ := by
  have hnil : (x.servq p).staPending = [] := by
    refine List.eq_nil_iff_forall_not_mem.mpr fun f hf => ?_
    have := (h.owned p f hf).addr
    rw [hi] at this
    cases this
  have hcnt := h.qcnt p
  rw [hnil] at hcnt
  cases hs : x.servq p with
  | mk l c =>
    rw [hs] at hnil hcnt
    simp only at hnil hcnt
    rw [hnil, hcnt]
    rfl

theorem Inv.associate (h : x.Inv M) (i : Fin n) (a : Addr) (aid : ℕ) (qosOption : Bool)
    (wmm : Option (BitVec 8)) : (x.associate i a aid qosOption wmm).Inv M := by
  unfold Xmit.associate
  split_ifs with hfree
  · obtain ⟨hi, hnone⟩ := hfree
    have hservq : (fun p => if p.1 = i then ⟨[], 0⟩ else x.servq p) = x.servq := by
      funext p
      split_ifs with hp
      · exact (h.servq_unused (hp ▸ hi)).symm
      · rfl
    have hsleep : sleeping (x.ps i) = 0 := by
      obtain ⟨-, hs, hm⟩ := h.unused i hi
      simp [sleeping, hs, hm]
    rw [hservq]
    have hM : M + sleeping (x.ps i) =
        M + sleeping ⟨aid, true, qosOption, wmm, false, false, false, [], 0, 0, [], 0⟩ := by
      rw [hsleep]
      rfl
    have hcore := h.toCore.setPs hM
    refine ⟨⟨hcore.qcnt, hcore.accnt, hcore.linked, hcore.conserved⟩, ⟨?_, ?_, ?_, ?_⟩⟩
    · intro q f hf
      obtain ⟨h1, h2, h3, h4⟩ := h.owned q f hf
      have hq : q.1 ≠ i := by
        intro hq
        rw [hq, hi] at h1
        cases h1
      exact ⟨by simp [hq, h1], h2, by simp [hq, h3], h4⟩
    · intro j f hf
      by_cases hj : j = i
      · subst hj
        simp at hf
      · simp only [Function.update_of_ne hj] at hf
        exact h.mgmt j f hf
    · have hno : ∀ j, x.addr j ≠ some a := by
        intro j hj
        have := List.find?_eq_none.mp hnone j (List.mem_finRange j)
        simp [hj] at this
      intro j k b hj hk
      by_cases hji : j = i
      · by_cases hki : k = i
        · rw [hji, hki]
        · subst hji
          simp only [Function.update_self, Function.update_of_ne hki] at hj hk
          exact absurd (hk.trans hj.symm) (hno k)
      · by_cases hki : k = i
        · subst hki
          simp only [Function.update_self, Function.update_of_ne hji] at hj hk
          exact absurd (hj.trans hk.symm) (hno j)
        · simp only [Function.update_of_ne hji, Function.update_of_ne hki] at hj hk
          exact h.inj j k b hj hk
    · intro j hj
      by_cases hji : j = i
      · subst hji
        simp at hj
      · simp only [Function.update_of_ne hji] at hj ⊢
        exact h.unused j hj
  · exact h

end Sta

section Run

variable {x : Xmit n} {M : Multiset ℕ}

theorem Inv.aggregateBehind (h : x.Inv M) (f : Frame) (count : ℕ) :
    (x.aggregateBehind f count).Inv M := by
  unfold Xmit.aggregateBehind
  split_ifs
  · exact h.aggregate _ count
  · exact h

theorem Inv.free (h : x.Inv M) (k : ℕ) :
    (x.withHeld k fun f => (x.release k).freeFrames [f]).Inv M := by
  apply h.withHeld
  intro f hk
  obtain ⟨M', rfl⟩ := h.exists_add_of_held hk
  exact (h.release hk).freeFrames [f]

/-- Every operation keeps the invariant. -/
theorem Inv.step (h : x.Inv M) (op : Op n) : (x.step op).Inv M := by
  cases op with
  | alloc attrib => exact h.alloc attrib
  | free k => exact h.free k
  | classify k => exact h.classify k
  | offer k => exact h.withHeld fun f hk => h.offered hk enqueueForSleepingSta_buffers
  | offerMgmt k => exact h.withHeld fun f hk => h.offered hk mgmtEnqueueForSleepingSta_buffers
  | dequeue inx => exact h.rtwDequeueXframe inx
  | dequeueMgmt => exact h.receive fun y hy => h.dequeueHwq hy
  | aggregate k count => exact h.withHeld fun f _ => h.aggregateBehind f count
  | stop i => exact h.stopStaXmit i
  | wakeup i => exact h.wakeup i
  | trigger i => exact h.handOutcome (hands_trigger _)
  | psPoll i aid priority => exact h.handOutcome (hands_poll _ aid priority)
  | associate i a aid qosOption wmm => exact h.associate i a aid qosOption wmm
  | freeSta i => exact h.rtwFreeStainfo i

theorem inv_init (n N : ℕ) : (init n N).Inv (Multiset.range N) := by
  refine ⟨⟨fun p => rfl, fun a => ?_, fun p hp => absurd rfl hp, ?_⟩, ⟨?_, ?_, ?_, ?_⟩⟩
  · simp [init]
  · simp [everywhere, init, sleeping, Pool.total, Multiset.range]
  · exact fun p f hf => absurd hf List.not_mem_nil
  · exact fun i f hf => absurd hf List.not_mem_nil
  · exact fun i j a hi => absurd hi (by simp [init])
  · exact fun i _ => ⟨rfl, rfl, rfl⟩

/-- In every state of every run the counters are exact, every queue with frames is linked, and
each of the `N` frames is in one place. -/
theorem sched_conserves (n N : ℕ) (ops : List (Op n)) :
    let x := Run.run step (init n N) ops
    (∀ p, (x.servq p).qcnt = (x.servq p).staPending.length) ∧
      (∀ a, x.accnt a = ∑ i, (x.servq (i, a)).qcnt) ∧
      (∀ p, (x.servq p).staPending ≠ [] → p.1 ∈ x.staQueue p.2) ∧
      x.everywhere = Multiset.range N := by
  have h : (Run.run step (init n N) ops).Inv (Multiset.range N) :=
    Run.run_invariant (P := fun _ _ => True) (I := fun y : Xmit n => y.Inv (Multiset.range N))
      (fun y op hy _ => hy.step op) (inv_init n N) (Run.along_of_forall fun _ _ _ => trivial)
  exact ⟨h.qcnt, h.accnt, h.linked, h.conserved⟩

end Run

end Xmit

end Rtl8821cu.XmitSched
