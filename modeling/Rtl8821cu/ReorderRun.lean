import Rtl8821cu.ReorderInvariant

/-! Whole runs of the reordering controller. A trace carries, beside the controller, the frames
queued so far, the frames indicated so far with their unwrapped positions, and the total
distance the window start has travelled. -/
namespace Rtl8821cu.Reorder
open KeyQueue Run

variable {α : Type*}

/-- The events that reach a controller. -/
inductive Event (α : Type*)
  | frame (f : RecvFrame α)
  | timeout (cannotRun : Bool)
  | bar (ssc : BitVec 16)
  deriving DecidableEq

def exec (c : RecvReorderCtrl α) : Event α → ReorderOut α
  | .frame f => recvIndicatepktReorder c f
  | .timeout cannotRun =>
      let r := rtwReorderingCtrlTimeoutHandler cannotRun c
      ⟨r.ctrl, r.indicated, .handled⟩
  | .bar ssc => ⟨rtwProcessBarFrame c ssc, [], .handled⟩

/-- The frame, if any, that the event puts into the pending queue. -/
def accepted (c : RecvReorderCtrl α) : Event α → List (RecvFrame α)
  | .frame f => if (recvIndicatepktReorder c f).ret = .handled then [f] else []
  | _ => []

/-- The window start an event is measured from: the first frame of an uninitialised
controller is its own start. -/
def base (c : RecvReorderCtrl α) : Event α → ℕ
  | .frame f => if c.indicateSeq = 0xFFFF ∧ f.qos then f.seqNum else c.indicateSeq
  | _ => c.indicateSeq

structure Trace (α : Type*) where
  ctrl : RecvReorderCtrl α
  enqueued : List (RecvFrame α)
  indicated : List (ℕ × RecvFrame α)
  travel : ℕ

def Trace.step (t : Trace α) (e : Event α) : Trace α :=
  let o := exec t.ctrl e
  let b := base t.ctrl e
  { ctrl := o.ctrl
    enqueued := t.enqueued ++ accepted t.ctrl e
    indicated := t.indicated ++ o.indicated.map (fun f => (t.travel + frameOff b f, f))
    travel := t.travel + snOff b o.ctrl.indicateSeq }

/-- The trace of a controller nothing has happened to yet. -/
def Trace.start (c : RecvReorderCtrl α) : Trace α := ⟨c, [], [], 0⟩

/-- What one event does to the window: the frames it indicates lie, in ascending order, in the
stretch the start swept over, and no queued frame is lost or duplicated. -/
structure Sweep (b : ℕ) (c : RecvReorderCtrl α) (acc : List (RecvFrame α)) (o : ReorderOut α) :
    Prop where
  sorted : Sorted (frameOff b) o.indicated
  swept : ∀ f ∈ o.indicated, frameOff b f < snOff b o.ctrl.indicateSeq
  perm : (acc ++ c.pendingRecvframeQueue).Perm (o.indicated ++ o.ctrl.pendingRecvframeQueue)

theorem Sweep.of_idle {c : RecvReorderCtrl α} {b : ℕ} {o : ReorderOut α} (ho : o.indicated = [])
    (hp : o.ctrl.pendingRecvframeQueue = c.pendingRecvframeQueue) : Sweep b c [] o := by
  refine ⟨?_, ?_, ?_⟩
  · simp [ho, Sorted]
  · simp [ho]
  · simp [ho, hp]

theorem Sweep.of_drained {c : RecvReorderCtrl α} {s : ℕ} {q acc : List (RecvFrame α)}
    {o : ReorderOut α} (h : Drained c s q o.ctrl o.indicated) (hb : c.indicateSeq < 4096)
    (hs : s ≤ 2048) (hsort : Sorted (frameOff c.indicateSeq) q)
    (hq : ∀ f ∈ q, frameOff c.indicateSeq f < 2048)
    (hacc : (acc ++ c.pendingRecvframeQueue).Perm q) : Sweep c.indicateSeq c acc o := by
  refine ⟨h.out_sorted hsort, h.out_lt hb hs hq, ?_⟩
  rw [h.append]
  exact hacc

section Step
variable {lo w : ℕ} {c : RecvReorderCtrl α}

/-- A forced indication starts from the first pending frame. -/
theorem timeout_drained {g : RecvFrame α} {rest : List (RecvFrame α)} (h : WindowInv lo w c)
    (hw' : w ≤ 64) (hp : c.pendingRecvframeQueue = g :: rest) :
    Drained c (frameOff c.indicateSeq g) c.pendingRecvframeQueue
      (rtwReorderingCtrlTimeoutHandler false c).ctrl
      (rtwReorderingCtrlTimeoutHandler false c).indicated := by
  have hoff : ∀ f ∈ c.pendingRecvframeQueue, frameOff c.indicateSeq f ≤ 2047 := by
    intro f hf
    have := h.offsets f hf
    omega
  have hg := hoff g (by simp [hp])
  have hloop := indicateLoop_eq_drain h.start_lt c.pendingRecvframeQueue
    (frameOff c.indicateSeq g) hoff h.sorted (fun _ => hg)
  rw [frameOff, add_snOff h.start_lt g.seqNum_lt, ← frameOff, hp] at hloop
  simp only [rtwReorderingCtrlTimeoutHandler, recvIndicatepktsInOrder, Bool.false_eq_true,
    if_false, if_true, hp, hloop]
  exact ⟨rfl, rfl, rfl, rfl, rfl, rfl⟩

/-- Without pending frames, or when the driver may not run, only the timer flags change. -/
theorem timeout_idle (b : Bool) (h : b = true ∨ c.pendingRecvframeQueue = []) :
    (rtwReorderingCtrlTimeoutHandler b c).indicated = [] ∧
      ∃ waiting armed, (rtwReorderingCtrlTimeoutHandler b c).ctrl =
        { c with bReorderWaiting := waiting, reorderingCtrlTimer := armed } := by
  cases b with
  | true =>
    simp only [rtwReorderingCtrlTimeoutHandler, if_true, true_and]
    exact ⟨c.bReorderWaiting, false, rfl⟩
  | false =>
    have hp := h.resolve_left (by simp)
    simp only [rtwReorderingCtrlTimeoutHandler, recvIndicatepktsInOrder, hp, Bool.false_eq_true,
      if_true, if_false, true_and]
    exact ⟨false, true, rfl⟩

theorem WindowInv.of_eq {c' : RecvReorderCtrl α} (h : WindowInv lo w c)
    (hen : c'.enable = c.enable) (hack : c'.recAbbaRspAck = c.recAbbaRspAck)
    (hws : c'.wsizeB = c.wsizeB) (hs : c'.indicateSeq = c.indicateSeq)
    (hp : c'.pendingRecvframeQueue = c.pendingRecvframeQueue) : WindowInv lo w c' := by
  refine ⟨hen.trans h.enable, hack.trans h.ack, hws.trans h.wsize, ?_, ?_, ?_⟩
  · rw [hs]
    exact h.start_lt
  · rw [hs, hp]
    exact h.sorted
  · rw [hs, hp]
    exact h.offsets

theorem WindowInv.mono {lo' : ℕ} (h : WindowInv lo w c) (hlo : lo' ≤ lo) : WindowInv lo' w c :=
  ⟨h.enable, h.ack, h.wsize, h.start_lt, h.sorted,
    fun f hf => ⟨hlo.trans (h.offsets f hf).1, (h.offsets f hf).2⟩⟩

/-- No frame arrives whose number is the window start while it is already pending. -/
def NoStartDup (c : RecvReorderCtrl α) : Event α → Prop
  | .frame f => f.qos = true → f.seqNum = c.indicateSeq →
      ∀ g ∈ c.pendingRecvframeQueue, g.seqNum ≠ f.seqNum
  | _ => True

theorem noStartDup_of_one_le (h : WindowInv 1 w c) (e : Event α) : NoStartDup c e := by
  cases e with
  | frame f =>
    intro _ hf g hg hgf
    have hpos := (h.offsets g hg).1
    rw [frameOff, hgf, hf, snOff_self] at hpos
    omega
  | timeout => trivial
  | bar => trivial

theorem frameOff_eq_iff (hb : c.indicateSeq < 4096) (f g : RecvFrame α) :
    frameOff c.indicateSeq g = frameOff c.indicateSeq f ↔ g.seqNum = f.seqNum :=
  snOff_inj hb g.seqNum_lt f.seqNum_lt

theorem frame_step (h : WindowInv lo w c) (hlo : lo ≤ 1) (hw : 1 ≤ w) (hw' : w ≤ 64)
    {f : RecvFrame α} (hqos : f.qos = true) (hdup : NoStartDup c (.frame f)) :
    WindowInv lo w (exec c (.frame f)).ctrl ∧
      Sweep c.indicateSeq c (accepted c (.frame f)) (exec c (.frame f)) := by
  by_cases hd : 2048 ≤ frameOff c.indicateSeq f
  · have he := reorder_behind h hqos hd
    simp only [exec, accepted, he]
    exact ⟨h, Sweep.of_idle rfl rfl⟩
  · by_cases hnew : ∃ g ∈ c.pendingRecvframeQueue,
        frameOff c.indicateSeq g = frameOff c.indicateSeq f
    · have he := reorder_duplicate h hw hw' hqos (by omega) hnew
      obtain ⟨g, hg, hgf⟩ := hnew
      have hne : frameOff c.indicateSeq f ≠ 0 := by
        intro h0
        have hf : f.seqNum = c.indicateSeq := by
          have := add_snOff h.start_lt f.seqNum_lt
          rw [show snOff c.indicateSeq f.seqNum = 0 from h0, Nat.add_zero,
            Nat.mod_eq_of_lt h.start_lt] at this
          exact this.symm
        exact hdup hqos hf g hg ((frameOff_eq_iff h.start_lt f g).mp hgf)
      have hshift : windowShift w (frameOff c.indicateSeq f) = 0 := by
        have := (h.offsets g hg).2
        unfold windowShift
        split_ifs <;> omega
      rw [hshift, Nat.add_zero, Nat.mod_eq_of_lt h.start_lt] at he
      simp only [exec, accepted, he]
      exact ⟨h, Sweep.of_idle rfl rfl⟩
    · obtain ⟨hret, q, hq, hdr⟩ := reorder_accepted h hw hw' hqos (by omega) hnew
      have hkeys : ∀ g ∈ q, frameOff c.indicateSeq g <
          windowShift w (frameOff c.indicateSeq f) + w ∧ frameOff c.indicateSeq g < 2048 := by
        intro g hg
        unfold windowShift
        rcases (mem_insertKey hq).mp hg with rfl | hg
        · split_ifs <;> omega
        · have := (h.offsets g hg).2
          split_ifs <;> omega
      have hsort := insertKey_sorted h.sorted hq
      have hs : windowShift w (frameOff c.indicateSeq f) ≤ 2048 := by
        have := windowShift_le (w := w) (d := frameOff c.indicateSeq f) hw
        omega
      refine ⟨(hdr.windowInv h.start_lt h.enable h.ack h.wsize hsort
        fun g hg => (hkeys g hg).1).mono hlo, ?_⟩
      refine Sweep.of_drained hdr h.start_lt hs hsort (fun g hg => (hkeys g hg).2) ?_
      simp only [accepted, hret, if_true]
      exact (insertKey_perm hq).symm

theorem timeout_step (h : WindowInv lo w c) (hlo : lo ≤ 1) (hw' : w ≤ 64) (b : Bool) :
    WindowInv lo w (exec c (.timeout b)).ctrl ∧
      Sweep c.indicateSeq c (accepted c (.timeout b)) (exec c (.timeout b)) := by
  have hidle : b = true ∨ c.pendingRecvframeQueue = [] → WindowInv lo w (exec c (.timeout b)).ctrl ∧
      Sweep c.indicateSeq c (accepted c (.timeout b)) (exec c (.timeout b)) := by
    intro hi
    obtain ⟨hout, waiting, armed, hctrl⟩ := timeout_idle b hi
    refine ⟨?_, Sweep.of_idle hout ?_⟩
    · simp only [exec]
      rw [hctrl]
      exact h.of_eq rfl rfl rfl rfl rfl
    · simp only [exec]
      rw [hctrl]
  cases b with
  | true => exact hidle (Or.inl rfl)
  | false =>
    cases hp : c.pendingRecvframeQueue with
    | nil => exact hidle (Or.inr hp)
    | cons g rest =>
      have hdr := timeout_drained h hw' hp
      have hg := (h.offsets g (by simp [hp])).2
      refine ⟨(hdr.windowInv h.start_lt h.enable h.ack h.wsize h.sorted ?_).mono hlo, ?_⟩
      · intro f hf
        have := (h.offsets f hf).2
        omega
      · refine Sweep.of_drained hdr h.start_lt (by omega) h.sorted ?_ (List.Perm.refl _)
        intro f hf
        have := (h.offsets f hf).2
        omega

end Step

/-- What a trace keeps from its first frame on. `start` unwraps the sequence numbers: the
position of an indicated frame and the window start are both read modulo 4096 from it. -/
structure TraceInv (lo w : ℕ) (t : Trace α) : Prop where
  window : WindowInv lo w t.ctrl
  perm : t.enqueued.Perm (t.indicated.map Prod.snd ++ t.ctrl.pendingRecvframeQueue)
  ascending : t.indicated.Pairwise (fun p q => p.1 < q.1)
  passed : ∀ p ∈ t.indicated, p.1 < t.travel
  origin : ∃ start, (start + t.travel) % 4096 = t.ctrl.indicateSeq ∧
    ∀ p ∈ t.indicated, (start + p.1) % 4096 = p.2.seqNum

theorem TraceInv.extend {lo w : ℕ} {t : Trace α} {e : Event α} {c : RecvReorderCtrl α}
    (hp : t.enqueued.Perm (t.indicated.map Prod.snd ++ t.ctrl.pendingRecvframeQueue))
    (ha : t.indicated.Pairwise (fun p q => p.1 < q.1)) (hlt : ∀ p ∈ t.indicated, p.1 < t.travel)
    (ho : ∃ start, (start + t.travel) % 4096 = base t.ctrl e ∧
      ∀ p ∈ t.indicated, (start + p.1) % 4096 = p.2.seqNum)
    (hc : c.pendingRecvframeQueue = t.ctrl.pendingRecvframeQueue)
    (hb : base t.ctrl e < 4096)
    (hw : WindowInv lo w (exec t.ctrl e).ctrl)
    (hs : Sweep (base t.ctrl e) c (accepted t.ctrl e) (exec t.ctrl e)) :
    TraceInv lo w (t.step e) := by
  obtain ⟨start, hstart, hpos⟩ := ho
  refine ⟨hw, ?_, ?_, ?_, start, ?_, ?_⟩
  · have h1 : (t.enqueued ++ accepted t.ctrl e).Perm
        (t.indicated.map Prod.snd ++ (accepted t.ctrl e ++ t.ctrl.pendingRecvframeQueue)) := by
      refine (hp.append_right _).trans ?_
      rw [List.append_assoc]
      exact List.perm_append_comm.append_left _
    have h2 := hs.perm
    rw [hc] at h2
    have hmap : ((exec t.ctrl e).indicated.map
        (fun f => (t.travel + frameOff (base t.ctrl e) f, f))).map Prod.snd =
          (exec t.ctrl e).indicated := by
      simp [Function.comp_def]
    simp only [Trace.step, List.map_append, hmap, List.append_assoc]
    exact h1.trans (h2.append_left _)
  · simp only [Trace.step]
    rw [List.pairwise_append]
    refine ⟨ha, ?_, ?_⟩
    · rw [List.pairwise_map]
      exact hs.sorted.imp fun hxy => Nat.add_lt_add_left hxy _
    · intro p hp q hq
      obtain ⟨f, _, rfl⟩ := List.mem_map.mp hq
      exact Nat.lt_add_right _ (hlt p hp)
  · intro p hp
    simp only [Trace.step, List.mem_append, List.mem_map] at hp ⊢
    rcases hp with hp | ⟨f, hf, rfl⟩
    · exact Nat.lt_add_right _ (hlt p hp)
    · exact Nat.add_lt_add_left (hs.swept f hf) _
  · simp only [Trace.step]
    have h := add_snOff hb hw.start_lt
    rw [← hstart] at h ⊢
    omega
  · intro p hp
    simp only [Trace.step, List.mem_append, List.mem_map] at hp
    rcases hp with hp | ⟨f, hf, rfl⟩
    · exact hpos p hp
    · have h := add_snOff hb f.seqNum_lt
      rw [← hstart] at h
      simp only [frameOff, ← hstart]
      omega

/-- A controller that waits for its first frame. -/
structure Fresh (w : ℕ) (t : Trace α) : Prop where
  enable : t.ctrl.enable = true
  wsize : t.ctrl.wsizeB = w
  start : t.ctrl.indicateSeq = 0xFFFF
  pending : t.ctrl.pendingRecvframeQueue = []
  enqueued : t.enqueued = []
  indicated : t.indicated = []
  travel : t.travel = 0

/-- The events of a run without BlockAckReq. -/
def Event.isBar : Event α → Bool
  | .bar _ => true
  | _ => false

/-- A data frame that goes through the reordering window. -/
def Event.isQosFrame : Event α → Bool
  | .frame f => f.qos
  | _ => false

theorem checkIndicateSeq_uninitialised {c : RecvReorderCtrl α} (seqNum : ℕ)
    (hc : c.indicateSeq = 0xFFFF) :
    checkIndicateSeq c seqNum = checkIndicateSeq { c with indicateSeq := seqNum } seqNum := by
  simp only [checkIndicateSeq, hc, if_true, ite_self]

/-- The first frame makes itself the window start, whether or not an ADDBA response was just
acknowledged. -/
theorem reorder_uninitialised {c : RecvReorderCtrl α} {f : RecvFrame α}
    (hc : c.indicateSeq = 0xFFFF) (hqos : f.qos = true) (hen : c.enable = true) :
    recvIndicatepktReorder c f =
      recvIndicatepktReorder { c with indicateSeq := f.seqNum, recAbbaRspAck := false } f := by
  obtain ⟨en, iseq, w, q, waiting, armed, ack⟩ := c
  obtain rfl : iseq = 0xFFFF := hc
  obtain rfl : en = true := hen
  have hchk := checkIndicateSeq_uninitialised f.seqNum
    (c := ⟨true, 0xFFFF, w, q, waiting, armed, false⟩) rfl
  cases ack <;>
    simp only [recvIndicatepktReorder, hqos, hchk, Bool.not_true, Bool.or_self,
      Bool.false_eq_true, if_false, if_true]

section TraceStep
variable {lo w : ℕ} {t : Trace α}

theorem TraceInv.base_eq (h : TraceInv lo w t) (e : Event α) : base t.ctrl e = t.ctrl.indicateSeq := by
  have hne : t.ctrl.indicateSeq ≠ 0xFFFF := by
    have := h.window.start_lt
    omega
  cases e with
  | frame f => simp [base, hne]
  | timeout => rfl
  | bar => rfl

theorem reorder_not_qos (c : RecvReorderCtrl α) {f : RecvFrame α} (hqos : f.qos = false) :
    recvIndicatepktReorder c f = ⟨c, [], .success⟩ := by
  simp [recvIndicatepktReorder, hqos]

/-- Every step that is not a BlockAckReq keeps the invariant. -/
theorem TraceInv.step (h : TraceInv lo w t) (hlo : lo ≤ 1) (hw : 1 ≤ w) (hw' : w ≤ 64)
    {e : Event α} (he : e.isBar = false) (hdup : NoStartDup t.ctrl e) :
    TraceInv lo w (t.step e) := by
  have hbase := h.base_eq e
  have hext : WindowInv lo w (exec t.ctrl e).ctrl →
      Sweep t.ctrl.indicateSeq t.ctrl (accepted t.ctrl e) (exec t.ctrl e) →
      TraceInv lo w (t.step e) := by
    intro hwin hsweep
    refine TraceInv.extend h.perm h.ascending h.passed ?_ rfl ?_ hwin ?_
    · rw [hbase]
      exact h.origin
    · rw [hbase]
      exact h.window.start_lt
    · rw [hbase]
      exact hsweep
  cases e with
  | frame f =>
    cases hqos : f.qos with
    | true =>
      obtain ⟨hwin, hsweep⟩ := frame_step h.window hlo hw hw' hqos hdup
      exact hext hwin hsweep
    | false =>
      have hr := reorder_not_qos t.ctrl hqos
      refine hext ?_ ?_
      · simp only [exec, hr]
        exact h.window
      · simp only [exec, accepted, hr]
        exact Sweep.of_idle rfl rfl
  | timeout b =>
    obtain ⟨hwin, hsweep⟩ := timeout_step h.window hlo hw' b
    exact hext hwin hsweep
  | bar => simp [Event.isBar] at he

theorem Fresh.idle (h : Fresh w t) {e : Event α} (he : e.isBar = false)
    (hq : e.isQosFrame = false) : Fresh w (t.step e) := by
  cases e with
  | frame f =>
    have hr := reorder_not_qos t.ctrl (f := f) hq
    refine ⟨?_, ?_, ?_, ?_, ?_, ?_, ?_⟩
    all_goals simp [Trace.step, exec, accepted, base, hr, h.enable, h.wsize, h.start,
      h.pending, h.enqueued, h.indicated, h.travel, snOff, show f.qos = false from hq]
  | timeout b =>
    obtain ⟨hout, waiting, armed, hctrl⟩ := timeout_idle b (Or.inr h.pending)
    refine ⟨?_, ?_, ?_, ?_, ?_, ?_, ?_⟩
    all_goals simp [Trace.step, exec, accepted, base, hctrl, hout, h.enable, h.wsize,
      h.start, h.pending, h.enqueued, h.indicated, h.travel, snOff]
  | bar => simp [Event.isBar] at he

theorem Fresh.first (h : Fresh w t) (hlo : lo ≤ 1) (hw : 1 ≤ w) (hw' : w ≤ 64) {e : Event α}
    (hq : e.isQosFrame = true) : TraceInv lo w (t.step e) := by
  cases e with
  | frame f =>
    have hqos : f.qos = true := hq
    have hr := reorder_uninitialised h.start hqos h.enable
    have hwin : WindowInv lo w { t.ctrl with indicateSeq := f.seqNum, recAbbaRspAck := false } := by
      refine ⟨h.enable, rfl, h.wsize, f.seqNum_lt, ?_, ?_⟩
      · simp [h.pending, Sorted]
      · simp [h.pending]
    have hdup : NoStartDup { t.ctrl with indicateSeq := f.seqNum, recAbbaRspAck := false } (.frame f) := by
      simp [NoStartDup, h.pending]
    obtain ⟨hwin', hsweep⟩ := frame_step hwin hlo hw hw' hqos hdup
    have hbase : base t.ctrl (.frame f) = f.seqNum := by
      simp [base, h.start, hqos]
    refine TraceInv.extend (c := { t.ctrl with indicateSeq := f.seqNum, recAbbaRspAck := false }) ?_ ?_ ?_ ?_ rfl ?_ ?_ ?_
    · simp [h.enqueued, h.indicated, h.pending]
    · simp [h.indicated]
    · simp [h.indicated]
    · refine ⟨f.seqNum, ?_, ?_⟩
      · rw [hbase, h.travel, Nat.add_zero, Nat.mod_eq_of_lt f.seqNum_lt]
      · simp [h.indicated]
    · rw [hbase]
      exact f.seqNum_lt
    · simp only [exec, hr]
      exact hwin'
    · simp only [hbase, exec, accepted, hr]
      exact hsweep
  | timeout => simp [Event.isQosFrame] at hq
  | bar => simp [Event.isQosFrame] at hq

end TraceStep

/-- Before the first frame a run stays fresh, from then on it keeps the invariant. -/
theorem run_reorder {w : ℕ} {t : Trace α} (ht : Fresh w t) (hw : 1 ≤ w) (hw' : w ≤ 64)
    (evs : List (Event α)) (hbar : ∀ e ∈ evs, e.isBar = false) :
    (Fresh w (run Trace.step t evs) ∧ ∀ e ∈ evs, e.isQosFrame = false) ∨
      TraceInv 1 w (run Trace.step t evs) := by
  induction evs using List.reverseRecOn with
  | nil => exact Or.inl ⟨ht, by simp⟩
  | append_singleton evs e ih =>
    have he := hbar e (by simp)
    rw [run_append, run_cons, run_nil]
    rcases ih fun x hx => hbar x (by simp [hx]) with ⟨hfresh, hnone⟩ | hinv
    · cases hq : e.isQosFrame with
      | false =>
        refine Or.inl ⟨hfresh.idle he hq, ?_⟩
        intro x hx
        rcases List.mem_append.mp hx with hx | hx
        · exact hnone x hx
        · rw [List.mem_singleton.mp hx]
          exact hq
      | true => exact Or.inr (hfresh.first (by omega) hw hw' hq)
    · exact Or.inr (hinv.step le_rfl hw hw' he (noStartDup_of_one_le hinv.window e))

theorem WindowInv.nodup {lo w : ℕ} {c : RecvReorderCtrl α} (h : WindowInv lo w c) :
    (c.pendingRecvframeQueue.map RecvFrame.seqNum).Nodup := by
  rw [List.Nodup, List.pairwise_map]
  refine h.sorted.imp ?_
  intro f g hfg heq
  have := (frameOff_eq_iff h.start_lt g f).mpr heq
  omega

/-- Any run without BlockAckReq frames keeps the reordering window well formed, and the frames
it queued are pending or were indicated once, in ascending unwrapped order. -/
theorem reorder_window_invariant (c : RecvReorderCtrl α) (hen : c.enable = true)
    (hempty : c.pendingRecvframeQueue = []) (hstart : c.indicateSeq = 0xFFFF) (hw : 1 ≤ c.wsizeB)
    (hw' : c.wsizeB ≤ 64) (evs : List (Event α)) (hbar : ∀ e ∈ evs, e.isBar = false)
    (hfirst : ∃ e ∈ evs, e.isQosFrame = true) :
    let t := run Trace.step (Trace.start c) evs
    let off : RecvFrame α → ℕ := frameOff t.ctrl.indicateSeq
    t.ctrl.indicateSeq ≤ 4095 ∧
      t.ctrl.pendingRecvframeQueue.Pairwise (fun f g => off f < off g) ∧
      (∀ f ∈ t.ctrl.pendingRecvframeQueue, 1 ≤ off f ∧ off f ≤ c.wsizeB - 1) ∧
      (t.ctrl.pendingRecvframeQueue.map RecvFrame.seqNum).Nodup ∧
      t.enqueued.Perm (t.indicated.map Prod.snd ++ t.ctrl.pendingRecvframeQueue) ∧
      t.indicated.Pairwise (fun p q => p.1 < q.1) ∧
      (∀ p ∈ t.indicated, p.1 < t.travel) ∧
      ∃ start, (start + t.travel) % 4096 = t.ctrl.indicateSeq ∧
        ∀ p ∈ t.indicated, (start + p.1) % 4096 = p.2.seqNum := by
  intro t off
  have hfresh : Fresh c.wsizeB (Trace.start c) := ⟨hen, rfl, hstart, hempty, rfl, rfl, rfl⟩
  obtain ⟨e, he, hq⟩ := hfirst
  rcases run_reorder hfresh hw hw' evs hbar with ⟨_, hnone⟩ | h
  · rw [hnone e he] at hq
    exact absurd hq (by simp)
  · refine ⟨Nat.le_of_lt_succ h.window.start_lt, h.window.sorted, ?_, h.window.nodup, h.perm,
      h.ascending, h.passed, h.origin⟩
    intro f hf
    obtain ⟨hlo, hhi⟩ := h.window.offsets f hf
    exact ⟨hlo, Nat.le_pred_of_lt hhi⟩

theorem reorder_window_invariant_wrap :
    (4 : ℕ) ≤ 64 ∧
      (run Trace.step (Trace.start
        { enable := true, indicateSeq := 0xFFFF, wsizeB := 4, pendingRecvframeQueue := []
          bReorderWaiting := false, reorderingCtrlTimer := false, recAbbaRspAck := false })
        [.frame ⟨4094, by decide, true, ()⟩, .frame ⟨1, by decide, true, ()⟩,
          .timeout false, .frame ⟨4095, by decide, true, ()⟩]).ctrl.indicateSeq ≤ 4095 :=
  ⟨by decide, (reorder_window_invariant _ rfl rfl rfl (by decide) (by decide) _ (by decide)
    ⟨_, List.mem_cons_self, rfl⟩).1⟩

end Rtl8821cu.Reorder
