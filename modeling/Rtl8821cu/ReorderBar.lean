import Rtl8821cu.ReorderRun

/-! BlockAckReq frames in the reordering window. `rtw_process_bar_frame` writes the window start
without comparing it with the old one; the results say which arrivals keep the window moving
forward all the same. -/
namespace Rtl8821cu.Reorder
open KeyQueue Run

variable {α : Type*}

/-- The starting sequence number of a BlockAckReq. -/
def barStart (ssc : BitVec 16) : ℕ := ssc.toNat / 16

theorem barStart_lt (ssc : BitVec 16) : barStart ssc < 4096 := by
  have := ssc.isLt
  unfold barStart
  omega

/-- The arrivals that keep the window moving forward: a BlockAckReq whose start is neither
behind the window nor past a pending frame, and a data frame that is no copy of a frame
pending at the very start. With a window of one, a frame half the space ahead is left out. -/
def MovesForward (c : RecvReorderCtrl α) : Event α → Prop
  | .frame f => NoStartDup c (.frame f) ∧
      (c.wsizeB = 1 → f.qos = true → frameOff c.indicateSeq f ≠ 2047)
  | .timeout _ => True
  | .bar ssc => snOff c.indicateSeq (barStart ssc) < 2048 ∧
      ∀ g ∈ c.pendingRecvframeQueue, snOff c.indicateSeq (barStart ssc) ≤ frameOff c.indicateSeq g

/-- From an initialised window the start moves to a number that is not `SN_LESS` than it, and
every frame indicated on the way lies between the two. -/
def StartMonotone (c : RecvReorderCtrl α) (e : Event α) : Prop :=
  c.indicateSeq ≤ 4095 →
    (exec c e).ctrl.indicateSeq ≤ 4095 ∧
      snLess (exec c e).ctrl.indicateSeq c.indicateSeq = false ∧
      ∀ f ∈ (exec c e).indicated,
        frameOff c.indicateSeq f < snOff c.indicateSeq (exec c e).ctrl.indicateSeq

section Advance
variable {lo w : ℕ} {c : RecvReorderCtrl α}

theorem Drained.advance_lt {s : ℕ} {q out : List (RecvFrame α)} {c' : RecvReorderCtrl α}
    (h : Drained c s q c' out) (hb : c.indicateSeq < 4096)
    (hlt : (drain (frameOff c.indicateSeq) s q).1 < 2048) :
    snOff c.indicateSeq c'.indicateSeq < 2048 := by
  rw [h.start, snOff_add hb (by omega)]
  exact hlt

/-- A frame at offset 2047 leaves the window of two or more one short of full. -/
theorem drain_shift_lt {f : RecvFrame α} {q : List (RecvFrame α)} (h : WindowInv lo w c)
    (hw : 1 ≤ w) (hw' : w ≤ 64) (hd : frameOff c.indicateSeq f < 2048)
    (hone : w = 1 → frameOff c.indicateSeq f ≠ 2047)
    (hq : insertKey (frameOff c.indicateSeq) f c.pendingRecvframeQueue = some q) :
    (drain (frameOff c.indicateSeq) (windowShift w (frameOff c.indicateSeq f)) q).1 < 2048 := by
  by_cases hfar : frameOff c.indicateSeq f = 2047
  · have hs : windowShift w (frameOff c.indicateSeq f) = 2048 - w := by
      unfold windowShift
      split_ifs <;> omega
    rw [hs, drain_eq_of_no_hit]
    · omega
    · intro g hg
      rcases (mem_insertKey hq).mp hg with rfl | hg
      · omega
      · have := (h.offsets g hg).2
        omega
  · have hs := windowShift_le (w := w) (d := frameOff c.indicateSeq f) hw
    refine Nat.lt_succ_of_le (drain_le (b := 2047) _ q ?_ (by omega))
    intro g hg
    rcases (mem_insertKey hq).mp hg with rfl | hg
    · omega
    · have := (h.offsets g hg).2
      omega

theorem frame_advance (h : WindowInv lo w c) (hw : 1 ≤ w) (hw' : w ≤ 64) {f : RecvFrame α}
    (hqos : f.qos = true) (hone : w = 1 → frameOff c.indicateSeq f ≠ 2047) :
    snOff c.indicateSeq (exec c (.frame f)).ctrl.indicateSeq < 2048 := by
  by_cases hd : 2048 ≤ frameOff c.indicateSeq f
  · simp only [exec, reorder_behind h hqos hd, snOff_self]
    omega
  · by_cases hnew : ∃ g ∈ c.pendingRecvframeQueue,
        frameOff c.indicateSeq g = frameOff c.indicateSeq f
    · have he := reorder_duplicate h hw hw' hqos (by omega) hnew
      obtain ⟨g, hg, hgf⟩ := hnew
      have hlt := (h.offsets g hg).2
      have hs : windowShift w (frameOff c.indicateSeq f) ≤ 1 := by
        unfold windowShift
        split_ifs <;> omega
      simp only [exec, he]
      rw [snOff_add h.start_lt (by omega)]
      omega
    · obtain ⟨-, q, hq, hdr⟩ := reorder_accepted h hw hw' hqos (by omega) hnew
      exact hdr.advance_lt h.start_lt (drain_shift_lt h hw hw' (by omega) hone hq)

theorem timeout_advance (h : WindowInv lo w c) (hw' : w ≤ 64) (b : Bool) :
    snOff c.indicateSeq (exec c (.timeout b)).ctrl.indicateSeq < 2048 := by
  by_cases hi : b = true ∨ c.pendingRecvframeQueue = []
  · obtain ⟨-, waiting, armed, hctrl⟩ := timeout_idle b hi
    simp only [exec, hctrl, snOff_self]
    omega
  · obtain ⟨hb, hne⟩ := not_or.mp hi
    obtain rfl : b = false := by simpa using hb
    obtain ⟨g, rest, hp⟩ := List.exists_cons_of_ne_nil hne
    have hdr := timeout_drained h hw' hp
    have hg := (h.offsets g (by simp [hp])).2
    refine hdr.advance_lt h.start_lt (lt_of_le_of_lt (drain_le (b := 64) _ _ ?_ (by omega)) (by omega))
    intro f hf
    have := (h.offsets f hf).2
    omega

/-- A BlockAckReq that stays within the window re-bases the pending offsets. -/
theorem bar_window {ssc : BitVec 16} (h : WindowInv lo w c)
    (hle : ∀ g ∈ c.pendingRecvframeQueue,
      snOff c.indicateSeq (barStart ssc) ≤ frameOff c.indicateSeq g) :
    WindowInv 0 w (exec c (.bar ssc)).ctrl := by
  have hstart : (exec c (.bar ssc)).ctrl.indicateSeq =
      (c.indicateSeq + snOff c.indicateSeq (barStart ssc)) % 4096 :=
    (add_snOff h.start_lt (barStart_lt ssc)).symm
  have hoff : ∀ g ∈ c.pendingRecvframeQueue, frameOff (exec c (.bar ssc)).ctrl.indicateSeq g =
      frameOff c.indicateSeq g - snOff c.indicateSeq (barStart ssc) := by
    intro g hg
    rw [hstart]
    exact snOff_rebase h.start_lt g.seqNum_lt (hle g hg)
  refine ⟨h.enable, h.ack, h.wsize, barStart_lt ssc, ?_, ?_⟩
  · refine h.sorted.imp_of_mem ?_
    intro x y hx hy hxy
    have := hle x hx
    rw [hoff x hx, hoff y hy]
    omega
  · intro g hg
    have := (h.offsets g hg).2
    rw [hoff g hg]
    omega

end Advance

section BarStep
variable {w : ℕ} {t : Trace α}

theorem TraceInv.step_bar {e : Event α} (h : TraceInv 0 w t) (hw : 1 ≤ w) (hw' : w ≤ 64)
    (he : MovesForward t.ctrl e) : TraceInv 0 w (t.step e) := by
  cases e with
  | frame f => exact h.step (by omega) hw hw' rfl he.1
  | timeout b => exact h.step (by omega) hw hw' rfl trivial
  | bar ssc =>
    exact TraceInv.extend h.perm h.ascending h.passed h.origin rfl h.window.start_lt
      (bar_window h.window he.2) (Sweep.of_idle rfl rfl)

theorem TraceInv.startMonotone {e : Event α} (h : TraceInv 0 w t) (hw : 1 ≤ w) (hw' : w ≤ 64)
    (he : MovesForward t.ctrl e) : StartMonotone t.ctrl e := by
  have hb := h.window.start_lt
  have key : ∀ o : ReorderOut α, o.ctrl.indicateSeq < 4096 →
      snOff t.ctrl.indicateSeq o.ctrl.indicateSeq < 2048 →
      o.ctrl.indicateSeq ≤ 4095 ∧ snLess o.ctrl.indicateSeq t.ctrl.indicateSeq = false := by
    intro o ho hlt
    refine ⟨Nat.le_of_lt_succ ho, ?_⟩
    rw [Bool.eq_false_iff, ne_eq, snLess_iff_le_off hb ho]
    omega
  intro _
  cases e with
  | frame f =>
    cases hqos : f.qos with
    | true =>
      obtain ⟨hwin, hsweep⟩ := frame_step h.window (by omega) hw hw' hqos he.1
      have hadv := frame_advance h.window hw hw' hqos
        (fun hone => he.2 (h.window.wsize.trans hone) hqos)
      exact ⟨(key _ hwin.start_lt hadv).1, (key _ hwin.start_lt hadv).2, hsweep.swept⟩
    | false =>
      have hr := reorder_not_qos t.ctrl hqos
      simp only [exec, hr]
      exact ⟨Nat.le_of_lt_succ hb, (key ⟨t.ctrl, [], .fail⟩ hb (by simp [snOff_self])).2, by simp⟩
  | timeout b =>
    obtain ⟨hwin, hsweep⟩ := timeout_step h.window (by omega) hw' b
    have hadv := timeout_advance h.window hw' b
    exact ⟨(key _ hwin.start_lt hadv).1, (key _ hwin.start_lt hadv).2, hsweep.swept⟩
  | bar ssc =>
    have hwin := bar_window h.window he.2
    exact ⟨(key _ hwin.start_lt he.1).1, (key _ hwin.start_lt he.1).2, by simp [exec]⟩

theorem Fresh.bar (h : Fresh w t) (hack : t.ctrl.recAbbaRspAck = false) (ssc : BitVec 16) :
    TraceInv 0 w (t.step (.bar ssc)) := by
  have hlt := barStart_lt ssc
  refine ⟨⟨h.enable, hack, h.wsize, hlt, ?_, ?_⟩, ?_, ?_, ?_, barStart ssc, ?_, ?_⟩
  · simp [Trace.step, exec, rtwProcessBarFrame, h.pending, Sorted]
  · simp [Trace.step, exec, rtwProcessBarFrame, h.pending]
  · simp [Trace.step, exec, accepted, rtwProcessBarFrame, h.enqueued, h.indicated, h.pending]
  · simp [Trace.step, exec, h.indicated]
  · simp [Trace.step, exec, h.indicated]
  · have htravel : snOff t.ctrl.indicateSeq (barStart ssc) = 0 := by
      rw [h.start]
      unfold snOff
      omega
    show (barStart ssc + (t.travel + snOff t.ctrl.indicateSeq (barStart ssc))) % 4096 = barStart ssc
    rw [h.travel, htravel]
    exact Nat.mod_eq_of_lt hlt
  · simp [Trace.step, exec, h.indicated]

theorem Fresh.ack_idle (h : Fresh w t) (hack : t.ctrl.recAbbaRspAck = false) {e : Event α}
    (hq : e.isQosFrame = false) : (t.step e).ctrl.recAbbaRspAck = false := by
  cases e with
  | frame f => simp [Trace.step, exec, reorder_not_qos t.ctrl (f := f) hq, hack]
  | timeout b =>
    obtain ⟨-, waiting, armed, hctrl⟩ := timeout_idle b (Or.inr h.pending)
    simp [Trace.step, exec, hctrl, hack]
  | bar => exact hack

end BarStep

/-- Waiting for the first arrival, or under the invariant. -/
def Started (w : ℕ) (t : Trace α) : Prop :=
  (Fresh w t ∧ t.ctrl.recAbbaRspAck = false) ∨ TraceInv 0 w t

theorem Started.step {w : ℕ} (hw : 1 ≤ w) (hw' : w ≤ 64) (t : Trace α) (e : Event α)
    (h : Started w t) (he : MovesForward t.ctrl e) : Started w (t.step e) := by
  rcases h with ⟨hf, hack⟩ | hinv
  · cases hb : e.isBar with
    | true =>
      cases e with
      | bar ssc => exact Or.inr (hf.bar hack ssc)
      | frame => simp [Event.isBar] at hb
      | timeout => simp [Event.isBar] at hb
    | false =>
      cases hq : e.isQosFrame with
      | true => exact Or.inr (hf.first (by omega) hw hw' hq)
      | false => exact Or.inl ⟨hf.idle hb hq, hf.ack_idle hack hq⟩
  · exact Or.inr (hinv.step_bar hw hw' he)

theorem Started.startMonotone {w : ℕ} (hw : 1 ≤ w) (hw' : w ≤ 64) (t : Trace α) (e : Event α)
    (h : Started w t) (he : MovesForward t.ctrl e) : StartMonotone t.ctrl e := by
  rcases h with ⟨hf, -⟩ | hinv
  · intro hle
    rw [hf.start] at hle
    omega
  · exact hinv.startMonotone hw hw' he

/-- A sequence number comes up again only a whole turn later. -/
theorem TraceInv.no_repeat {lo w : ℕ} {t : Trace α} (h : TraceInv lo w t) :
    t.indicated.Pairwise (fun p q => p.2.seqNum = q.2.seqNum → p.1 + 4096 ≤ q.1) := by
  obtain ⟨start, -, hpos⟩ := h.origin
  refine h.ascending.imp_of_mem ?_
  intro p q hp hq hlt heq
  have h1 := hpos p hp
  have h2 := hpos q hq
  omega

theorem started_start {c : RecvReorderCtrl α} (hen : c.enable = true)
    (hack : c.recAbbaRspAck = false) (hempty : c.pendingRecvframeQueue = [])
    (hstart : c.indicateSeq = 0xFFFF ∨ c.indicateSeq ≤ 4095) :
    Started c.wsizeB (Trace.start c) := by
  rcases hstart with hs | hs
  · exact Or.inl ⟨⟨hen, rfl, hs, hempty, rfl, rfl, rfl⟩, hack⟩
  · refine Or.inr ⟨⟨hen, hack, rfl, Nat.lt_succ_of_le hs, ?_, ?_⟩, ?_, ?_, ?_, c.indicateSeq, ?_, ?_⟩
    · simp [Trace.start, hempty, Sorted]
    · simp [Trace.start, hempty]
    · simp [Trace.start, hempty]
    · simp [Trace.start]
    · simp [Trace.start]
    · exact Nat.mod_eq_of_lt (Nat.lt_succ_of_le hs)
    · simp [Trace.start]

/-- In a run whose arrivals all keep to `MovesForward`, no step moves the window start back, and
a sequence number is indicated again only after the window went all the way round. -/
theorem window_start_monotone (c : RecvReorderCtrl α) (hen : c.enable = true)
    (hack : c.recAbbaRspAck = false) (hempty : c.pendingRecvframeQueue = [])
    (hstart : c.indicateSeq = 0xFFFF ∨ c.indicateSeq ≤ 4095) (hw : 1 ≤ c.wsizeB)
    (hw' : c.wsizeB ≤ 64) (evs : List (Event α))
    (h : Along Trace.step (fun t e => MovesForward t.ctrl e) (Trace.start c) evs) :
    Along Trace.step (fun t e => StartMonotone t.ctrl e) (Trace.start c) evs ∧
      (run Trace.step (Trace.start c) evs).indicated.Pairwise
        (fun p q => p.1 < q.1 ∧ (p.2.seqNum = q.2.seqNum → p.1 + 4096 ≤ q.1)) := by
  have h0 := started_start hen hack hempty hstart
  refine ⟨along_mono (Started.step hw hw') (Started.startMonotone hw hw') h0 h, ?_⟩
  rcases run_invariant (Started.step hw hw') h0 h with ⟨hfresh, -⟩ | hinv
  · simp [hfresh.indicated]
  · exact hinv.ascending.and hinv.no_repeat

/-- A controller as `rtw_alloc_stainfo` leaves it, with reordering enabled. -/
def allocCtrl (α : Type*) : RecvReorderCtrl α :=
  { enable := true, indicateSeq := 0xFFFF, wsizeB := 64, pendingRecvframeQueue := []
    bReorderWaiting := false, reorderingCtrlTimer := false, recAbbaRspAck := false }

theorem window_start_monotone_gap :
    Along Trace.step (fun t e => StartMonotone t.ctrl e) (Trace.start (allocCtrl Unit))
      [.frame ⟨100, by decide, true, ()⟩, .frame ⟨105, by decide, true, ()⟩,
        .bar (BitVec.ofNat 16 (103 * 16)), .timeout false] := by
  refine (window_start_monotone (allocCtrl Unit) rfl rfl rfl (Or.inl rfl) (by decide) (by decide)
    _ ?_).1
  refine ⟨⟨?_, by decide⟩, ⟨?_, by decide⟩, ⟨by decide, by decide⟩, trivial, trivial⟩
  · unfold NoStartDup
    decide
  · unfold NoStartDup
    decide

/-- A stale BlockAckReq moves the start from 101 back to 50. -/
theorem bar_moves_window_back :
    ¬ ∀ evs : List (Event Unit),
      Along Trace.step (fun t e => StartMonotone t.ctrl e) (Trace.start (allocCtrl Unit)) evs := by
  intro h
  have hbar := (h [.frame ⟨100, by decide, true, ()⟩, .bar (BitVec.ofNat 16 (50 * 16))]).2.1
  exact absurd (hbar (by decide)).2.1 (by decide)

end Rtl8821cu.Reorder
