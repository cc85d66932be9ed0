import Rtl8821cu.LibRun
import Rtl8821cu.ReorderWindow

/-! The invariant of the reordering window and what one event does under it. -/
namespace Rtl8821cu.Reorder
open KeyQueue

variable {α : Type*}

/-- Window start in range, queue ordered by offset, every pending offset in `[lo, w)`. -/
structure WindowInv (lo w : ℕ) (c : RecvReorderCtrl α) : Prop where
  enable : c.enable = true
  ack : c.recAbbaRspAck = false
  wsize : c.wsizeB = w
  start_lt : c.indicateSeq < 4096
  sorted : Sorted (frameOff c.indicateSeq) c.pendingRecvframeQueue
  offsets : ∀ f ∈ c.pendingRecvframeQueue,
    lo ≤ frameOff c.indicateSeq f ∧ frameOff c.indicateSeq f < w

/-- `c'` is what draining `q` from offset `s` of the window of `c` leaves, `out` what it
indicates. -/
structure Drained (c : RecvReorderCtrl α) (s : ℕ) (q : List (RecvFrame α))
    (c' : RecvReorderCtrl α) (out : List (RecvFrame α)) : Prop where
  enable : c'.enable = c.enable
  ack : c'.recAbbaRspAck = c.recAbbaRspAck
  wsize : c'.wsizeB = c.wsizeB
  start : c'.indicateSeq = (c.indicateSeq + (drain (frameOff c.indicateSeq) s q).1) % 4096
  indicated : out = (drain (frameOff c.indicateSeq) s q).2.1
  pending : c'.pendingRecvframeQueue = (drain (frameOff c.indicateSeq) s q).2.2

section Drained
variable {c c' : RecvReorderCtrl α} {s w : ℕ} {q out : List (RecvFrame α)}

theorem Drained.append (h : Drained c s q c' out) : out ++ c'.pendingRecvframeQueue = q := by
  rw [h.indicated, h.pending]
  exact drain_append s q

theorem Drained.out_sorted (h : Drained c s q c' out) (hq : Sorted (frameOff c.indicateSeq) q) :
    Sorted (frameOff c.indicateSeq) out := by
  rw [h.indicated]
  exact drain_released_sorted s hq

theorem Drained.drain_lt (hs : s ≤ 2048) (hq : ∀ f ∈ q, frameOff c.indicateSeq f < 2048) :
    (drain (frameOff c.indicateSeq) s q).1 < 4096 := by
  have := drain_le s q hq hs
  omega

/-- Every indicated frame lies in the stretch the window start swept over. -/
theorem Drained.out_lt (h : Drained c s q c' out) (hb : c.indicateSeq < 4096) (hs : s ≤ 2048)
    (hq : ∀ f ∈ q, frameOff c.indicateSeq f < 2048) :
    ∀ f ∈ out, frameOff c.indicateSeq f < snOff c.indicateSeq c'.indicateSeq := by
  intro f hf
  rw [h.start, snOff_add hb (drain_lt hs hq)]
  rw [h.indicated] at hf
  exact drain_released_lt s q f hf

/-- After a drain every pending frame is strictly ahead of the window start. -/
theorem Drained.windowInv (h : Drained c s q c' out) (hb : c.indicateSeq < 4096)
    (hen : c.enable = true) (hack : c.recAbbaRspAck = false) (hw : c.wsizeB = w)
    (hsort : Sorted (frameOff c.indicateSeq) q) (hq : ∀ f ∈ q, frameOff c.indicateSeq f < s + w) :
    WindowInv 1 w c' := by
  have hkept := drain_kept_gt s hsort
  have hle := le_drain (k := frameOff c.indicateSeq) s q
  have hoff : ∀ f ∈ c'.pendingRecvframeQueue, frameOff c'.indicateSeq f =
      frameOff c.indicateSeq f - (drain (frameOff c.indicateSeq) s q).1 := by
    intro f hf
    rw [h.pending] at hf
    rw [h.start]
    exact snOff_rebase hb f.seqNum_lt (hkept f hf).le
  refine ⟨h.enable.trans hen, h.ack.trans hack, h.wsize.trans hw, ?_, ?_, ?_⟩
  · rw [h.start]
    exact Nat.mod_lt _ (by decide)
  · have hs := drain_kept_sorted s hsort
    rw [← h.pending] at hs
    refine hs.imp_of_mem ?_
    intro x y hx hy hxy
    have := hkept x (h.pending ▸ hx)
    rw [hoff x hx, hoff y hy]
    omega
  · intro f hf
    have hgt := hkept f (h.pending ▸ hf)
    have hlt := hq f (drain_kept_subset s q f (h.pending ▸ hf))
    rw [hoff f hf]
    omega

end Drained

theorem indicate_drained {c d : RecvReorderCtrl α} {s : ℕ} (hb : c.indicateSeq < 4096)
    (hc : d.indicateSeq = (c.indicateSeq + s) % 4096) (hs : s ≤ 2047)
    (hen : d.enable = c.enable) (hack : d.recAbbaRspAck = c.recAbbaRspAck)
    (hw : d.wsizeB = c.wsizeB)
    (hsort : Sorted (frameOff c.indicateSeq) d.pendingRecvframeQueue)
    (hq : ∀ f ∈ d.pendingRecvframeQueue, frameOff c.indicateSeq f < 2048) :
    Drained c s d.pendingRecvframeQueue (recvIndicatepktsInOrder d false).ctrl
      (recvIndicatepktsInOrder d false).indicated := by
  have hloop := indicateLoop_eq_drain hb d.pendingRecvframeQueue s
    (fun f hf => Nat.le_of_lt_succ (hq f hf)) hsort (fun _ => hs)
  simp only [recvIndicatepktsInOrder, Bool.false_eq_true, if_false, hc, hloop]
  exact ⟨hen, hack, hw, rfl, rfl, rfl⟩

section Frame
variable {lo w : ℕ} {c : RecvReorderCtrl α} {f : RecvFrame α}

/-- A frame behind the window start changes nothing. -/
theorem reorder_behind (h : WindowInv lo w c) (hqos : f.qos = true)
    (hd : 2048 ≤ frameOff c.indicateSeq f) : recvIndicatepktReorder c f = ⟨c, [], .fail⟩ := by
  simp [recvIndicatepktReorder, hqos, h.enable, h.ack,
    checkIndicateSeq_behind h.start_lt f.seqNum_lt hd]

/-- A frame already pending is refused; the window start keeps the move made before. -/
theorem reorder_duplicate (h : WindowInv lo w c) (hw : 1 ≤ w) (hw' : w ≤ 64) (hqos : f.qos = true)
    (hd : frameOff c.indicateSeq f < 2048)
    (hdup : ∃ g ∈ c.pendingRecvframeQueue, frameOff c.indicateSeq g = frameOff c.indicateSeq f) :
    recvIndicatepktReorder c f =
      ⟨{ c with indicateSeq :=
          (c.indicateSeq + windowShift w (frameOff c.indicateSeq f)) % 4096 }, [], .fail⟩ := by
  have hchk := checkIndicateSeq_ahead h.start_lt f.seqNum_lt h.wsize hw hw' hd
  have henq : enqueueReorderRecvframe f c.pendingRecvframeQueue = none := by
    rw [enqueueReorderRecvframe_eq_insertKey h.start_lt f _ (by omega)
      (fun g hg => by have := h.offsets g hg; omega)]
    exact (insertKey_eq_none h.sorted).mpr hdup
  simp [recvIndicatepktReorder, hqos, h.enable, h.ack, hchk, henq, frameOff]

/-- Arming or cancelling the timer afterwards does not touch what the drain left. -/
theorem reorder_drained {c₁ : RecvReorderCtrl α} {q : List (RecvFrame α)} {s : ℕ}
    (hqos : f.qos = true) (hen : c.enable = true) (hack : c.recAbbaRspAck = false)
    (hchk : checkIndicateSeq c f.seqNum = (c₁, true))
    (henq : enqueueReorderRecvframe f c₁.pendingRecvframeQueue = some q)
    (h : Drained c s q (recvIndicatepktsInOrder { c₁ with pendingRecvframeQueue := q } false).ctrl
      (recvIndicatepktsInOrder { c₁ with pendingRecvframeQueue := q } false).indicated) :
    (recvIndicatepktReorder c f).ret = .handled ∧
      Drained c s q (recvIndicatepktReorder c f).ctrl (recvIndicatepktReorder c f).indicated := by
  simp only [recvIndicatepktReorder, hqos, hen, hack, hchk, henq, Bool.not_true,
    Bool.or_self, Bool.false_eq_true, if_false]
  split_ifs
  · exact ⟨rfl, h.enable, h.ack, h.wsize, h.start, h.indicated, h.pending⟩
  · exact ⟨rfl, h.enable, h.ack, h.wsize, h.start, h.indicated, h.pending⟩

/-- A frame that is neither behind nor pending is queued in order and the queue is drained
from the shifted window start. -/
theorem reorder_accepted (h : WindowInv lo w c) (hw : 1 ≤ w) (hw' : w ≤ 64) (hqos : f.qos = true)
    (hd : frameOff c.indicateSeq f < 2048)
    (hnew : ¬ ∃ g ∈ c.pendingRecvframeQueue, frameOff c.indicateSeq g = frameOff c.indicateSeq f) :
    (recvIndicatepktReorder c f).ret = .handled ∧
      ∃ q, insertKey (frameOff c.indicateSeq) f c.pendingRecvframeQueue = some q ∧
        Drained c (windowShift w (frameOff c.indicateSeq f)) q
          (recvIndicatepktReorder c f).ctrl (recvIndicatepktReorder c f).indicated := by
  have hoff : ∀ g ∈ c.pendingRecvframeQueue, frameOff c.indicateSeq g < 2048 := by
    intro g hg
    have := h.offsets g hg
    omega
  have hchk := checkIndicateSeq_ahead h.start_lt f.seqNum_lt h.wsize hw hw' hd
  obtain ⟨q, hq⟩ := Option.ne_none_iff_exists'.mp (mt (insertKey_eq_none h.sorted).mp hnew)
  have henq : enqueueReorderRecvframe f c.pendingRecvframeQueue = some q := by
    rw [enqueueReorderRecvframe_eq_insertKey h.start_lt f _ (by omega)
      (fun g hg => Nat.le_of_lt_succ (hoff g hg))]
    exact hq
  have hshift : windowShift w (frameOff c.indicateSeq f) ≤ 2047 := by
    unfold windowShift
    split_ifs <;> omega
  have hdrain := indicate_drained (c := c) (s := windowShift w (frameOff c.indicateSeq f))
    (d := { c with
      indicateSeq := (c.indicateSeq + windowShift w (frameOff c.indicateSeq f)) % 4096
      pendingRecvframeQueue := q })
    h.start_lt rfl hshift rfl rfl rfl (insertKey_sorted h.sorted hq) (by
      intro g hg
      rcases (mem_insertKey hq).mp hg with rfl | hg
      · exact hd
      · exact hoff g hg)
  obtain ⟨hret, hout⟩ := reorder_drained hqos h.enable h.ack hchk henq hdrain
  exact ⟨hret, q, hq, hout⟩

end Frame

end Rtl8821cu.Reorder
