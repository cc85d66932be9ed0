import Rtl8821cu.LibKeyQueue

/-! A-MPDU receive reordering (`core/rtw_recv.c`) and the BlockAckReq handler that shares its
window start (`core/rtw_wlan_util.c`). Every function returns the controller it leaves behind
together with the frames it handed to `recv_process_mpdu`, in order. -/
namespace Rtl8821cu.Reorder

/-- A received MPDU as the reordering code sees it; `GetSequence` yields twelve bits. -/
structure RecvFrame (α : Type*) where
  seqNum : ℕ
  seqNum_lt : seqNum < 4096
  qos : Bool
  body : α
  deriving DecidableEq

/-- `struct recv_reorder_ctrl`; the timer field records whether it is armed. -/
structure RecvReorderCtrl (α : Type*) where
  enable : Bool
  indicateSeq : ℕ
  wsizeB : ℕ
  pendingRecvframeQueue : List (RecvFrame α)
  bReorderWaiting : Bool
  reorderingCtrlTimer : Bool
  recAbbaRspAck : Bool
  deriving DecidableEq

inductive Ret
  | fail
  | success
  | handled
  deriving DecidableEq, Repr

variable {α : Type*}

/-- `SN_LESS(a, b)`: bit 11 of the two's-complement difference. -/
def snLess (a b : ℕ) : Bool := decide (((a : ℤ) - b) / 0x800 % 2 = 1)

def snEqual (a b : ℕ) : Bool := decide (a = b)

/-- An `int` masked with `0xFFF`. -/
def mask0xFFF (x : ℤ) : ℕ := (x % 0x1000).toNat

/-- An `int` stored into a `u16`. -/
def toU16 (x : ℤ) : ℕ := (x % 0x10000).toNat

def checkIndicateSeq (c : RecvReorderCtrl α) (seqNum : ℕ) : RecvReorderCtrl α × Bool :=
  let iseq := if c.indicateSeq = 0xFFFF then seqNum else c.indicateSeq
  let c := { c with indicateSeq := iseq }
  let wend := mask0xFFF ((iseq : ℤ) + c.wsizeB - 1)
  if snLess seqNum iseq then (c, false)
  else if snEqual seqNum iseq then ({ c with indicateSeq := mask0xFFF ((iseq : ℤ) + 1) }, true)
  else if snLess wend seqNum then
    if (c.wsizeB : ℤ) - 1 ≤ seqNum then
      ({ c with indicateSeq := toU16 ((seqNum : ℤ) + 1 - c.wsizeB) }, true)
    else ({ c with indicateSeq := toU16 (0xFFF - ((c.wsizeB : ℤ) - (seqNum + 1)) + 1) }, true)
  else (c, true)

/-- `none` is the duplicate exit. -/
def enqueueReorderRecvframe (prframe : RecvFrame α) :
    List (RecvFrame α) → Option (List (RecvFrame α))
  | [] => some [prframe]
  | next :: rest =>
      if snLess next.seqNum prframe.seqNum then
        (enqueueReorderRecvframe prframe rest).map (next :: ·)
      else if snEqual next.seqNum prframe.seqNum then none
      else some (prframe :: next :: rest)

/-- What one forced indication adds to `rx_drop`. -/
def recvIndicatepktsPktLossCnt (prevSeq currentSeq : ℕ) : ℕ :=
  if currentSeq < prevSeq then 4096 + currentSeq - prevSeq else currentSeq - prevSeq

/-- The indication loop: new window start, indicated frames, frames left in the queue. -/
def indicateLoop (iseq : ℕ) :
    List (RecvFrame α) → ℕ × List (RecvFrame α) × List (RecvFrame α)
  | [] => (iseq, [], [])
  | prframe :: rest =>
      if !snLess iseq prframe.seqNum then
        let r := indicateLoop
          (if snEqual iseq prframe.seqNum then mask0xFFF ((iseq : ℤ) + 1) else iseq) rest
        (r.1, prframe :: r.2.1, r.2.2)
      else (iseq, [], prframe :: rest)

structure InOrder (α : Type*) where
  ctrl : RecvReorderCtrl α
  indicated : List (RecvFrame α)
  bPktInBuf : Bool
  rxDrop : ℕ
  deriving DecidableEq

def recvIndicatepktsInOrder (c : RecvReorderCtrl α) (bforced : Bool) : InOrder α :=
  let finish := fun (iseq drop : ℕ) =>
    let r := indicateLoop iseq c.pendingRecvframeQueue
    { ctrl := { c with indicateSeq := r.1, pendingRecvframeQueue := r.2.2 }
      indicated := r.2.1
      bPktInBuf := !r.2.2.isEmpty
      rxDrop := drop }
  if bforced then
    match c.pendingRecvframeQueue with
    | [] => ⟨c, [], true, 0⟩
    | prframe :: _ =>
        finish prframe.seqNum (recvIndicatepktsPktLossCnt c.indicateSeq prframe.seqNum)
  else finish c.indicateSeq 0

structure ReorderOut (α : Type*) where
  ctrl : RecvReorderCtrl α
  indicated : List (RecvFrame α)
  ret : Ret
  deriving DecidableEq

/-- The frame's controller is present; a frame without one leaves through `_success_exit`
in the caller. -/
def recvIndicatepktReorder (c : RecvReorderCtrl α) (prframe : RecvFrame α) : ReorderOut α :=
  if !prframe.qos || !c.enable then ⟨c, [], .success⟩
  else
    let c := if c.recAbbaRspAck then { c with recAbbaRspAck := false, indicateSeq := 0xFFFF } else c
    let chk := checkIndicateSeq c prframe.seqNum
    if !chk.2 then ⟨chk.1, [], .fail⟩
    else
      match enqueueReorderRecvframe prframe chk.1.pendingRecvframeQueue with
      | none => ⟨chk.1, [], .fail⟩
      | some q =>
          let r := recvIndicatepktsInOrder { chk.1 with pendingRecvframeQueue := q } false
          if r.bPktInBuf then
            ⟨{ r.ctrl with
                bReorderWaiting := true
                reorderingCtrlTimer := !r.ctrl.bReorderWaiting || r.ctrl.reorderingCtrlTimer },
              r.indicated, .handled⟩
          else
            ⟨{ r.ctrl with bReorderWaiting := false, reorderingCtrlTimer := false },
              r.indicated, .handled⟩

/-- `cannotRun` is `RTW_CANNOT_RUN`; a firing timer is no longer armed. -/
def rtwReorderingCtrlTimeoutHandler (cannotRun : Bool) (c : RecvReorderCtrl α) : InOrder α :=
  if cannotRun then ⟨{ c with reorderingCtrlTimer := false }, [], false, 0⟩
  else
    let r := recvIndicatepktsInOrder { c with bReorderWaiting := false } true
    { r with ctrl := { r.ctrl with reorderingCtrlTimer := r.bPktInBuf } }

/-- `ssc` is the starting sequence control word at offset 18 of the BlockAckReq. -/
def rtwProcessBarFrame (c : RecvReorderCtrl α) (ssc : BitVec 16) : RecvReorderCtrl α :=
  { c with indicateSeq := ssc.toNat / 16 }

end Rtl8821cu.Reorder
