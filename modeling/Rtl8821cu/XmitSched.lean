import Rtl8821cu.PowerSave

/-! Transmit scheduling (`core/rtw_xmit.c`, `hal/rtl8821c/usb/rtl8821cu_xmit.c`,
`core/rtw_sta_mgt.c`): the pending queues of the stations, the station list and counter of each
hardware queue, the sleep queues and the pool of transmit frames. -/
namespace Rtl8821cu.XmitSched
open PowerSave

/-- The entries of `hwxmits`: one for each access category and the management queue. -/
inductive Hwq
  | ac (a : Ac)
  | mgmt
  deriving DecidableEq

/-- `struct tx_servq`; whether it is linked is told by the station list. -/
structure TxServq where
  staPending : List Frame
  qcnt : ℤ

/-- The stations of an adapter with `n` slots: the address of each station in use, its power save
part, its service queues, the station list and `accnt` of each hardware queue, the frames held by
callers and the free frames. The group pseudo station is the one of the group address. -/
structure Xmit (n : ℕ) where
  addr : Fin n → Option Addr
  ps : Fin n → Sta
  servq : Fin n × Hwq → TxServq
  staQueue : Hwq → List (Fin n)
  accnt : Hwq → ℤ
  held : List Frame
  freeXmitQueue : List ℕ

variable {n : ℕ}

namespace Xmit

def rtwGetStainfo (x : Xmit n) (ra : Addr) : Option (Fin n) :=
  (List.finRange n).find? fun i => x.addr i = some ra

/-- `qcnt` of a service queue and `accnt` of its hardware queue go up or down together. -/
def addCnt (x : Xmit n) (p : Fin n × Hwq) (d : ℤ) : Xmit n :=
  { x with
    servq := Function.update x.servq p { x.servq p with qcnt := (x.servq p).qcnt + d }
    accnt := Function.update x.accnt p.2 (x.accnt p.2 + d) }

def setPending (x : Xmit n) (p : Fin n × Hwq) (l : List Frame) : Xmit n :=
  { x with servq := Function.update x.servq p { x.servq p with staPending := l } }

def setPs (x : Xmit n) (i : Fin n) (s : Sta) : Xmit n :=
  { x with ps := Function.update x.ps i s }

/-- `tx_pending` goes to the end of the station list, unless it is linked. -/
def link (x : Xmit n) (p : Fin n × Hwq) : Xmit n :=
  if p.1 ∈ x.staQueue p.2 then x
  else { x with staQueue := Function.update x.staQueue p.2 (x.staQueue p.2 ++ [p.1]) }

/-- `rtw_list_delete` of `tx_pending`, which may be unlinked already. -/
def unlink (x : Xmit n) (p : Fin n × Hwq) : Xmit n :=
  { x with staQueue := Function.update x.staQueue p.2 ((x.staQueue p.2).erase p.1) }

/-- The station goes to the end of the station list. -/
def rearrange (x : Xmit n) (p : Fin n × Hwq) : Xmit n :=
  { x with staQueue := Function.update x.staQueue p.2 ((x.staQueue p.2).erase p.1 ++ [p.1]) }

/-- `rtw_free_xmitframe` of each frame. -/
def freeFrames (x : Xmit n) (l : List Frame) : Xmit n :=
  { x with freeXmitQueue := x.freeXmitQueue ++ l.map Frame.id }

/-- `rtw_tim_map_anyone_be_set` of `sta_dz_bitmap`. -/
def anyDz (x : Xmit n) : Bool := (List.finRange n).any fun i => (x.ps i).dz

/-- `rtw_xmit_classifier` and `rtw_mgmt_xmitframe_enqueue`, which differ in the queue. -/
def enqueueTo (hwq : Frame → Hwq) (x : Xmit n) (f : Frame) : Option (Xmit n) :=
  match x.rtwGetStainfo f.ra with
  | none => none
  | some i =>
    if f.psta ≠ i then none
    else if !(x.ps i).asoc then none
    else
      let p := (i, hwq f)
      some (((x.link p).setPending p ((x.servq p).staPending ++ [f])).addCnt p 1)

def rtwGetStaPending (f : Frame) : Hwq := .ac (acOf f.priority)

def rtwXmitClassifier (x : Xmit n) (f : Frame) : Option (Xmit n) := enqueueTo rtwGetStaPending x f

def rtwMgmtXmitframeEnqueue (x : Xmit n) (f : Frame) : Option (Xmit n) :=
  enqueueTo (fun _ => .mgmt) x f

/-- `dequeue_one_xmitframe`, and the caller's unlinking of an empty queue. -/
def dequeueOneXmitframe (x : Xmit n) (p : Fin n × Hwq) : Option (Frame × Xmit n) :=
  match (x.servq p).staPending with
  | [] => none
  | f :: q =>
    let x := (x.setPending p q).addCnt p (-1)
    some (f, if q.isEmpty then x.unlink p else x)

/-- The walk over the station list of one hardware queue. -/
def dequeueHwq (x : Xmit n) (a : Hwq) : Option (Frame × Xmit n) :=
  (x.staQueue a).findSome? fun i => x.dequeueOneXmitframe (i, a)

/-- `rtw_dequeue_xframe`; the access categories are visited in the order of `inx`, which is that
of the hardware queues or `wmm_para_seq`. -/
def rtwDequeueXframe (x : Xmit n) (inx : List Ac) : Option (Frame × Xmit n) :=
  inx.findSome? fun a => x.dequeueHwq (.ac a)

def rtwDequeueMgmtXframe (x : Xmit n) : Option (Frame × Xmit n) := x.dequeueHwq .mgmt

/-- The aggregation loop of `rtl8821cu_xmitframe_complete`. It ends with the queue or when the
next frame does not match or does not fit; `k` is how many frames it takes until then. A frame is
freed whether it was copied into the transfer or had to be dropped. -/
def aggregationLoop (p : Fin n × Hwq) : ℕ → Xmit n → Xmit n
  | 0, x => x
  | k + 1, x =>
    match (x.servq p).staPending with
    | [] => x
    | f :: q => aggregationLoop p k (((x.setPending p q).addCnt p (-1)).freeFrames [f])

/-- The critical section of `rtl8821cu_xmitframe_complete`, for the queue of its first frame. -/
def aggregate (x : Xmit n) (p : Fin n × Hwq) (k : ℕ) : Xmit n :=
  let singleStaInQueue := (x.staQueue p.2).length ≤ 1
  let x := aggregationLoop p k x
  if (x.servq p).staPending.isEmpty then x.unlink p
  else if singleStaInQueue then x
  else x.rearrange p

/-- `xmitframe_enqueue_for_sleeping_sta`. -/
def enqueueForSleepingSta (x : Xmit n) (f : Frame) : Bool × Xmit n :=
  match x.rtwGetStainfo f.ra with
  | none => (false, x)
  | some j =>
    if f.psta ≠ j then (false, x)
    else
      let r := if f.ra = .group then enqueueForSleepingBmc x.anyDz (x.ps j) f
        else xmitframeEnqueueForSleepingSta (x.ps j) f
      (r.1, x.setPs j r.2)

/-- `mgmt_xmitframe_enqueue_for_sleeping_sta`, which takes the station of the frame as it is. -/
def mgmtEnqueueForSleepingSta (x : Xmit n) (f : Frame) : Bool × Xmit n :=
  if h : f.psta < n then
    let r := mgmtXmitframeEnqueueForSleepingSta (x.ps ⟨f.psta, h⟩) f
    (r.1, x.setPs ⟨f.psta, h⟩ r.2)
  else (false, x)

/-- The loop of `dequeue_xmitframes_to_sleeping_queue` and `dequeue_mgmt_xmitframe_to_sleepq` over
the pending frames of station `i`: the frames that stay, and the adapter. The counters are those
of the queue that belongs to the frame. -/
def dequeueToSleepLoop (enqueue : Xmit n → Frame → Bool × Xmit n) (hwq : Frame → Hwq) (i : Fin n) :
    List Frame → Xmit n → List Frame × Xmit n
  | [], x => ([], x)
  | f :: q, x =>
    let f := { f with triggered := false }
    let r := enqueue x f
    let rest := dequeueToSleepLoop enqueue hwq i q
      (if r.1 then r.2.addCnt (i, hwq f) (-1) else r.2)
    (if r.1 then rest.1 else f :: rest.1, rest.2)

/-- One queue of `stop_sta_xmit`: its frames go to the sleep queue, then it is unlinked. -/
def dequeueToSleepq (enqueue : Xmit n → Frame → Bool × Xmit n) (hwq : Frame → Hwq) (x : Xmit n)
    (p : Fin n × Hwq) : Xmit n :=
  let r := dequeueToSleepLoop enqueue hwq p.1 (x.servq p).staPending x
  (r.2.setPending p r.1).unlink p

/-- The four queues of a station in `stop_sta_xmit`. -/
def stopAcs (x : Xmit n) (i : Fin n) : Xmit n :=
  [Ac.vo, .vi, .be, .bk].foldl
    (fun x a => x.dequeueToSleepq enqueueForSleepingSta rtwGetStaPending (i, .ac a)) x

def stopStaXmit (x : Xmit n) (i : Fin n) : Xmit n :=
  let x := x.setPs i { x.ps i with sleep := true, dz := true }
  let x := x.dequeueToSleepq mgmtEnqueueForSleepingSta (fun _ => .mgmt) (i, .mgmt)
  let x := x.stopAcs i
  match x.rtwGetStainfo .group with
  | none => x
  | some b => x.stopAcs b

/-- `rtw_hal_xmitframe_enqueue` and `rtw_hal_mgmt_xmitframe_enqueue`: a frame that is refused is
freed. -/
def hand (enqueue : Xmit n → Frame → Option (Xmit n)) (x : Xmit n) (f : Frame) : Xmit n :=
  match enqueue x f with
  | some x' => x'
  | none => x.freeFrames [f]

/-- What an operation on the sleep queues of a station hands to transmission. -/
def handOutcome (x : Xmit n) (i : Fin n) (r : Outcome) : Xmit n :=
  r.handed.foldl (hand rtwXmitClassifier)
    (r.mgmtHanded.foldl (hand rtwMgmtXmitframeEnqueue) (x.setPs i r.sta))

/-- `rtw_tim_map_anyone_be_set_exclude_aid0` of `sta_dz_bitmap`, for the pseudo station `b`. -/
def anyDzButBmc (x : Xmit n) (b : Fin n) : Bool :=
  (List.finRange n).any fun i => decide (i ≠ b) && (x.ps i).dz

/-- `wakeup_sta_to_xmit`; the last station to wake up releases the group frames. -/
def wakeup (x : Xmit n) (i : Fin n) : Xmit n :=
  let x := x.handOutcome i (wakeupStaToXmit (x.ps i))
  match x.rtwGetStainfo .group with
  | none => x
  | some b => if x.anyDzButBmc b then x else x.handOutcome b (wakeupBmc (x.ps b))

/-- `rtw_free_xmitframe_queue` of a service queue, which is then unlinked and counted off. -/
def freeServq (x : Xmit n) (p : Fin n × Hwq) : Xmit n :=
  let q := x.servq p
  (((x.freeFrames q.staPending).setPending p []).unlink p).addCnt p (-q.qcnt)

/-- What `rtw_free_stainfo` leaves of the power save part of a station. -/
def freedSta (s : Sta) : Sta :=
  { s with
    asoc := false
    qosOption := false
    wmm := none
    dz := false
    tim := false
    sleepQ := []
    sleepqLen := 0
    sleepqAcLen := 0
    mgmtSleepQ := []
    mgmtSleepqLen := 0 }

def rtwFreeStainfo (x : Xmit n) (i : Fin n) : Xmit n :=
  let s := x.ps i
  let x := { x with addr := Function.update x.addr i none }
  let x := (x.freeFrames s.sleepQ).freeFrames s.mgmtSleepQ
  let x := x.setPs i (freedSta s)
  [Hwq.ac .vo, .ac .vi, .ac .be, .ac .bk, .mgmt].foldl (fun x a => x.freeServq (i, a)) x

/-- A station in a free slot becomes associated (`rtw_alloc_stainfo` and what follows it); nothing
happens unless the slot is free and the address unknown. -/
def associate (x : Xmit n) (i : Fin n) (a : Addr) (aid : ℕ) (qosOption : Bool)
    (wmm : Option (BitVec 8)) : Xmit n :=
  if x.addr i = none ∧ x.rtwGetStainfo a = none then
    { x with
      addr := Function.update x.addr i (some a)
      ps := Function.update x.ps i
        ⟨aid, true, qosOption, wmm, false, false, false, [], 0, 0, [], 0⟩
      servq := fun p => if p.1 = i then ⟨[], 0⟩ else x.servq p }
  else x

/-- `rtw_alloc_xmitframe`: the first free frame goes to the caller, who fills in its attributes. -/
def rtwAllocXmitframe (x : Xmit n) (attrib : Frame) : Xmit n :=
  match x.freeXmitQueue with
  | [] => x
  | id :: rest => { x with freeXmitQueue := rest, held := { attrib with id := id } :: x.held }

end Xmit

/-- What is done to the adapter. The operations on a frame take one that a caller holds, by its
place among them; classifying and offering leave it with the caller if it is refused. -/
inductive Op (n : ℕ)
  | alloc (attrib : Frame)
  | free (k : ℕ)
  | classify (k : ℕ)
  | offer (k : ℕ)
  | offerMgmt (k : ℕ)
  | dequeue (inx : List Ac)
  | dequeueMgmt
  | aggregate (k count : ℕ)
  | stop (i : Fin n)
  | wakeup (i : Fin n)
  | trigger (i : Fin n)
  | psPoll (i : Fin n) (aid : ℕ) (priority : BitVec 8)
  | associate (i : Fin n) (a : Addr) (aid : ℕ) (qosOption : Bool) (wmm : Option (BitVec 8))
  | freeSta (i : Fin n)

namespace Xmit

/-- The caller gives up the frame at a place. -/
def release (x : Xmit n) (k : ℕ) : Xmit n := { x with held := x.held.eraseIdx k }

/-- A dequeued frame goes to the caller. -/
def receive (x : Xmit n) : Option (Frame × Xmit n) → Xmit n
  | none => x
  | some (f, x') => { x' with held := f :: x'.held }

/-- An operation on the frame at a place, if there is one. -/
def withHeld (x : Xmit n) (k : ℕ) (op : Frame → Xmit n) : Xmit n :=
  match x.held[k]? with
  | none => x
  | some f => op f

/-- A frame is offered to a sleep queue, and given up if it was buffered. -/
def offered (x : Xmit n) (k : ℕ) (r : Bool × Xmit n) : Xmit n := if r.1 then r.2.release k else x

/-- The aggregation behind a first frame, in the queue that its station and priority name. -/
def aggregateBehind (x : Xmit n) (f : Frame) (count : ℕ) : Xmit n :=
  if h : f.psta < n then x.aggregate (⟨f.psta, h⟩, rtwGetStaPending f) count else x

def step (x : Xmit n) : Op n → Xmit n
  | .alloc attrib => x.rtwAllocXmitframe attrib
  | .free k => x.withHeld k fun f => (x.release k).freeFrames [f]
  | .classify k => x.withHeld k fun f => ((x.release k).rtwXmitClassifier f).getD x
  | .offer k => x.withHeld k fun f => x.offered k (x.enqueueForSleepingSta f)
  | .offerMgmt k => x.withHeld k fun f => x.offered k (x.mgmtEnqueueForSleepingSta f)
  | .dequeue inx => x.receive (x.rtwDequeueXframe inx)
  | .dequeueMgmt => x.receive x.rtwDequeueMgmtXframe
  | .aggregate k count => x.withHeld k fun f => x.aggregateBehind f count
  | .stop i => x.stopStaXmit i
  | .wakeup i => x.wakeup i
  | .trigger i => x.handOutcome i (xmitDeliveryEnabledFrames (x.ps i))
  | .psPoll i aid priority => x.handOutcome i (validateRecvCtrlFrame (x.ps i) aid priority)
  | .associate i a aid qosOption wmm => x.associate i a aid qosOption wmm
  | .freeSta i => x.rtwFreeStainfo i

/-- An adapter with `N` transmit frames, all free, and no station. -/
def init (n N : ℕ) : Xmit n where
  addr := fun _ => none
  ps := fun _ => ⟨0, false, false, none, false, false, false, [], 0, 0, [], 0⟩
  servq := fun _ => ⟨[], 0⟩
  staQueue := fun _ => []
  accnt := fun _ => 0
  held := []
  freeXmitQueue := List.range N

end Xmit

end Rtl8821cu.XmitSched
