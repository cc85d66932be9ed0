import Mathlib

/-! Frames buffered for a sleeping station of an access point (`core/rtw_xmit.c`,
`core/rtw_recv.c`): the sleep queues of a station, their counters and its TIM bit. -/
namespace Rtl8821cu.PowerSave

/-- The access categories. -/
inductive Ac
  | vo
  | vi
  | be
  | bk
  deriving DecidableEq

/-- The switch over the priority that every routine repeats. -/
def acOf (priority : BitVec 8) : Ac :=
  if priority = 1 ∨ priority = 2 then .bk
  else if priority = 4 ∨ priority = 5 then .vi
  else if priority = 6 ∨ priority = 7 then .vo
  else .be

/-- A receiver address; all group addresses stand for one pseudo station. -/
inductive Addr
  | group
  | unicast (mac : ℕ)
  deriving DecidableEq

/-- What the routines read and write of `struct xmit_frame`; `psta` is the slot of the station. -/
structure Frame where
  id : ℕ
  priority : BitVec 8
  psta : ℕ
  ra : Addr
  psDontq : Bool
  triggered : Bool
  mdata : Bool
  eosp : Bool
  deriving DecidableEq

/-- `has_legacy_ac` and `uapsd_vo`, `uapsd_vi`, `uapsd_be`, `uapsd_bk`. -/
structure Uapsd where
  hasLegacyAc : Bool
  ac : Ac → BitVec 8

/-- The bit of an access category in the QoS information of a station. -/
def qosInfoBit : Ac → ℕ
  | .vo => 0
  | .vi => 1
  | .bk => 2
  | .be => 3

/-- `rtw_ap_parse_sta_wmm_ie`, for the QoS information of the WMM element, if there is one. -/
def rtwApParseStaWmmIe (qosOption : Bool) (wmm : Option (BitVec 8)) : Uapsd :=
  match qosOption, wmm with
  | true, some qosInfo =>
    ⟨decide (qosInfo &&& 0xf ≠ 0xf), fun ac => if qosInfo.getLsbD (qosInfoBit ac) then 0b11 else 0⟩
  | _, _ => ⟨true, fun _ => 0⟩

/-- `wmmps_ac`; bit 0 is for trigger-enabled and bit 1 for delivery-enabled. -/
def wmmpsAc (u : Uapsd) (bit : ℕ) (priority : BitVec 8) : Bool :=
  (u.ac (acOf priority)).getLsbD bit

/-- A frame that a U-APSD trigger delivers. -/
def deliveryEnabled (u : Uapsd) (f : Frame) : Bool := wmmpsAc u 1 f.priority

/-- The decrement of an `unsigned int`. An increment cannot wrap: a counter is raised with a
frame, and there are a few hundred of them. -/
def dec (n : ℕ) : ℕ := if n = 0 then 2 ^ 32 - 1 else n - 1

theorem dec_succ (n : ℕ) : dec (n + 1) = n := rfl

/-- What the routines use of `struct sta_info`; `dz` and `tim` are its bits in `sta_dz_bitmap`
and `tim_bitmap`. The QoS information is that of its association. -/
structure Sta where
  aid : ℕ
  asoc : Bool
  qosOption : Bool
  wmm : Option (BitVec 8)
  sleep : Bool
  dz : Bool
  tim : Bool
  sleepQ : List Frame
  sleepqLen : ℕ
  sleepqAcLen : ℕ
  mgmtSleepQ : List Frame
  mgmtSleepqLen : ℕ

def Sta.uapsd (s : Sta) : Uapsd := rtwApParseStaWmmIe s.qosOption s.wmm

/-- `xmitframe_enqueue_for_sleeping_sta` for a frame to this station; the result says whether it
was buffered. -/
def xmitframeEnqueueForSleepingSta (s : Sta) (f : Frame) : Bool × Sta :=
  if !s.asoc then (false, s)
  else if f.triggered then (false, s)
  else if s.sleep && s.dz then
    let wmmps := wmmpsAc s.uapsd 0 f.priority
    let legacy := s.uapsd.hasLegacyAc
    (true, { s with
      sleepQ := s.sleepQ ++ [f]
      sleepqLen := s.sleepqLen + 1
      sleepqAcLen := if wmmps then s.sleepqAcLen + 1 else s.sleepqAcLen
      tim := s.tim || (legacy && !wmmps || !legacy && wmmps) })
  else (false, s)

/-- `xmitframe_enqueue_for_sleeping_sta` for a group frame, which the pseudo station buffers while
any station dozes. -/
def enqueueForSleepingBmc (anyDz : Bool) (s : Sta) (f : Frame) : Bool × Sta :=
  if !s.asoc then (false, s)
  else if f.triggered then (false, s)
  else if anyDz then
    (true, { s with
      sleepQ := s.sleepQ ++ [f]
      sleepqLen := s.sleepqLen + 1
      tim := true
      dz := true })
  else (false, s)

def mgmtXmitframeEnqueueForSleepingSta (s : Sta) (f : Frame) : Bool × Sta :=
  if f.ra = .group || f.psDontq then (false, s)
  else if !s.asoc then (false, s)
  else if s.sleep && s.dz then
    (true, { s with
      mgmtSleepQ := s.mgmtSleepQ ++ [f]
      mgmtSleepqLen := s.mgmtSleepqLen + 1
      tim := true })
  else (false, s)

/-- The loop of `dequeue_xmitframes_to_sleeping_queue` and of `dequeue_mgmt_xmitframe_to_sleepq`:
what is not buffered stays in the pending queue. -/
def dequeueToSleepq (enqueue : Sta → Frame → Bool × Sta) : List Frame → Sta → List Frame × Sta
  | [], s => ([], s)
  | f :: q, s =>
    let f := { f with triggered := false }
    let r := enqueue s f
    let rest := dequeueToSleepq enqueue q r.2
    (if r.1 then rest.1 else f :: rest.1, rest.2)

/-- The part of `stop_sta_xmit` on the station itself, with the frames pending in its queues. -/
def stopStaXmit (mgmt pending : List Frame) (s : Sta) : Sta :=
  let s := { s with sleep := true, dz := true }
  let s := (dequeueToSleepq mgmtXmitframeEnqueueForSleepingSta mgmt s).2
  (dequeueToSleepq xmitframeEnqueueForSleepingSta pending s).2

/-- The loop of `wakeup_sta_to_xmit` over the sleep queue: the frames handed to transmission and
the two counters. -/
def wakeupLoop (u : Uapsd) : List Frame → ℕ → ℕ → List Frame × ℕ × ℕ
  | [], len, acLen => ([], len, acLen)
  | f :: q, len, acLen =>
    let len := dec len
    if deliveryEnabled u f then
      let acLen := dec acLen
      let r := wakeupLoop u q len acLen
      ({ f with mdata := acLen != 0, eosp := acLen == 0, triggered := true } :: r.1,
        r.2)
    else
      let r := wakeupLoop u q len acLen
      ({ f with mdata := len != 0, triggered := true } :: r.1, r.2)

/-- The loop of `wakeup_sta_to_xmit` over the management sleep queue. -/
def wakeupMgmtLoop : List Frame → ℕ → List Frame × ℕ
  | [], len => ([], len)
  | f :: q, len =>
    let r := wakeupMgmtLoop q (dec len)
    ({ f with triggered := true } :: r.1, r.2)

/-- What an operation on a station leaves and hands to transmission. -/
structure Outcome where
  sta : Sta
  mgmtHanded : List Frame
  handed : List Frame

/-- The part of `wakeup_sta_to_xmit` on the station itself. -/
def wakeupStaToXmit (s : Sta) : Outcome :=
  let m := wakeupMgmtLoop s.mgmtSleepQ s.mgmtSleepqLen
  let w := wakeupLoop s.uapsd s.sleepQ s.sleepqLen s.sleepqAcLen
  let s := { s with
    mgmtSleepQ := []
    mgmtSleepqLen := m.2
    sleepQ := []
    sleepqLen := w.2.1
    sleepqAcLen := w.2.2 }
  if s.sleepqLen = 0 ∧ s.mgmtSleepqLen = 0 then
    ⟨{ s with tim := false, sleep := false, dz := false }, m.1, w.1⟩
  else ⟨s, m.1, w.1⟩

/-- The loop of `wakeup_sta_to_xmit` over the group frames. -/
def wakeupBmcLoop : List Frame → ℕ → List Frame × ℕ
  | [], len => ([], len)
  | f :: q, len =>
    let len := dec len
    let r := wakeupBmcLoop q len
    ({ f with mdata := len != 0, triggered := true } :: r.1, r.2)

/-- The part of `wakeup_sta_to_xmit` on the group pseudo station. -/
def wakeupBmc (s : Sta) : Outcome :=
  let w := wakeupBmcLoop s.sleepQ s.sleepqLen
  let s := { s with sleepQ := [], sleepqLen := w.2 }
  ⟨if s.sleepqLen = 0 then { s with tim := false, dz := false } else s, [], w.1⟩

/-- The locals of the loop of `xmit_delivery_enabled_frames`. -/
structure Delivery where
  handed : List Frame
  kept : List Frame
  len : ℕ
  acLen : ℕ
  tim : Bool

/-- The loop of `xmit_delivery_enabled_frames`. -/
def deliveryLoop (u : Uapsd) : List Frame → ℕ → ℕ → Bool → Delivery
  | [], len, acLen, tim => ⟨[], [], len, acLen, tim⟩
  | f :: q, len, acLen, tim =>
    if !deliveryEnabled u f then
      let r := deliveryLoop u q len acLen tim
      { r with kept := f :: r.kept }
    else
      let len := dec len
      let acLen := dec acLen
      let tim := tim && !(acLen == 0 && !u.hasLegacyAc)
      let r := deliveryLoop u q len acLen tim
      { r with handed := { f with
          mdata := acLen != 0, eosp := acLen == 0, triggered := true } :: r.handed }

def xmitDeliveryEnabledFrames (s : Sta) : Outcome :=
  let r := deliveryLoop s.uapsd s.sleepQ s.sleepqLen s.sleepqAcLen s.tim
  ⟨{ s with sleepQ := r.kept, sleepqLen := r.len, sleepqAcLen := r.acLen, tim := r.tim }, [],
    r.handed⟩

/-- Whether `validate_recv_ctrl_frame` serves a PS-Poll with the given association id and
priority. -/
def pollServed (s : Sta) (aid : ℕ) (priority : BitVec 8) : Bool :=
  s.aid = aid && !wmmpsAc s.uapsd 0 priority && s.sleep && s.dz

/-- The PS-Poll branch of `validate_recv_ctrl_frame`. -/
def validateRecvCtrlFrame (s : Sta) (aid : ℕ) (priority : BitVec 8) : Outcome :=
  if pollServed s aid priority then
    match s.sleepQ with
    | f :: q =>
      let len := dec s.sleepqLen
      ⟨{ s with sleepQ := q, sleepqLen := len, tim := s.tim && len != 0 }, [],
        [{ f with mdata := len != 0, triggered := true }]⟩
    | [] => ⟨{ s with
        sleepqLen := if s.tim then 0 else s.sleepqLen
        tim := false }, [], []⟩
  else ⟨s, [], []⟩

/-- What happens to a station of the access point: a data or a management frame is offered, it
goes to sleep with frames pending, it wakes up, it triggers or it polls. -/
inductive Op
  | offer (f : Frame)
  | offerMgmt (f : Frame)
  | stop (mgmt pending : List Frame)
  | wakeup
  | trigger
  | psPoll (aid : ℕ) (priority : BitVec 8)

def step (s : Sta) : Op → Sta
  | .offer f => (xmitframeEnqueueForSleepingSta s f).2
  | .offerMgmt f => (mgmtXmitframeEnqueueForSleepingSta s f).2
  | .stop mgmt pending => stopStaXmit mgmt pending s
  | .wakeup => (wakeupStaToXmit s).sta
  | .trigger => (xmitDeliveryEnabledFrames s).sta
  | .psPoll aid priority => (validateRecvCtrlFrame s aid priority).sta

end Rtl8821cu.PowerSave
