import Rtl8821cu.AbsorbSsid
import Rtl8821cu.BcnEdit
import Rtl8821cu.Ies
import Rtl8821cu.LibPack
import Rtl8821cu.RmReq

/-! Beacon reports: what is written for a network of the scan table, and how the reports are packed
into buffers (`core/rtw_rm.c`, `core/rtw_rm_util.c`). -/
namespace Rtl8821cu.BcnRep
open Store Bytes Elements Ies
open RmReq (Byte BcnReqOpt RmMeasReq)
open AbsorbSsid (maxIeSz)
open BcnEdit (fixedIeLength)

def maxXmitExtbufSz : ℕ := 1536

def maxBufNum : ℕ := 128

def maxBssCnt : ℕ := 128

def measRspIe : Byte := 39

/-- A network of the scan table; `rxSnr` has the values of the receive paths in use. -/
structure Network where
  macAddress : List Byte
  ssidLength : ℕ
  ssid : List Byte
  dsConfig : ℕ
  signalStrength : Byte
  isCckRate : Bool
  rxSnr : List Byte
  freeCnt : BitVec 32
  ieLength : ℕ
  ies : ℕ → Byte
  length_macAddress : macAddress.length = 6
  length_ssid : ssid.length = 32
  ieLength_le : ieLength ≤ maxIeSz

/-- `scanned_queue`, whose entries come from a pool. -/
structure ScanTable where
  nets : List Network
  length_le : nets.length ≤ maxBssCnt

/-- The members of `struct rm_obj` that a beacon report is made of, `p` as `rm_state_idle` leaves
it; `chSet` has the values up to `ch_set_ch_amount`, and `buf` the elements in each buffer. -/
structure RmObj where
  q : RmMeasReq
  chSet : List ℕ
  mMode : Byte
  measStartTime : BitVec 64
  measEndTime : BitVec 64
  freeRunCounterValid : Bool
  buf : ℕ → Option (List (List Byte))
  length_ssid : q.bcn.ssid.length = 32

def isWildcardBssid (bssid : List Byte) : Bool := bssid.foldl (· &&& ·) 0xff == 0xff

/-- `translate_dbm_to_rcpi` of a percentage, less 100. -/
def rmGetBcnRcpi (net : Network) : Byte := (net.signalStrength - 100 + 110) * 2

def rmGetBcnRsni (net : Network) : Byte :=
  if net.isCckRate then 255
  else (net.rxSnr.foldl (· + ·) 0 / BitVec.ofNat 8 net.rxSnr.length + 10) * 2

def rmBcnReqCondMach (opt : BcnReqOpt) (net : Network) : Bool :=
  let cond := opt.repCond.getD 0 0
  let threshold := opt.repCond.getD 1 0
  if cond = 0 then true
  else if cond = 1 then threshold.toNat < (rmGetBcnRcpi net).toNat
  else if cond = 2 then (rmGetBcnRcpi net).toNat < threshold.toNat
  else if cond = 3 then rmGetBcnRsni net ≠ 255 ∧ threshold.toNat < (rmGetBcnRsni net).toNat
  else if cond = 4 then rmGetBcnRsni net ≠ 255 ∧ (rmGetBcnRsni net).toNat < threshold.toNat
  else false

/-- The ids at `req_start`. -/
def reqIds (opt : BcnReqOpt) : List Byte := (opt.reqStart.map fun l => l.take opt.reqLen).getD []

/-- The limit of the search for an element, in a `u8`. -/
def searchLimit (net : Network) : ℕ :=
  (BitVec.ofNat 8 net.ieLength - BitVec.ofNat 8 fixedIeLength).toNat

/-- What is written for a requested id. -/
def reqElem (net : Network) (eid : Byte) : List Byte :=
  match Ies.rtwGetIe net.ies fixedIeLength eid (searchLimit net) with
  | none => []
  | some (p, len) => rtwSetIe eid (load net.ies (p + 2) len)

/-- What is written for an option of the request. -/
def optElems (opt : BcnReqOpt) (net : Network) (id : Byte) : List Byte :=
  if id = 0 then rtwSetIe 0 (net.ssid.take net.ssidLength)
  else if id = 10 then (reqIds opt).flatMap (reqElem net)
  else []

/-- `rm_gen_bcn_detail_elem`; the length is in a `u8`. -/
def rmGenBcnDetailElem (opt : BcnReqOpt) (net : Network) : List Byte :=
  if opt.repDetail = 0 ∨ 2 < opt.repDetail.toNat then []
  else if opt.repDetail = 2 then rtwSetIe 1 (load net.ies 0 (net.ieLength - 4))
  else rtwSetIe 1 (load net.ies 0 fixedIeLength ++ opt.optId.flatMap (optElems opt net))

/-- What a report has before the reported frame body. -/
def repFixed (prm : RmObj) (net : Network) : List Byte :=
  [prm.q.mToken, prm.mMode, prm.q.mType, prm.q.opClass, prm.q.chNum] ++
    leBytes 8 prm.measStartTime.toNat ++
    leBytes 2 (prm.measEndTime - prm.measStartTime).toNat ++
    [0, rmGetBcnRcpi net, rmGetBcnRsni net] ++ net.macAddress ++ [0] ++
    leBytes 4 (net.freeCnt.toNat + if prm.freeRunCounterValid then prm.measStartTime.toNat else 0)

def rmGenBcnRepIe (prm : RmObj) (net : Network) : List Byte :=
  rtwSetIe measRspIe (repFixed prm net ++ rmGenBcnDetailElem prm.q.bcn net)

/-- Whether the report is written outside of `tmp_buf`: the length of all elements less 4 is
unsigned. -/
def repFault (prm : RmObj) (net : Network) : Bool :=
  (prm.q.bcn.repDetail == 2 && net.ieLength < 4) ||
    decide (maxXmitExtbufSz < (rmGenBcnRepIe prm net).length)

def rtwValidateSsid (net : Network) : Bool := net.ssidLength ≤ 32

/-- The comparison of the BSSIDs. -/
def bssidMatch (q : RmMeasReq) (net : Network) : Bool :=
  isWildcardBssid q.bssid || q.bssid == net.macAddress

/-- The comparison of the SSIDs, of as many bytes as the requested one has. -/
def ssidMatch (q : RmMeasReq) (net : Network) : Bool :=
  q.bcn.ssidLength == 0 || q.bcn.ssid.take q.bcn.ssidLength == net.ssid.take q.bcn.ssidLength

/-- The search of the channel set and the reporting condition. -/
def chMatch (prm : RmObj) (net : Network) : Bool :=
  prm.chSet.any (· == net.dsConfig) && rmBcnReqCondMach prm.q.bcn net

/-- The variables of `retrieve_scan_result`: `failed` is whether it went to `fail`, `fault` whether
anything was read or written outside of an array. -/
structure Retrieved where
  buf : ℕ → Option (List (List Byte))
  bufIdx : ℕ
  myLen : ℕ
  failed : Bool
  fault : Bool

/-- A new buffer at `buf_idx`. -/
def Retrieved.opened (r : Retrieved) : Retrieved :=
  { r with
    buf := Function.update r.buf r.bufIdx (some [])
    fault := r.fault || decide (maxBufNum ≤ r.bufIdx) }

/-- The report behind those of the buffer. -/
def Retrieved.add (r : Retrieved) (rep : List Byte) : Retrieved :=
  { r with
    buf := Function.update r.buf r.bufIdx (some ((r.buf r.bufIdx).getD [] ++ [rep]))
    myLen := r.myLen + rep.length }

/-- The report is put into the buffer that is open, if it has room. -/
def Retrieved.fits (r : Retrieved) (rep : List Byte) : Bool :=
  r.myLen + rep.length + 24 + 4 < maxXmitExtbufSz

/-- From `new_packet` on; `alloc` is whether there is memory for the buffer. -/
def newPacket (alloc : ℕ → Bool) (r : Retrieved) (rep : List Byte) : Retrieved :=
  if h : r.myLen = 0 then
    if !alloc r.bufIdx then { r with failed := true }
    else if r.opened.fits rep then r.opened.add rep
    else { r.opened with failed := true }
  else if r.fits rep then r.add rep
  else newPacket alloc { r with myLen := 0, bufIdx := r.bufIdx + 1 } rep
termination_by r.myLen
decreasing_by exact Nat.pos_of_ne_zero h

/-- The loop of `retrieve_scan_result`. -/
def retrieveLoop (alloc : ℕ → Bool) (prm : RmObj) : List Network → Retrieved → Retrieved
  | [], r => r
  | net :: nets, r =>
    if rtwValidateSsid net && bssidMatch prm.q net then
      let r := { r with fault := r.fault || decide (32 < prm.q.bcn.ssidLength) }
      if ssidMatch prm.q net && chMatch prm net then
        let r := { r with fault := r.fault || repFault prm net }
        let r := newPacket alloc r (rmGenBcnRepIe prm net)
        if r.failed then r else retrieveLoop alloc prm nets r
      else retrieveLoop alloc prm nets r
    else retrieveLoop alloc prm nets r

/-- `retrieve_scan_result`: what it does to the buffers and the number that it returns; `tmpBuf` is
whether there is memory for `tmp_buf`. -/
def retrieveScanResult (tmpBuf : Bool) (alloc : ℕ → Bool) (prm : RmObj) (table : ScanTable) :
    Retrieved × ℕ :=
  if !tmpBuf then (⟨prm.buf, 0, 0, true, false⟩, 0)
  else
    let r := retrieveLoop alloc prm table.nets ⟨prm.buf, 0, 0, false, false⟩
    (r, if (r.buf r.bufIdx).isSome then r.bufIdx + 1 else 0)

/-- The buffers that are sent. -/
def packets (r : Retrieved × ℕ) : List (List (List Byte)) :=
  (List.range r.2).map fun i => (r.1.buf i).getD []

end Rtl8821cu.BcnRep
