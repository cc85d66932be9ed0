import Rtl8821cu.XmitFragLayout
import Rtl8821cu.LibBytes
import Rtl8821cu.UsbRecv

/-! Transmit aggregation on USB: `rtl8821cu_xmitframe_complete`
(`hal/rtl8821c/usb/rtl8821cu_xmit.c`) and how the device takes a transfer apart. Addresses are
relative to the start of the transfer buffer. -/
namespace Rtl8821cu.XmitAgg
open Store Bytes XmitFrag
open UsbRecv (rnd8)

def maxXmitbufSz : ℕ := 20480

def maxTxAggPacketNumber : ℕ := 0xff

def qsltHigh : BitVec 8 := 0x11

/-- A pending frame that fits one fragment. `hdrFail` has what `rtw_make_wlanhdr` leaves in the
buffer when it fails, `protect` is what `xmitframe_swencrypt` makes of the frame in place, and
`desc` the fields of its descriptor apart from the sizes. -/
structure Frame (c : Adapter) where
  attrib : Attrib
  pkt : List (BitVec 8)
  qsel : BitVec 8
  hdrFail : Option (List (BitVec 8))
  protect : List (BitVec 8) → List (BitVec 8)
  desc : ℕ → BitVec 8
  fits : attrib.front.length + pkt.length ≤ capacity c attrib
  protect_length : ∀ l, (protect l).length = l.length

/-- What the aggregation reads of the interface: `UsbTxAggDescNum`, whether it is an access point
or a mesh station, and that no caller sets a `frag_len` above `MAX_FRAG_THRESHOLD`. -/
structure Bus (c : Adapter) where
  usbTxAggDescNum : BitVec 8
  apOrMesh : Bool
  fragLen_le : c.fragLen ≤ 2346

def rtwHalBusaggQselCheck (apOrMesh : Bool) (preQsel nextQsel : BitVec 8) : Bool :=
  !apOrMesh || !((preQsel == qsltHigh || nextQsel == qsltHigh) && preQsel != nextQsel)

/-- A packet of a transfer: where its descriptor is, and the sizes in it. -/
structure Packet (c : Adapter) where
  pos : ℕ
  pktOffset : ℕ
  size : ℕ
  frame : Frame c

section Model

variable {c : Adapter}

/-- `rtw_calculate_wlan_pkt_size_by_attribue`. -/
def wlanPktSize (f : Frame c) : ℕ :=
  f.attrib.hdrlen + f.attrib.encrypt.ivLen + f.attrib.mctrl.length + (6 + 2) + f.pkt.length +
    (if f.attrib.encrypt = .tkip then 8 else 0) +
    if bswenc c f.attrib then f.attrib.encrypt.icvLen else 0

/-- `rtw_xmitframe_coalesce` with the header at `memStart`, which is `hw_hdr_offset` behind the
`buf_addr` of the frame: the buffer, and `last_txcmdsz` unless it fails. -/
def coalesce (f : Frame c) (memStart : ℕ) (mem : ℕ → BitVec 8) : (ℕ → BitVec 8) × Option ℕ :=
  match f.hdrFail with
  | some l => (store mem memStart l, none)
  | none =>
    let mem := store mem memStart f.attrib.header
    match coalesceLoop c f.attrib (memStart - hwHdrOffset) (f.pkt.length + 1)
      ⟨mem, memStart, 0, f.pkt, []⟩ with
    | none => (mem, none)
    | some l =>
      match xmitframeAddmic c f.attrib (memStart - hwHdrOffset) l with
      | none => (l.mem, none)
      | some m =>
        (store m.mem memStart (f.protect (load m.mem memStart m.lastTxcmdsz)), some m.lastTxcmdsz)

/-- The descriptor that `update_txdesc` writes with `bagg_pkt`: `TXPKTSIZE`, `PKT_OFFSET` and
`DMA_TXAGG_NUM` among the other fields. -/
def txdesc (f : Frame c) (sz pktOffset aggNum : ℕ) : List (BitVec 8) :=
  (List.range txdescSize).map fun i =>
    if i = 0 then BitVec.ofNat 8 sz
    else if i = 1 then BitVec.ofNat 8 (sz / 256)
    else if i = 7 then f.desc 7 &&& 0xe0 ||| BitVec.ofNat 8 pktOffset &&& 0x1f
    else if i = 31 then if 1 < aggNum then BitVec.ofNat 8 aggNum else 0
    else f.desc i

/-- The locals of `rtl8821cu_xmitframe_complete`; `packets` records what was put into the
transfer. -/
structure Agg (c : Adapter) where
  mem : ℕ → BitVec 8
  pbuf : ℕ
  pbufTail : ℕ
  descCount : BitVec 8
  bulkPtr : ℕ
  aggNum : ℕ
  packets : List (Packet c)

/-- What is written to the device: `pbuf_tail` bytes from `buf_addr` on; `left` is what stays in
the queue of the station. -/
structure Transfer (c : Adapter) where
  mem : ℕ → BitVec 8
  bufAddr : ℕ
  len : ℕ
  aggNum : ℕ
  packets : List (Packet c)
  left : List (Frame c)

variable (z : Bus c)

/-- The count of packets in one bulk, and whether it is complete. -/
def countDesc (s : Agg c) : Agg c × Bool :=
  if s.pbuf < s.bulkPtr then
    ({ s with descCount := s.descCount + 1 }, s.descCount + 1 == z.usbTxAggDescNum)
  else
    ({ s with
      descCount := 0
      bulkPtr := (s.pbuf / c.usbSpeed.bulkSize + 1) * c.usbSpeed.bulkSize }, false)

/-- A frame goes behind the ones in the transfer. -/
def Agg.put (s : Agg c) (f : Frame c) (mem : ℕ → BitVec 8) (sz : ℕ) : Agg c :=
  let len := wlanPktSize f + txdescSize + 0 * packetOffsetSz
  { s with
    mem := store mem s.pbuf (txdesc f sz 0 0)
    pbufTail := s.pbuf + len
    pbuf := rnd8 (s.pbuf + len)
    aggNum := s.aggNum + 1
    packets := s.packets ++ [⟨s.pbuf, 0, sz, f⟩] }

/-- The loop over the queue of the station; it leaves what is behind the frame where it stops. -/
def aggLoop (preQsel : BitVec 8) : List (Frame c) → Agg c → Agg c × List (Frame c)
  | [], s => (s, [])
  | f :: queue, s =>
    if rtwHalBusaggQselCheck z.apOrMesh preQsel f.qsel = false then (s, f :: queue)
    else if maxXmitbufSz < rnd8 (s.pbuf + (wlanPktSize f + txdescSize + 0 * packetOffsetSz)) then
      (s, f :: queue)
    else
      match coalesce f (s.pbuf + (txdescSize + 0 * packetOffsetSz)) s.mem with
      | (mem, none) => aggLoop preQsel queue { s with mem := mem }
      | (mem, some sz) =>
        let s := s.put f mem sz
        if s.aggNum = maxTxAggPacketNumber then (s, queue)
        else
          match countDesc z s with
          | (s, true) => (s, queue)
          | (s, false) => aggLoop preQsel queue s

/-- The first frame that can be coalesced among those that `rtw_dequeue_xframe` returns. -/
def pickFirst (mem : ℕ → BitVec 8) : List (Frame c) → Option (Frame c × (ℕ → BitVec 8) × ℕ)
  | [] => none
  | f :: dequeued =>
    match coalesce f (0 + (txdescSize + 1 * packetOffsetSz)) mem with
    | (mem, none) => pickFirst mem dequeued
    | (mem, some sz) => some (f, mem, sz)

/-- The transfer with the first frame alone. -/
def startAgg (f : Frame c) (mem : ℕ → BitVec 8) (sz : ℕ) : Agg c :=
  let len := wlanPktSize f + txdescSize + 1 * packetOffsetSz
  { mem := mem
    pbuf := rnd8 len
    pbufTail := len
    descCount := 0
    bulkPtr := c.usbSpeed.bulkSize
    aggNum := 1
    packets := [⟨0, 1, sz, f⟩] }

/-- The descriptor of the first frame is written last, when it is known whether its packet offset
has to go. -/
def finish (f : Frame c) (sz : ℕ) (s : Agg c) (left : List (Frame c)) : Transfer c :=
  if s.pbufTail % c.usbSpeed.bulkSize = 0 then
    { mem := store s.mem packetOffsetSz (txdesc f sz 0 s.aggNum)
      bufAddr := packetOffsetSz
      len := s.pbufTail - packetOffsetSz
      aggNum := s.aggNum
      packets := ⟨packetOffsetSz, 0, sz, f⟩ :: s.packets.tail
      left := left }
  else
    { mem := store s.mem 0 (txdesc f sz 1 s.aggNum)
      bufAddr := 0
      len := s.pbufTail
      aggNum := s.aggNum
      packets := ⟨0, 1, sz, f⟩ :: s.packets.tail
      left := left }

/-- `rtl8821cu_xmitframe_complete`, where `pending` is the queue that goes with a first frame;
`none` when no frame is left. -/
def rtl8821cuXmitframeComplete (mem : ℕ → BitVec 8) (dequeued : List (Frame c))
    (pending : Frame c → List (Frame c)) : Option (Transfer c) :=
  match pickFirst mem dequeued with
  | none => none
  | some (f, mem, sz) =>
    match countDesc z (startAgg f mem sz) with
    | (s, true) => some (finish f sz s (pending f))
    | (s, false) =>
      let r := aggLoop z f.qsel (pending f) s
      some (finish f sz r.1 r.2)

end Model

end Rtl8821cu.XmitAgg
