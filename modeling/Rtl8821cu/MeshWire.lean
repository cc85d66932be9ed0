import Rtl8821cu.Amsdu
import Rtl8821cu.MeshForward
import Rtl8821cu.LibStore
import Rtl8821cu.LibBytes

/-! Mesh data frames as bytes (`core/mesh/rtw_mesh.c`, `core/rtw_xmit.c`, `core/rtw_recv.c`): how the
addresses of a frame are chosen, written into the 802.11 header and the Mesh Control field, and read
back by the receiver. -/
namespace Rtl8821cu.MeshFwd
open Store Bytes
open Amsdu (aeToMeshCtrlLen)

/-- The bytes of a frame. -/
abbrev Buf := ℕ → BitVec 8

/-- The address at offset `p`. -/
def macAt (m : Buf) (p : ℕ) : Mac := Vector.ofFn fun i : Fin 6 => m (p + i)

section Source

def msrcB2uPolicyChk (flags : BitVec 8) (mda : Mac) : Bool :=
  flags.getLsbD 0 || (flags.getLsbD 2 && mda == Mac.broadcast) ||
    (flags.getLsbD 3 && (mda.ipMcast || mda.icmpv6Mcast))

/-- What the tables answer for a frame of the host: whether the mesh path of an address has a next
hop and is active or being resolved, the mesh proxy of an address, and the next hop that
`rtw_mesh_nexthop_resolve` finds for a mesh destination, at once or when the path is known.
`rtw_mesh_path_add` refuses group addresses. -/
structure Tables where
  mpathUsable : Mac → Bool
  mppPathLookup : Mac → Option Mac
  nexthopResolve : Mac → Option Mac
  resolved_ucast : ∀ mda ra, nexthopResolve mda = some ra → mda.isMcast = false

variable (node : Node) (b2uFlagsMsrc : BitVec 8) (env : Env) (tables : Tables) (old : Attrib)
  (hDest hSource : Mac)

/-- The proxy of the destination, looked up when it has no usable mesh path. -/
def mppathOf : Option Mac :=
  if tables.mpathUsable hDest then none else tables.mppPathLookup hDest

/-- Whether a frame of the host needs the address extension. -/
def aeNeedSource : Bool :=
  node.macAddr != hSource ||
    (!hDest.isMcast && (mppathOf tables hDest).any fun mpp => mpp != hDest)

/-- The unicast frames of `rtw_mesh_addr_resolve`. -/
def sourceB2u : B2u :=
  if hDest.isMcast && msrcB2uPolicyChk b2uFlagsMsrc hDest then
    meshDataBmcToUc node env hDest hSource hDest node.macAddr (aeNeedSource node tables hDest hSource)
      none 0 0
  else ⟨true, [], 0, node.meshSeqnum, 0⟩

/-- The mesh destination of a frame of the host. -/
def sourceMda : Mac :=
  if hDest.isMcast then hDest
  else if aeNeedSource node tables hDest hSource then (mppathOf tables hDest).getD hDest
  else hDest

/-- The original frame of `rtw_mesh_addr_resolve`; `old` is what the attributes held. -/
def sourceAttrib (b2u : B2u) : Option Attrib :=
  let attrib : Attrib :=
    { old with
      mb2u := b2u.frames.length != 0
      mseq := if b2u.frames.length != 0 then b2u.mseq else old.mseq
      mfwdTtl := 0
      dst := hDest
      src := hSource
      ta := node.macAddr
      msa := node.macAddr }
  if hDest.isMcast then
    some { attrib with
      meshFrameMode :=
        if aeNeedSource node tables hDest hSource then .bmcastPxData else .bmcastData
      ra := hDest }
  else
    match tables.nexthopResolve (sourceMda node tables hDest hSource) with
    | none => none
    | some ra =>
      some { attrib with
        meshFrameMode :=
          if aeNeedSource node tables hDest hSource then .ucastPxData else .ucastData
        mda := sourceMda node tables hDest hSource
        ra := ra }

/-- `rtw_mesh_addr_resolve`: all frames that are sent for a frame of the host. -/
def meshAddrResolve : List Attrib :=
  let b2u := sourceB2u node b2uFlagsMsrc env tables hDest hSource
  if b2u.bmcNeed then b2u.frames ++ (sourceAttrib node tables old hDest hSource b2u).toList
  else b2u.frames

end Source

section Build

/-- `rtw_mesh_tx_set_whdr_mctrl_len`: `hdrlen` and `meshctrl_len`. -/
def meshTxSetWhdrMctrlLen : FrameMode → Option (ℕ × ℕ)
  | .ucastData => some (32, 6)
  | .bmcastData => some (26, 6)
  | .ucastPxData => some (32, 18)
  | .bmcastPxData => some (26, 12)
  | _ => none

/-- Bits set in the byte at offset `p`. -/
def orAt (m : Buf) (p : ℕ) (v : BitVec 8) : Buf := store m p [m p ||| v]

def meshTxBuildWhdr (attrib : Attrib) (m : Buf) : Buf :=
  match attrib.meshFrameMode with
  | .ucastData | .ucastPxData =>
    let m := orAt (orAt m 1 0x01) 1 0x02
    let m := store m 4 attrib.ra.toList
    let m := store m 10 attrib.ta.toList
    let m := store m 16 attrib.mda.toList
    store m 24 attrib.msa.toList
  | .bmcastData | .bmcastPxData =>
    let m := orAt m 1 0x02
    let m := store m 4 attrib.ra.toList
    let m := store m 10 attrib.ta.toList
    store m 16 attrib.msa.toList
  | _ => m

/-- What else goes into a frame: more data, encryption, the low byte of the QoS control field, the
sequence control field and the IV. -/
structure Wire where
  mdata : Bool
  encrypt : Bool
  qos : BitVec 8
  seqCtl : BitVec 8 × BitVec 8
  iv : List (BitVec 8)

/-- `rtw_make_wlanhdr` for a QoS data frame of a mesh interface. -/
def makeWlanhdr (w : Wire) (attrib : Attrib) (hdrlen : ℕ) (m : Buf) : Buf :=
  let m := store m 0 (List.replicate 64 0)
  let m := orAt m 0 0x88
  let m := meshTxBuildWhdr attrib m
  let m := if w.mdata then orAt m 1 0x20 else m
  let m := if w.encrypt then orAt m 1 0x40 else m
  let m := store m (hdrlen - 2) [w.qos]
  let m := orAt m (hdrlen - 1) 0x01
  store m 22 [w.seqCtl.1, w.seqCtl.2]

/-- `rtw_mesh_tx_build_mctrl` at offset `p`. A 32-bit field of a value `v` holds the bytes of
`cpu_to_le32(v)`, lowest first. -/
def meshTxBuildMctrlAt (node : Node) (attrib : Attrib) (meshctrlLen : ℕ) (m : Buf) (p : ℕ) : Buf :=
  let mctrl := (meshTxBuildMctrl node attrib).1
  let m := store m p (List.replicate meshctrlLen 0)
  let m := store m (p + 1) [mctrl.ttl]
  let m := store m (p + 2) (leBytes 4 (node.order.le32 mctrl.seqnum).toNat)
  match attrib.meshFrameMode with
  | .ucastPxData =>
    let m := orAt m p 0x2
    let m := store m (p + 6) attrib.dst.toList
    store m (p + 12) attrib.src.toList
  | .bmcastPxData =>
    let m := orAt m p 0x1
    store m (p + 6) attrib.src.toList
  | _ => m

/-- The header, the IV and the Mesh Control field of a frame. -/
def xmitFrame (node : Node) (w : Wire) (attrib : Attrib) (m : Buf) : Option Buf :=
  match meshTxSetWhdrMctrlLen attrib.meshFrameMode with
  | none => none
  | some (hdrlen, meshctrlLen) =>
    let m := makeWlanhdr w attrib hdrlen m
    let m := store m hdrlen w.iv
    some (meshTxBuildMctrlAt node attrib meshctrlLen m (hdrlen + w.iv.length))

end Build

section Receive

/-- The addresses of a received frame, `to_fr_ds` and `mesh_ctrl_len`. -/
structure RxAttrib where
  ra : Mac
  ta : Mac
  mda : Mac
  msa : Mac
  dst : Mac
  src : Mac
  toFrDs : ℕ
  meshCtrlLen : ℕ
  deriving DecidableEq

/-- A mesh node that receives: an adapter's address is not a group address. -/
structure Peer where
  node : Node
  ucast : node.macAddr.isMcast = false
  asoc : Bool
  knows : Mac → Bool

/-- The frames that the hardware takes. -/
def Peer.hears (p : Peer) (ra : Mac) : Bool := ra.isMcast || ra == p.node.macAddr

/-- What becomes of a header: `_FAIL`, `_SUCCESS` with no station (dropped later), `RTW_RX_HANDLED`
or `_SUCCESS`. -/
inductive HdrRes
  | fail
  | noSta
  | handled
  | success (r : RxAttrib)

def getTofrDs (m : Buf) : ℕ := (m 1).toNat / 2 % 2 * 2 + (m 1).toNat % 2

/-- `rtw_mesh_rx_data_validate_hdr`; the power-save bookkeeping is left out. -/
def meshRxDataValidateHdr (p : Peer) (m : Buf) : HdrRes :=
  if !p.asoc then .fail
  else if !(m 0).getLsbD 7 then .fail
  else
    let toFrDs := getTofrDs m
    if toFrDs = 2 then
      if !(macAt m 4).isMcast then .fail
      else if !p.knows (macAt m 10) then .noSta
      else if (m 0).getLsbD 6 then .handled
      else if !(m 25).getLsbD 0 then .fail
      else .success
        ⟨macAt m 4, macAt m 10, macAt m 4, macAt m 16, macAt m 4, macAt m 16, toFrDs, 0⟩
    else if toFrDs = 3 then
      if (macAt m 4).isMcast then .fail
      else if !p.knows (macAt m 10) then .noSta
      else if (m 0).getLsbD 6 then .handled
      else if !(m 31).getLsbD 0 then .fail
      else .success
        ⟨macAt m 4, macAt m 10, macAt m 16, macAt m 24, macAt m 16, macAt m 24, toFrDs, 0⟩
    else .fail

/-- `rtw_mesh_rx_data_validate_mctrl`: the length, the DA and the SA. -/
def meshRxDataValidateMctrl (toFrDs : ℕ) (mctrl : Mctrl) (mda msa : Mac) :
    Option (ℕ × Mac × Mac) :=
  let ae := mctrl.ae
  let mlen := aeToMeshCtrlLen ae.toNat
  if toFrDs = 2 then
    if ae = 0x1 then some (mlen, mda, mctrl.eaddr1)
    else if ae = 0 then some (mlen, mda, msa)
    else none
  else if toFrDs = 3 then
    if ae = 0x2 then some (mlen, mctrl.eaddr1, mctrl.eaddr2)
    else if ae = 0 then some (mlen, mda, msa)
    else none
  else none

/-- The Mesh Control field at offset `p`. -/
def mctrlAt (order : ByteOrder) (m : Buf) (p : ℕ) : Mctrl where
  flags := m p
  ttl := m (p + 1)
  seqnum := order.le32 (BitVec.ofNat 32 (ofLe (load m (p + 2) 4)))
  eaddr1 := macAt m (p + 6)
  eaddr2 := macAt m (p + 12)

/-- The offset of the Mesh Control field: `hdrlen` by `validate_recv_data_frame`, and the IV. -/
def rxMctrlPos (toFrDs ivLen : ℕ) : ℕ := (if toFrDs = 3 then 32 else 26) + ivLen

/-- A data frame up to `rtw_mesh_rx_validate_mctrl_non_amsdu`. -/
def rxFrame (p : Peer) (ivLen : ℕ) (m : Buf) : Option (RxAttrib × Mctrl) :=
  match meshRxDataValidateHdr p m with
  | .success r =>
    let mctrl := mctrlAt p.node.order m (rxMctrlPos r.toFrDs ivLen)
    match meshRxDataValidateMctrl r.toFrDs mctrl r.mda r.msa with
    | none => none
    | some (len, da, sa) => some ({ r with dst := da, src := sa, meshCtrlLen := len }, mctrl)
  | _ => none

/-- What `rtw_mesh_rx_msdu_act_check` is told of a frame. -/
def rxOf (r : RxAttrib) (mctrl : Mctrl) : Rx :=
  ⟨r.mda, r.msa, r.dst, r.src, r.ta, r.toFrDs == 3, mctrl⟩

/-- An intermediate node: itself, what the other routines answer, and what it puts into the frame
that it sends on. -/
structure Hop where
  peer : Peer
  env : Env
  wire : Wire
  buf : Buf

/-- A frame with its IV length and receiver address. -/
structure Sent where
  buf : Buf
  ivLen : ℕ
  ra : Mac
  ta : Mac

/-- A node takes a frame for it and sends the original frame on. -/
def Hop.relay (h : Hop) (f : Sent) : Option Sent :=
  if !h.peer.hears f.ra then none
  else
    match rxFrame h.peer f.ivLen f.buf with
    | none => none
    | some (r, mctrl) =>
      let act := meshRxMsduActCheck h.peer.node h.env (rxOf r mctrl)
      if !act.forward then none
      else
        match act.fwdFrame with
        | none => none
        | some attrib =>
          match xmitFrame h.peer.node h.wire attrib h.buf with
          | none => none
          | some m => some ⟨m, h.wire.iv.length, attrib.ra, attrib.ta⟩

/-- A frame along a chain of nodes. -/
def relayAll : List Hop → Sent → Option Sent
  | [], f => some f
  | h :: hs, f => (h.relay f).bind (relayAll hs)

end Receive

end Rtl8821cu.MeshFwd
