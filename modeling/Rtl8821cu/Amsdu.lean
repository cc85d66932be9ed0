import Rtl8821cu.LibBytes
import Rtl8821cu.MacAddr
import Rtl8821cu.XmitFrag

/-! A-MSDUs: `rtw_xmitframe_coalesce_amsdu` (`core/rtw_xmit.c`) builds one of up to two MSDUs, and
`amsdu_to_msdu` (`core/rtw_recv.c`) takes it apart. -/
namespace Rtl8821cu.Amsdu
open Bytes XmitFrag

def ethHlen : ℕ := 14

def snapSize : ℕ := 6

def maxSubframeCount : ℕ := 64

/-- `MAX_XMITBUF_SZ`, with aggregation on the bus. -/
def maxXmitbufSz : ℕ := 20480

/-- `mesh_frame_mode` of a frame to a unicast receiver, `MESH_UCAST_DATA` or
`MESH_UCAST_PX_DATA` with its mesh addresses. `check_amsdu` lets no other frame into an A-MSDU. -/
inductive MeshFrameMode
  | data
  | px (mda msa : Mac)

/-- What `rtw_mesh_tx_build_mctrl` is told. -/
structure MeshAttrib where
  mode : MeshFrameMode
  ttl : BitVec 8
  seqnum : BitVec 32

/-- What the builder reads of a transmit frame and its packet; `mesh` is there on a mesh point. -/
structure Msdu where
  dst : Mac
  src : Mac
  etherType : BitVec 16
  payload : List (BitVec 8)
  mesh : Option MeshAttrib

/-- The Ethernet frame of an MSDU. -/
def Msdu.eth (m : Msdu) : List (BitVec 8) :=
  m.dst.toList ++ m.src.toList ++ be16 m.etherType.toNat ++ m.payload

/-- The destination in the subframe header, `mda` on a mesh point. -/
def Msdu.hdrDa (m : Msdu) : Mac :=
  match m.mesh with
  | some ⟨.px mda _, _, _⟩ => mda
  | _ => m.dst

/-- The source in the subframe header, `msa` on a mesh point. -/
def Msdu.hdrSa (m : Msdu) : Mac :=
  match m.mesh with
  | some ⟨.px _ msa, _, _⟩ => msa
  | _ => m.src

/-- `rtw_mesh_tx_build_mctrl`. -/
def Msdu.mctrl (m : Msdu) : List (BitVec 8) :=
  match m.mesh with
  | none => []
  | some ⟨.data, ttl, seqnum⟩ => [0, ttl] ++ leBytes 4 seqnum.toNat
  | some ⟨.px _ _, ttl, seqnum⟩ =>
    [2, ttl] ++ leBytes 4 seqnum.toNat ++ m.dst.toList ++ m.src.toList

/-- The length field of a subframe. -/
def Msdu.len (m : Msdu) : ℕ := m.mctrl.length + (snapSize + 2) + m.payload.length

/-- A subframe as the builder writes it. -/
def Msdu.subframe (m : Msdu) : List (BitVec 8) :=
  m.hdrDa.toList ++ m.hdrSa.toList ++ be16 m.len ++ m.mctrl ++ rtwPutSnap m.etherType ++ m.payload

/-- The padding to a multiple of four, as both sides compute it. -/
def paddingLen (len : ℕ) : ℕ := if 4 - len % 4 = 4 then 0 else 4 - len % 4

/-- The frame body that `rtw_xmitframe_coalesce_amsdu` writes behind header and IV. The padding is
not written: it is what the buffer held. -/
def rtwXmitframeCoalesceAmsdu (mem : ℕ → BitVec 8) (queued : Option Msdu) (m : Msdu) :
    List (BitVec 8) :=
  (match queued with
    | none => []
    | some q => q.subframe ++ (List.range (paddingLen (ethHlen + q.len))).map mem) ++ m.subframe

/-- The bits of `RTW_RX_MSDU_ACT`. -/
structure Act where
  indicate : Bool
  forward : Bool

/-- What the splitter reads of the adapter and of the received frame. `act` is the decision of
`rtw_mesh_rx_msdu_act_check`, `rtw_ap_rx_msdu_act_check` or `rtw_sta_rx_amsdu_act_check`, and
`alloc` tells whether a packet can be allocated when so many bytes are left. -/
structure Rx where
  mesh : Bool
  toFrDs : ℕ
  ra : Mac
  ta : Mac
  nonSpp : Bool
  privacy : Bool
  act : List (BitVec 8) → List (BitVec 8) → List (BitVec 8) → Bool → Act
  alloc : ℕ → Bool

def rtwRfc1042Header : List (BitVec 8) := [0xaa, 0xaa, 0x03, 0x00, 0x00, 0x00]

def rtwBridgeTunnelHeader : List (BitVec 8) := [0xaa, 0xaa, 0x03, 0x00, 0x00, 0xf8]

/-- `rtw_recv_llc_parse`, whether the encapsulation is to be removed. -/
def rtwRecvLlcParse (msdu : List (BitVec 8)) (msduLen : ℕ) : Bool :=
  if msduLen < 8 then false
  else
    let ethType := getBe16 msdu snapSize
    (msdu.take snapSize == rtwRfc1042Header && ethType != 0x80f3 && ethType != 0x8137) ||
      msdu.take snapSize == rtwBridgeTunnelHeader

def rtwOsAllocMsduPkt (da sa msdu : List (BitVec 8)) (msduLen : ℕ) (llcRemove : Bool) :
    List (BitVec 8) :=
  let data := msdu.take msduLen
  if llcRemove then da ++ sa ++ data.drop snapSize
  else da ++ sa ++ be16 msduLen ++ data

def validateAmsduContent (c : Rx) (da sa : List (BitVec 8)) : Bool :=
  !(c.nonSpp && c.privacy &&
    ((c.toFrDs == 2 && da != c.ra.toList) || (c.toFrDs == 1 && sa != c.ta.toList) ||
      da == rtwRfc1042Header))

def aeToMeshCtrlLen : ℕ → ℕ
  | 0 => 6
  | 1 => 12
  | 2 => 18
  | _ => 0

/-- The addresses of a subframe, and whether and how long a mesh control field follows. -/
structure Addrs where
  ok : Bool
  da : List (BitVec 8)
  sa : List (BitVec 8)
  mctrlLen : ℕ

/-- `rtw_mesh_rx_data_validate_mctrl`; an address that is not set keeps its old value. -/
def rtwMeshRxDataValidateMctrl (toFrDs : ℕ) (mctrl mda msa oldDa oldSa : List (BitVec 8)) :
    Addrs :=
  let ae := (mctrl.getD 0 0).toNat % 4
  let eaddr1 := (mctrl.drop 6).take 6
  let eaddr2 := (mctrl.drop 12).take 6
  let mlen := aeToMeshCtrlLen ae
  if toFrDs = 2 then
    if ae = 1 then ⟨true, mda, eaddr1, mlen⟩
    else if ae = 0 then ⟨true, mda, msa, mlen⟩
    else ⟨false, mda, oldSa, 0⟩
  else if toFrDs = 3 then
    if ae = 2 then ⟨true, eaddr1, eaddr2, mlen⟩
    else if ae = 0 then ⟨true, mda, msa, mlen⟩
    else ⟨false, oldDa, oldSa, 0⟩
  else ⟨false, oldDa, oldSa, 0⟩

/-- The addresses of the subframe at the front of `pdata`. -/
def addrsOf (c : Rx) (pdata oldDa oldSa : List (BitVec 8)) : Addrs :=
  let da := pdata.take 6
  let sa := (pdata.drop 6).take 6
  if c.mesh then
    rtwMeshRxDataValidateMctrl c.toFrDs (pdata.drop ethHlen) da sa oldDa oldSa
  else ⟨true, da, sa, 0⟩

/-- What the loop of `amsdu_to_msdu` makes of the subframe at the front of `pdata`, up to
`move_to_next`: the packet to indicate, if any, with the addresses; `none` ends the loop. -/
def rxSubframe (c : Rx) (pdata oldDa oldSa : List (BitVec 8)) :
    Option (Option (List (BitVec 8)) × Addrs) :=
  let n := getBe16 pdata 12
  if pdata.length < ethHlen + n then none
  else
    let a := addrsOf c pdata oldDa oldSa
    if !validateAmsduContent c a.da a.sa then none
    else if !a.ok then some (none, a)
    else
      let msdu := pdata.drop (ethHlen + a.mctrlLen)
      let msduLen := (n + 65536 - a.mctrlLen) % 65536
      let llcRemove := rtwRecvLlcParse msdu msduLen
      let act := c.act a.da a.sa msdu llcRemove
      if !act.indicate && !act.forward then some (none, a)
      else if !c.alloc pdata.length then none
      else if act.indicate then some (some (rtwOsAllocMsduPkt a.da a.sa msdu msduLen llcRemove), a)
      else some (none, a)

/-- The rest of the loop body, behind the subframe header: `none` ends the loop. -/
def moveToNext (pdata : List (BitVec 8)) : Option (List (BitVec 8)) :=
  let n := getBe16 pdata 12
  let rest := pdata.drop (ethHlen + n)
  if rest.length ≠ 0 then
    let padding := paddingLen (n + ethHlen)
    if rest.length < padding then none else some (rest.drop padding)
  else some rest

theorem moveToNext_length {pdata rest : List (BitVec 8)} (hlen : ethHlen < pdata.length)
    (h : moveToNext pdata = some rest) : rest.length < pdata.length := by
  unfold ethHlen at hlen
  unfold moveToNext at h
  dsimp only at h
  split_ifs at h
  all_goals
    obtain rfl := Option.some.inj h
    simp only [List.length_drop, ethHlen]
    omega

/-- The loop of `amsdu_to_msdu`: the packets that are indicated, in order. -/
def amsduLoop (c : Rx) (nrSubframes : ℕ) (oldDa oldSa pdata : List (BitVec 8)) :
    List (List (BitVec 8)) :=
  if _hlen : ethHlen < pdata.length then
    match rxSubframe c pdata oldDa oldSa with
    | none => []
    | some (pkt, a) =>
      let nr := nrSubframes + pkt.toList.length
      pkt.toList ++
        if nr ≥ maxSubframeCount then []
        else
          match _h : moveToNext pdata with
          | none => []
          | some rest => amsduLoop c nr a.da a.sa rest
  else []
termination_by pdata.length
decreasing_by exact moveToNext_length _hlen _h

/-- `amsdu_to_msdu`, for the frame body; the address pointers are not set before the loop. -/
def amsduToMsdu (c : Rx) (oldDa oldSa body : List (BitVec 8)) : List (List (BitVec 8)) :=
  amsduLoop c 0 oldDa oldSa body

end Rtl8821cu.Amsdu
