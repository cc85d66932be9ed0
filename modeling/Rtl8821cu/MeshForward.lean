import Rtl8821cu.MacAddr
import Rtl8821cu.LibRun

/-! Mesh data forwarding (`core/mesh/rtw_mesh.c`): what a node does with a received mesh data frame,
and the frames it sends on. The build has `CONFIG_RTW_MESH_DATA_BMC_TO_UC` and
`RTW_MESH_DECACHE_BMC`, and neither `RTW_MESH_DECACHE_UC` nor `RTW_MESH_FORWARD_MDA_SELF_COND`. -/
namespace Rtl8821cu.MeshFwd

/-- The byte order of a processor: `cpu_to_le32` and `le32_to_cpu` are one function, its own
inverse. -/
structure ByteOrder where
  le32 : BitVec 32 → BitVec 32
  le32_le32 : ∀ v, le32 (le32 v) = v

/-- `struct rtw_ieee80211s_hdr`. -/
structure Mctrl where
  flags : BitVec 8
  ttl : BitVec 8
  seqnum : BitVec 32
  eaddr1 : Mac
  eaddr2 : Mac

/-- `MESH_FLAGS_AE`. -/
def Mctrl.ae (m : Mctrl) : BitVec 8 := m.flags &&& 0x3

/-- The values of `mesh_frame_mode`. -/
inductive FrameMode
  | ucastData
  | bmcastData
  | ucastPxData
  | bmcastPxData
  | mhopUcastAct
  | mhopBmcastAct
  deriving DecidableEq

/-- What the mesh routines use of `struct pkt_attrib`. -/
structure Attrib where
  mb2u : Bool
  mfwdTtl : BitVec 8
  mseq : BitVec 32
  dst : Mac
  src : Mac
  mda : Mac
  msa : Mac
  ta : Mac
  ra : Mac
  meshFrameMode : FrameMode

/-- A neighbour: `cmn.mac_addr` and `WIFI_ASOC_STATE`. -/
structure Sta where
  macAddr : Mac
  asoc : Bool

/-- What the routines use of an adapter. -/
structure Node where
  order : ByteOrder
  macAddr : Mac
  dot11MeshForwarding : Bool
  dot11MeshTTL : BitVec 8
  b2uFlagsMfwd : BitVec 8
  meshSeqnum : BitVec 32
  asocList : List Sta

/-- What the other routines answer while a frame is handled: `rtw_mesh_decache`, the next hop of
`rtw_mesh_rx_nexthop_resolve`, and whether the n-th `rtw_alloc_xmitframe` gives a frame. -/
structure Env where
  decache : Mac → BitVec 32 → Bool
  rxNexthopResolve : Mac → Mac → Option Mac
  alloc : ℕ → Bool

/-- A received MSDU; `ucst` is `to_fr_ds == 3`. -/
structure Rx where
  mda : Mac
  msa : Mac
  da : Mac
  sa : Mac
  ta : Mac
  ucst : Bool
  mctrl : Mctrl

def mfwdB2uPolicyChk (flags : BitVec 8) (mda : Mac) (ucst : Bool) : Bool :=
  flags.getLsbD 0 || (flags.getLsbD 1 && ucst) || (flags.getLsbD 2 && mda == Mac.broadcast) ||
    (flags.getLsbD 3 && (mda.ipMcast || mda.icmpv6Mcast))

/-- What `rtw_mesh_data_bmc_to_uc` gives: whether the group frame itself is still needed, the
unicast frames, the sequence number of them, that of the adapter, and how many frames were asked
for. -/
structure B2u where
  bmcNeed : Bool
  frames : List Attrib
  mseq : BitVec 32
  meshSeqnum : BitVec 32
  allocs : ℕ

section BmcToUc

variable (node : Node) (env : Env) (da sa mda msa : Mac) (aeNeed : Bool) (oriTa : Option Mac)
  (mfwdTtl : BitVec 8)

/-- The neighbours that `rtw_mesh_data_bmc_to_uc` passes over. -/
def b2uSkip (sta : Sta) : Bool :=
  !sta.asoc || sta.macAddr == msa || oriTa == some sta.macAddr || sta.macAddr == Mac.broadcast ||
    sta.macAddr == Mac.zero

/-- The loop of `rtw_mesh_data_bmc_to_uc`. -/
def b2uLoop : List Sta → ℕ → ℕ → BitVec 32 → BitVec 32 → B2u
  | [], n, _, mseq, seqnum => ⟨false, [], mseq, seqnum, n⟩
  | sta :: l, n, b2uNum, mseq, seqnum =>
    if b2uSkip msa oriTa sta then b2uLoop l n b2uNum mseq seqnum
    else if !env.alloc n then ⟨true, [], mseq, seqnum, n + 1⟩
    else
      let own := b2uNum == 0 && oriTa.isNone
      let mseq := if own then node.order.le32 seqnum else mseq
      let seqnum := if own then seqnum + 1 else seqnum
      let attrib : Attrib :=
        { mb2u := true
          mseq := mseq
          mfwdTtl := if oriTa.isSome then mfwdTtl else 0
          ra := sta.macAddr
          ta := node.macAddr
          mda := mda
          msa := msa
          dst := da
          src := sa
          meshFrameMode := if aeNeed then .ucastPxData else .ucastData }
      let r := b2uLoop l (n + 1) (b2uNum + 1) mseq seqnum
      { r with frames := attrib :: r.frames }

def meshDataBmcToUc (mseq : BitVec 32) : B2u :=
  b2uLoop node env da sa mda msa aeNeed oriTa mfwdTtl node.asocList 0 0 mseq node.meshSeqnum

end BmcToUc

/-- What `rtw_mesh_rx_msdu_act_check` gives: the two action flags, the frame and the unicast frames
to send, and the proxy information it learns. -/
structure Act where
  indicate : Bool
  forward : Bool
  fwdFrame : Option Attrib
  b2uList : List Attrib
  proxy : Option (Mac × Mac)

/-- The frames to send. -/
def Act.frames (a : Act) : List Attrib := a.b2uList ++ a.fwdFrame.toList

section ActCheck

variable (node : Node) (env : Env) (rx : Rx)

/-- Whether the forwarded frame needs the address extension. -/
def aeNeed : Bool := rx.da != rx.mda || rx.sa != rx.msa

/-- The unicast frames of `rtw_mesh_rx_msdu_act_check`. -/
def fwdB2u : B2u :=
  if rx.mda.isMcast && mfwdB2uPolicyChk node.b2uFlagsMfwd rx.mda rx.ucst then
    meshDataBmcToUc node env rx.da rx.sa rx.mda rx.msa (aeNeed rx) (some rx.ta) (rx.mctrl.ttl - 1)
      (node.order.le32 rx.mctrl.seqnum)
  else ⟨true, [], node.order.le32 rx.mctrl.seqnum, node.meshSeqnum, 0⟩

/-- The original frame of `rtw_mesh_rx_msdu_act_check`. -/
def fwdAttrib (b2u : B2u) (fwdRa : Mac) : Attrib where
  mb2u := b2u.frames.length != 0
  mfwdTtl := rx.mctrl.ttl - 1
  mseq := b2u.mseq
  dst := rx.da
  src := rx.sa
  mda := rx.mda
  msa := rx.msa
  ta := node.macAddr
  ra := if rx.mda.isMcast then rx.mda else fwdRa
  meshFrameMode :=
    if rx.mda.isMcast then (if aeNeed rx then .bmcastPxData else .bmcastData)
    else if aeNeed rx then .ucastPxData else .ucastData

/-- `rtw_mesh_rx_msdu_act_check` from `fwd_chk` on. -/
def fwdChk (act : Act) (fwdRa : Mac) : Act :=
  if node.asocList.length ≤ 1 then act
  else if rx.mctrl.ttl = 1 then act
  else
    let b2u := fwdB2u node env rx
    let act := { act with b2uList := b2u.frames }
    if b2u.bmcNeed then
      if !env.alloc b2u.allocs then act
      else { act with forward := true, fwdFrame := some (fwdAttrib node rx b2u fwdRa) }
    else { act with forward := b2u.frames.length != 0 }

def meshRxMsduActCheck : Act :=
  let act : Act :=
    { indicate := false
      forward := false
      fwdFrame := none
      b2uList := []
      proxy := if rx.mctrl.ae != 0 && rx.sa != rx.msa then some (rx.sa, rx.msa) else none }
  let isMdaBmc := rx.mda.isMcast
  let isMdaSelf := !isMdaBmc && rx.mda == node.macAddr
  if rx.msa == node.macAddr then act
  else if isMdaBmc && env.decache rx.msa (node.order.le32 rx.mctrl.seqnum) then act
  else if isMdaBmc then
    let act := { act with indicate := true }
    if !node.dot11MeshForwarding then act else fwdChk node env rx act Mac.zero
  else if !isMdaSelf then
    if !node.dot11MeshForwarding then act
    else
      match env.rxNexthopResolve rx.mda rx.msa with
      | none => act
      | some fwdRa => fwdChk node env rx act fwdRa
  else { act with indicate := true }

end ActCheck

/-- `rtw_mesh_tx_build_mctrl`, with the sequence number the adapter goes on with. -/
def meshTxBuildMctrl (node : Node) (attrib : Attrib) : Mctrl × BitVec 32 :=
  let (ttl, seqnum, next) :=
    if attrib.mfwdTtl ≠ 0 ∨ attrib.mb2u then
      (if attrib.mfwdTtl = 0 then node.dot11MeshTTL else attrib.mfwdTtl,
        node.order.le32 attrib.mseq, node.meshSeqnum)
    else (node.dot11MeshTTL, node.order.le32 node.meshSeqnum, node.meshSeqnum + 1)
  match attrib.meshFrameMode with
  | .ucastPxData => (⟨0x2, ttl, seqnum, attrib.dst, attrib.src⟩, next)
  | .bmcastPxData => (⟨0x1, ttl, seqnum, attrib.src, Mac.zero⟩, next)
  | _ => (⟨0, ttl, seqnum, Mac.zero, Mac.zero⟩, next)

/-- A mesh data frame on the air: whether both DS bits are set, its addresses and its Mesh Control
field, and how many times it has been forwarded. -/
structure Air where
  ucst : Bool
  addr1 : Mac
  addr2 : Mac
  addr3 : Mac
  addr4 : Mac
  mctrl : Mctrl
  hops : ℕ

/-- A frame on the air, by `rtw_mesh_tx_build_whdr` and `rtw_mesh_tx_build_mctrl`. -/
def buildFrame (node : Node) (attrib : Attrib) (hops : ℕ) : Air :=
  let mctrl := (meshTxBuildMctrl node attrib).1
  match attrib.meshFrameMode with
  | .bmcastData | .bmcastPxData => ⟨false, attrib.ra, attrib.ta, attrib.msa, Mac.zero, mctrl, hops⟩
  | _ => ⟨true, attrib.ra, attrib.ta, attrib.mda, attrib.msa, mctrl, hops⟩

/-- `rtw_mesh_rx_data_validate_hdr` and `rtw_mesh_rx_data_validate_mctrl` of a frame of a known
neighbour. -/
def rxValidate (f : Air) : Option Rx :=
  if f.ucst then
    if f.addr1.isMcast then none
    else if f.mctrl.ae = 0x2 then
      some ⟨f.addr3, f.addr4, f.mctrl.eaddr1, f.mctrl.eaddr2, f.addr2, true, f.mctrl⟩
    else if f.mctrl.ae = 0 then some ⟨f.addr3, f.addr4, f.addr3, f.addr4, f.addr2, true, f.mctrl⟩
    else none
  else if !f.addr1.isMcast then none
  else if f.mctrl.ae = 0x1 then
    some ⟨f.addr1, f.addr3, f.addr1, f.mctrl.eaddr1, f.addr2, false, f.mctrl⟩
  else if f.mctrl.ae = 0 then some ⟨f.addr1, f.addr3, f.addr1, f.addr3, f.addr2, false, f.mctrl⟩
  else none

/-- A network: its nodes, and all frames that were ever sent. -/
structure Net (ι : Type) where
  nodes : ι → Node
  air : List Air

/-- A node sends a frame of its own, or one with any Mesh Control field from elsewhere is sent; the
`k`-th frame reaches a node, in any order and any number of times; or a node changes. -/
inductive Event (ι : Type)
  | originate (f : Air)
  | deliver (i : ι) (k : ℕ) (env : Env)
  | configure (i : ι) (node : Node)

/-- The frames that a node sends on for a frame that reaches it. -/
def forwardFrames (node : Node) (env : Env) (f : Air) : List Air :=
  match rxValidate f with
  | none => []
  | some rx =>
    let act := meshRxMsduActCheck node env rx
    if act.forward then act.frames.map fun attrib => buildFrame node attrib (f.hops + 1) else []

def Net.step {ι : Type} [DecidableEq ι] (net : Net ι) : Event ι → Net ι
  | .originate f => { net with air := net.air ++ [{ f with hops := 0 }] }
  | .deliver i k env =>
    match net.air[k]? with
    | none => net
    | some f => { net with air := net.air ++ forwardFrames (net.nodes i) env f }
  | .configure i node => { net with nodes := Function.update net.nodes i node }

end Rtl8821cu.MeshFwd
