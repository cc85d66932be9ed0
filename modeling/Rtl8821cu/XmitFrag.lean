import Rtl8821cu.LibStore
import Rtl8821cu.Michael

/-! Fragmented transmission: `rtw_xmitframe_coalesce` lays the fragments of an MSDU out in the
transmit buffer, `xmitframe_addmic` and the software encryptors protect them in place, and
`rtw_dump_xframe` hands them to the device. Each routine finds the fragments by itself. -/
namespace Rtl8821cu.XmitFrag
open Store Michael

def rnd4 (x : ℕ) : ℕ := (x / 4 + if x % 4 = 0 then 0 else 1) * 4

theorem le_rnd4 (x : ℕ) : x ≤ rnd4 x := by
  unfold rnd4
  split_ifs <;> omega

def txdescSize : ℕ := 48

def packetOffsetSz : ℕ := 8

/-- `hw_hdr_offset`, with the `pkt_offset` of a new frame, which is one. -/
def hwHdrOffset : ℕ := txdescSize + 1 * packetOffsetSz

/-- `encrypt` of `struct pkt_attrib`. -/
inductive Encrypt
  | noPrivacy
  | wep40
  | wep104
  | tkip
  | aes
  | gcmp
  | gcmp256
  | ccmp256
  deriving DecidableEq

/-- `iv_len`, as `update_attrib_sec_info` sets it. -/
def Encrypt.ivLen : Encrypt → ℕ
  | noPrivacy => 0
  | wep40 | wep104 => 4
  | tkip | aes | gcmp | gcmp256 | ccmp256 => 8

/-- `icv_len`, as `update_attrib_sec_info` sets it. -/
def Encrypt.icvLen : Encrypt → ℕ
  | noPrivacy => 0
  | wep40 | wep104 | tkip => 4
  | aes => 8
  | gcmp | gcmp256 | ccmp256 => 16

/-- `usb_speed` of the device. -/
inductive UsbSpeed
  | full
  | high
  | super
  deriving DecidableEq

/-- `USB_FULL_SPEED_BULK_SIZE`, `USB_HIGH_SPEED_BULK_SIZE` and `USB_SUPER_SPEED_BULK_SIZE`. -/
def UsbSpeed.bulkSize : UsbSpeed → ℕ
  | full => 64
  | high => 512
  | super => 1024

/-- What the routines read of the adapter: `frag_len`, which no caller sets below 256, the
`sw_encrypt` and `hw_decrypted` of the security context, the key conflict flag of the CAM
control, `mp_mode` of the registry and the speed of the bus. -/
structure Adapter where
  fragLen : ℕ
  swEncrypt : Bool
  hwDecrypted : Bool
  pkGkConflict : Bool
  mpMode : Bool
  usbSpeed : UsbSpeed
  fragLen_ge : 256 ≤ fragLen

/-- `hdrlen`, as `update_attrib` and `set_qos` set it. -/
def hdrlen (wds qosEn : Bool) : ℕ :=
  if qosEn then (if wds then 32 else 26) else if wds then 30 else 24

/-- What the routines read of `struct pkt_attrib`. The header is the one `rtw_make_wlanhdr`
built, the mesh control field is empty outside a mesh, and the MIC key is the one of the
receiver, a group key for a multicast. -/
structure Attrib where
  bmcst : Bool
  wds : Bool
  qosEn : Bool
  priority : BitVec 8
  etherType : BitVec 16
  eapol44 : Bool
  encrypt : Encrypt
  header : List (BitVec 8)
  mctrl : List (BitVec 8)
  iv : ℕ → BitVec 8
  icv : ℕ → BitVec 8
  micKey : List (BitVec 8)
  header_length : header.length = hdrlen wds qosEn
  mctrl_length : mctrl.length ≤ 18

def rtwPutSnap (hProto : BitVec 16) : List (BitVec 8) :=
  [0xaa, 0xaa, 0x03, 0x00, 0x00, if hProto = 0x8137 ∨ hProto = 0x80f3 then 0xf8 else 0x00,
    hProto.extractLsb' 8 8, hProto.extractLsb' 0 8]

variable (c : Adapter) (A : Attrib)

def Attrib.hdrlen : ℕ := XmitFrag.hdrlen A.wds A.qosEn

/-- `bswenc`, as `update_attrib_sec_info` sets it. -/
def bswenc : Bool :=
  A.encrypt ≠ .noPrivacy &&
    (c.swEncrypt || !c.hwDecrypted || (A.bmcst && c.pkGkConflict) || A.eapol44)

/-- The ICV bytes that the software encryptor fills in. -/
def swIcvLen : ℕ := if bswenc c A then A.encrypt.icvLen else 0

/-- What stands in front of the MSDU in the first fragment. -/
def Attrib.front : List (BitVec 8) := A.mctrl ++ rtwPutSnap A.etherType

/-- What the loop of `rtw_xmitframe_coalesce` puts before a chunk of the MSDU. -/
def frontAt (frgInx : ℕ) : List (BitVec 8) := if frgInx = 0 then A.front else []

/-- A stretch of the transmit buffer. -/
structure Region where
  addr : ℕ
  len : ℕ
  deriving DecidableEq

/-- The body of a frame: what is left without its header, IV and software ICV. -/
def Region.body (r : Region) : Region :=
  ⟨r.addr + A.hdrlen + A.encrypt.ivLen, r.len - A.hdrlen - A.encrypt.ivLen - swIcvLen c A⟩

def setMFrag (mem : ℕ → BitVec 8) (p : ℕ) : ℕ → BitVec 8 :=
  Function.update mem (p + 1) (mem (p + 1) ||| 0x04#8)

def clearMFrag (mem : ℕ → BitVec 8) (p : ℕ) : ℕ → BitVec 8 :=
  Function.update mem (p + 1) (mem (p + 1) &&& ~~~0x04#8)

/-- The locals of the loop of `rtw_xmitframe_coalesce`: `mem_start`, `frg_inx` and what is left of
the packet file; `placed` records where each fragment was laid. -/
structure Loop where
  mem : ℕ → BitVec 8
  memStart : ℕ
  frgInx : ℕ
  pkt : List (BitVec 8)
  placed : List Region

/-- What the loop leaves behind. -/
structure Laid where
  mem : ℕ → BitVec 8
  nrFrags : ℕ
  lastTxcmdsz : ℕ
  placed : List Region

/-- One fragment is written: header flag, IV, front of the MSDU, a chunk of it, and room for the
software ICV. -/
def putFragment (mem : ℕ → BitVec 8) (memStart : ℕ) (front chunk : List (BitVec 8)) :
    ℕ → BitVec 8 :=
  let mem := setMFrag mem memStart
  let pframe := memStart + A.hdrlen
  let mem := store mem pframe (load A.iv 0 A.encrypt.ivLen)
  let pframe := pframe + A.encrypt.ivLen
  let mem := store mem pframe front
  let pframe := pframe + front.length
  let mem := store mem pframe chunk
  let pframe := pframe + chunk.length
  store mem pframe (load A.icv 0 (swIcvLen c A))

/-- The `while (1)` of `rtw_xmitframe_coalesce`; the packet file gives at most what it holds. -/
def coalesceLoop (pbufStart : ℕ) : ℕ → Loop → Option Laid
  | 0, _ => none
  | fuel + 1, s =>
    let front := frontAt A s.frgInx
    let mpduLen := c.fragLen - 4 - A.hdrlen - A.encrypt.ivLen - front.length - swIcvLen c A
    let chunk := if A.bmcst then s.pkt else s.pkt.take mpduLen
    let rest := if A.bmcst then [] else s.pkt.drop mpduLen
    let mem := putFragment c A s.mem s.memStart front chunk
    let len := A.hdrlen + A.encrypt.ivLen + front.length + chunk.length + swIcvLen c A
    let placed := s.placed ++ [⟨s.memStart, len⟩]
    let frgInx := s.frgInx + 1
    if A.bmcst || rest.isEmpty then
      some ⟨clearMFrag mem s.memStart, frgInx,
        A.hdrlen + A.encrypt.ivLen + (if frgInx = 1 then front.length else 0) + swIcvLen c A +
          chunk.length, placed⟩
    else
      let memStart := rnd4 (s.memStart + len) + hwHdrOffset
      let mem := store mem memStart (load mem (pbufStart + hwHdrOffset) A.hdrlen)
      coalesceLoop pbufStart fuel ⟨mem, memStart, frgInx, rest, placed⟩

/-- The MIC loop of `xmitframe_addmic`: the stretches it feeds to `rtw_secmicappend`, for the
fragments that are left, and where `payload` ends up. -/
def addmicLoop (lastTxcmdsz : ℕ) : ℕ → ℕ → List Region × ℕ
  | 0, payload => ([], payload)
  | left + 1, payload =>
    let payload := rnd4 payload + A.hdrlen + A.encrypt.ivLen
    if left = 0 then
      let length := lastTxcmdsz - A.hdrlen - A.encrypt.ivLen - swIcvLen c A
      ([⟨payload, length⟩], payload + length)
    else
      let length := c.fragLen - A.hdrlen - A.encrypt.ivLen - swIcvLen c A
      let next := addmicLoop lastTxcmdsz left (payload + length + A.encrypt.icvLen)
      (⟨payload, length⟩ :: next.1, next.2)

/-- The loop of `rtw_wep_encrypt`, `rtw_tkip_encrypt`, `rtw_aes_encrypt` and `rtw_gcmp_encrypt`,
which walk the buffer in one way: the stretches they encrypt. -/
def encryptLoop (lastTxcmdsz : ℕ) : ℕ → ℕ → List Region
  | 0, _ => []
  | left + 1, pframe =>
    let payload := pframe + A.encrypt.ivLen + A.hdrlen
    if left = 0 then
      [⟨payload, lastTxcmdsz - A.hdrlen - A.encrypt.ivLen - A.encrypt.icvLen⟩]
    else
      ⟨payload, c.fragLen - A.hdrlen - A.encrypt.ivLen - A.encrypt.icvLen⟩ ::
        encryptLoop lastTxcmdsz left (rnd4 (pframe + c.fragLen))

/-- The frame after `rtw_xmitframe_coalesce`: the buffer with the MIC and before it is encrypted
in place, and the stretches that the routines took for the fragments. -/
structure XmitFrame where
  mem : ℕ → BitVec 8
  nrFrags : ℕ
  lastTxcmdsz : ℕ
  placed : List Region
  micRegions : List Region
  mic : List (BitVec 8)
  encRegions : List Region

/-- The buffer, `last_txcmdsz`, the stretches fed to the MIC and the MIC appended. -/
structure Mic where
  mem : ℕ → BitVec 8
  lastTxcmdsz : ℕ
  regions : List Region
  mic : List (BitVec 8)

/-- `xmitframe_addmic`; an unset MIC key fails. -/
def xmitframeAddmic (pbufStart : ℕ) (l : Laid) : Option Mic :=
  let pframe := pbufStart + hwHdrOffset
  if A.encrypt = .tkip then
    if A.micKey = List.replicate 16 0 then none
    else
      let (regions, payload) := addmicLoop c A l.lastTxcmdsz l.nrFrags pframe
      let header := pseudoHeader (fun i => l.mem (pframe + i)) (if A.qosEn then A.priority else 0)
      let mic := rtwSecgetmic ((regions.map fun r => load l.mem r.addr r.len).foldl rtwSecmicappend
        (rtwSecmicappend (rtwSecmicsetkey A.micKey) header))
      some ⟨store l.mem payload mic, l.lastTxcmdsz + 8, regions, mic⟩
  else some ⟨l.mem, l.lastTxcmdsz, [], []⟩

/-- `xmitframe_swencrypt`: the stretches that are encrypted in place. -/
def xmitframeSwencrypt (pbufStart lastTxcmdsz nrFrags : ℕ) : List Region :=
  if bswenc c A then encryptLoop c A lastTxcmdsz nrFrags (pbufStart + hwHdrOffset) else []

/-- `rtw_xmitframe_coalesce`, for a packet without its Ethernet header. -/
def rtwXmitframeCoalesce (mem : ℕ → BitVec 8) (pbufStart : ℕ) (pkt : List (BitVec 8)) :
    Option XmitFrame :=
  let memStart := pbufStart + hwHdrOffset
  match coalesceLoop c A pbufStart (pkt.length + 1)
    ⟨store mem memStart A.header, memStart, 0, pkt, []⟩ with
  | none => none
  | some l =>
    match xmitframeAddmic c A pbufStart l with
    | none => none
    | some m =>
      some ⟨m.mem, l.nrFrags, m.lastTxcmdsz, l.placed, m.regions, m.mic,
        xmitframeSwencrypt c A pbufStart m.lastTxcmdsz l.nrFrags⟩

def rtwUsbBulkSizeBoundary (bufLen : ℕ) : Bool := bufLen % c.usbSpeed.bulkSize = 0

/-- Whether `update_txdesc` pulls the descriptor over the packet offset. -/
def pull (sz : ℕ) : Bool := !c.mpMode && !rtwUsbBulkSizeBoundary c (txdescSize + sz)

/-- The loop of `rtw_dump_xframe` over the fragments that are left. A pulled descriptor moves
`buf_addr`, from where the device is given the descriptor and the frame; the frame stands behind
the descriptor and `pkt_offset` units of padding. -/
def dumpLoop (lastTxcmdsz : ℕ) : ℕ → ℕ → ℕ → ℕ → List Region
  | 0, _, _, _ => []
  | left + 1, memAddr, bufAddr, pktOffset =>
    let sz := if left = 0 then lastTxcmdsz
      else c.fragLen - 4 - (if c.swEncrypt then 0 else A.encrypt.icvLen)
    if pull c sz then
      let memAddr := memAddr + packetOffsetSz
      let pktOffset := pktOffset - 1
      ⟨memAddr + txdescSize + pktOffset * packetOffsetSz, sz⟩ ::
        dumpLoop lastTxcmdsz left (rnd4 (memAddr + (sz + txdescSize))) memAddr pktOffset
    else
      ⟨bufAddr + txdescSize + pktOffset * packetOffsetSz, sz⟩ ::
        dumpLoop lastTxcmdsz left (rnd4 (memAddr + (sz + txdescSize + packetOffsetSz))) bufAddr
          pktOffset

/-- `rtw_dump_xframe`: the frames that the device is given. -/
def rtwDumpXframe (pbufStart : ℕ) (x : XmitFrame) : List Region :=
  dumpLoop c A x.lastTxcmdsz x.nrFrags pbufStart pbufStart 1

end Rtl8821cu.XmitFrag
