import Rtl8821cu.LibLoad
import Rtl8821cu.TxClassify

/-! What `rtw_recv_indicatepkt_check` (`core/rtw_recv.c`) reads of a packet before it is indicated,
by the offset from the packet's Ethernet header. Nothing compares an offset with the packet's
length. -/
namespace Rtl8821cu.Amsdu
open Bytes Reads Store TxClassify

/-- What `parsing_eapol_packet` returns of `enum eap_type`. -/
inductive EapType
  | eapolStart
  | eapolPacket
  | eapolWpaGroupKey12
  | eapolWpaGroupKey22
  | eapol14
  | eapol24
  | eapol34
  | eapol44
  deriving DecidableEq

/-- The message of a key frame: bit 3 of `key_info` is `WPA_KEY_INFO_KEY_TYPE`, bit 7
`WPA_KEY_INFO_ACK` and bit 8 `WPA_KEY_INFO_MIC`. -/
def eapolKeyType (keyInfo keyDataLength : ℕ) : EapType :=
  if !keyInfo.testBit 3 then
    if keyInfo.testBit 7 then .eapolWpaGroupKey12 else .eapolWpaGroupKey22
  else if keyInfo.testBit 8 then
    if keyDataLength = 0 then .eapol44 else if keyInfo.testBit 7 then .eapol34 else .eapol24
  else .eapol14

/-- `parsing_eapol_packet`, for an EAPOL header at `hdr`. -/
def parsingEapolPacket (hdr : ℕ) : Reading (BitVec 8) EapType := do
  let type ← cell (hdr + 1)
  let length ← if type = 1 then cells (hdr + 2) 2 else pure []
  if length = [0, 0] then pure .eapolStart
  else if type = 0 then pure .eapolPacket
  else
    let keyInfo ← cells (hdr + 5) 2
    let keyDataLength ← cells (hdr + 97) 2
    pure (eapolKeyType (getBe16 keyInfo 0) (getBe16 keyDataLength 0))

/-- `rtw_sink_rtp_seq_dbg`: the sequence number it notes. -/
def rtwSinkRtpSeqDbg (sinkUdpport : BitVec 16) : Reading (BitVec 8) (Option ℕ) :=
  if sinkUdpport = 0 then pure none
  else do
    let port ← cells 0x24 2
    if getBe16 port 0 = sinkUdpport.toNat then
      let seq ← cells 0x2c 2
      pure (some (getBe16 seq 0))
    else pure none

/-- What the check knows beside the packet: the session tracker of the station that sent it, whether
it came encrypted, and the port of the RTP debugging. -/
structure IndicateCtl where
  psta : Option StRegister
  encrypt : Bool
  sinkUdpport : BitVec 16

/-- What the check does: the commands to the session tracker, whether an unencrypted key frame was
seen, the RTP sequence number, and whether it returns `_SUCCESS`. -/
structure Indicated where
  cmds : List SessionCmd
  nonencEapolKey : Bool
  rtpSeq : Option ℕ
  ret : Bool

def trackSession : Option StRegister → Reading (BitVec 8) (List SessionCmd)
  | none => pure []
  | some reg => rtwStCtlRx reg

def seesNonencEapolKey (encrypt : Bool) (proto : ℕ) : Reading (BitVec 8) Bool :=
  if proto = 0x888e then do
    let eapolType ← parsingEapolPacket 14
    pure ((eapolType = .eapol14 || eapolType = .eapol34) && !encrypt)
  else pure false

def rtwRecvIndicatepktCheck (c : IndicateCtl) : Reading (BitVec 8) Indicated := do
  let cmds ← trackSession c.psta
  let proto ← cells 12 2
  let nonencEapolKey ← seesNonencEapolKey c.encrypt (getBe16 proto 0)
  let rtpSeq ← rtwSinkRtpSeqDbg c.sinkUdpport
  pure ⟨cmds, nonencEapolKey, rtpSeq, true⟩

variable {c : IndicateCtl} {mem : ℕ → BitVec 8} {pkt : List (BitVec 8)}

theorem rtwRecvIndicatepktCheck_ret : ((rtwRecvIndicatepktCheck c).value mem).ret = true := by
  unfold rtwRecvIndicatepktCheck
  simp only [value_bind, value_pure]

theorem loadBe16_of_holdsAt (hmem : HoldsAt mem 0 pkt) {i : ℕ} (hi : i + 2 ≤ pkt.length) :
    getBe16 (load mem i 2) 0 = getBe16 pkt i := by
  have hload := hmem.load_eq hi
  rw [Nat.zero_add] at hload
  rw [hload, Load.getBe16_take (by omega), Load.getBe16_drop, Nat.add_zero]

/-- Of a packet that is neither IPv4 nor EAPOL the check reads only the Ethernet header. -/
theorem rtwRecvIndicatepktCheck_inside (hmem : HoldsAt mem 0 pkt) (hlen : 14 ≤ pkt.length)
    (hipv4 : getBe16 pkt 12 ≠ 0x0800) (heapol : getBe16 pkt 12 ≠ 0x888e)
    (hsink : c.sinkUdpport = 0) : (rtwRecvIndicatepktCheck c).Inside mem 0 pkt.length := by
  have hproto : getBe16 (load mem 12 2) 0 = getBe16 pkt 12 := loadBe16_of_holdsAt hmem (by omega)
  have hheader : (cells 12 2 : Reading (BitVec 8) _).Inside mem 0 pkt.length := by
    rw [inside_cells]
    omega
  have htracker : ∀ reg, (rtwStCtlRx reg).Inside mem 0 pkt.length := by
    intro reg
    unfold rtwStCtlRx
    rw [inside_bind, value_cells, hproto, if_neg hipv4]
    exact ⟨hheader, inside_pure _⟩
  unfold rtwRecvIndicatepktCheck seesNonencEapolKey rtwSinkRtpSeqDbg
  rw [inside_bind, inside_bind, value_cells, hproto, if_neg heapol, if_pos hsink]
  refine ⟨?_, hheader, ?_⟩
  · cases c.psta with
    | none => exact inside_pure _
    | some reg => exact htracker reg
  · simp

/-- An EAPOL packet that ends with its Ethernet header is read behind its end. -/
example : 15 ∈ (rtwRecvIndicatepktCheck ⟨none, false, 0⟩).places
    (store (fun _ => 0) 0 (List.replicate 12 2 ++ [0x88, 0x8e])) := by decide

end Rtl8821cu.Amsdu
