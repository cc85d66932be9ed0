import Rtl8821cu.Ies
import Rtl8821cu.LibBytes
import Rtl8821cu.LibRun

/-! Broadcast integrity protection: the BIP branch of `rtw_mgmt_xmitframe_coalesce`
(`core/rtw_xmit.c`) and `rtw_bip_verify` (`core/rtw_security.c`), over frames as byte strings. -/
namespace Rtl8821cu.Bip
open Bytes Run
open Ies (rtwSetIe)

abbrev Byte := BitVec 8

/-- The BIP members of `enum security_type`. -/
inductive BipCipher
  | cmac128
  | gmac128
  | gmac256
  | cmac256
  deriving DecidableEq

/-- `omac1_aes_128`, `omac1_aes_256` and `aes_gmac`: cipher, key, nonce and data. -/
structure MicPrimitive where
  mic : BipCipher → List Byte → List Byte → List Byte → List Byte
  length_mic : ∀ gmcs key nonce data, (mic gmcs key nonce data).length = 16

/-- The fields of `security_priv` for BIP; the keys are indexed `0` to `5`. -/
structure SecurityPriv where
  binstallBIPkey : Bool
  dot11wCipher : BipCipher
  dot11wBIPKeyid : Fin 6
  dot11wBIPKey : Fin 6 → List Byte
  dot11wBIPtxpn : BitVec 64

inductive Ret
  | fail
  | success
  | handled
  deriving DecidableEq

/-- `BIP_AAD`: the frame control field without the retry, power management and more data bits,
and the three addresses. -/
def bipAad (whdr : List Byte) : List Byte :=
  [whdr.getD 0 0, whdr.getD 1 0 &&& 0xC7] ++ (whdr.drop 4).take 18

/-- The nonce of `_bip_gcmp_protect`: the transmitter and the packet number, highest byte first. -/
def gmacNonce (whdr : List Byte) (len : ℕ) : List Byte :=
  (whdr.drop 10).take 6 ++ ((whdr.drop (len - 16 - 6)).take 6).reverse

def rtwCalculateBipMic (P : MicPrimitive) (gmcs : BipCipher) (whdr : List Byte) (len : ℕ)
    (key data : List Byte) : List Byte :=
  match gmcs with
  | .cmac128 | .cmac256 => P.mic gmcs key [] data
  | .gmac128 | .gmac256 => P.mic gmcs key (gmacNonce whdr len) data

def micLen (gmcs : BipCipher) : ℕ := if gmcs = .cmac128 then 8 else 16

def mmeIe : Byte := 76

def categoryIsNonRobust (cat : Byte) : Bool := cat ∈ [4, 7, 11, 15, 21, 0x7f]

def categoryIsGroupPrivacy (cat : Byte) : Bool := cat ∈ [13, 14]

/-- `get_frame_sub_type`. -/
def subtype (frame : List Byte) : Byte := frame.getD 0 0 &&& 0xFC

def wifiDisassoc : Byte := 0xA0

def wifiDeauth : Byte := 0xC0

def wifiAction : Byte := 0xD0

/-- The frame with its MME, and the packet number used. -/
def bipProtect (P : MicPrimitive) (sec : SecurityPriv) (frame : List Byte) :
    List Byte × SecurityPriv :=
  let mmeClen := if sec.dot11wCipher = .cmac128 then 16 else 24
  let sec := { sec with dot11wBIPtxpn := sec.dot11wBIPtxpn + 1 }
  let mmeCont := [BitVec.ofNat 8 sec.dot11wBIPKeyid, 0] ++
    (leBytes 8 sec.dot11wBIPtxpn.toNat ++ List.replicate 14 0)
  let frame := frame ++ rtwSetIe mmeIe (mmeCont.take mmeClen)
  let mic := rtwCalculateBipMic P sec.dot11wCipher frame frame.length
    (sec.dot11wBIPKey sec.dot11wBIPKeyid) (bipAad frame ++ frame.drop 24)
  (frame.take (frame.length - micLen sec.dot11wCipher) ++ mic.take (micLen sec.dot11wCipher), sec)

/-- What becomes of a management frame: it is sent as it is, it goes to the encryption of unicast
and group privacy frames, or it carries an MME. -/
inductive Coalesce
  | plain
  | encrypt
  | bip (frame : List Byte)

def rtwMgmtXmitframeCoalesce (P : MicPrimitive) (sec : SecurityPriv) (bmcst : Bool)
    (frame : List Byte) : Coalesce × SecurityPriv :=
  let category := frame.getD 24 0
  if subtype frame ≠ wifiDeauth ∧ subtype frame ≠ wifiDisassoc ∧ subtype frame ≠ wifiAction then
    (.plain, sec)
  else if subtype frame = wifiAction ∧ categoryIsNonRobust category then (.plain, sec)
  else if !bmcst then (.encrypt, sec)
  else if subtype frame = wifiAction ∧ categoryIsGroupPrivacy category then (.encrypt, sec)
  else if !sec.binstallBIPkey then (.plain, sec)
  else (.bip (bipProtect P sec frame).1, (bipProtect P sec frame).2)

/-- Where the receiver looks for the MME. -/
def mmePos (gmcs : BipCipher) (whdr : List Byte) : ℕ :=
  whdr.length - (if micLen gmcs = 8 then 18 else 26)

/-- The packet number in the MME of a frame. -/
def pktIpn (gmcs : BipCipher) (whdr : List Byte) : ℕ :=
  ofLe ((whdr.drop (mmePos gmcs whdr + 4)).take 6)

/-- `pktLen` is `pattrib->pkt_len`; the stored packet number comes back with the verdict. -/
def rtwBipVerify (P : MicPrimitive) (gmcs : BipCipher) (pktLen : ℕ) (whdr key : List Byte)
    (keyid : ℕ) (ipn : ℕ) : Ret × ℕ :=
  let flen := whdr.length
  if flen < 24 ∨ flen - 24 < micLen gmcs then (.handled, ipn)
  else
    let mme := mmePos gmcs whdr
    if whdr.getD mme 0 ≠ mmeIe then (.handled, ipn)
    else if ofLe ((whdr.drop (mme + 2)).take 2) ≠ keyid then (.fail, ipn)
    else if pktIpn gmcs whdr ≤ ipn then (.fail, ipn)
    else
      let data := bipAad whdr ++ ((whdr.drop 24).take (flen - 24 - micLen gmcs) ++
        List.replicate (micLen gmcs) 0)
      let mic := rtwCalculateBipMic P gmcs whdr pktLen key data
      if mic.take (micLen gmcs) = whdr.drop (flen - micLen gmcs) then
        (.success, pktIpn gmcs whdr)
      else (.fail, ipn)

section Layout
variable {gmcs : BipCipher} {frame : List Byte}

theorem micLen_cases (gmcs : BipCipher) : micLen gmcs = 8 ∨ micLen gmcs = 16 := by
  cases gmcs <;> simp [micLen]

/-- The MME up to its MIC. -/
def mmeHead (gmcs : BipCipher) (keyid : Fin 6) (pn : ℕ) : List Byte :=
  [mmeIe, BitVec.ofNat 8 (micLen gmcs + 8), BitVec.ofNat 8 keyid, 0] ++ leBytes 6 pn

/-- The MIC field when the MIC is computed: it holds what the packet number has above 48 bits. -/
def micField (gmcs : BipCipher) (pn : ℕ) : List Byte :=
  leBytes 2 (pn / 256 ^ 6) ++ List.replicate (micLen gmcs - 2) 0

@[simp] theorem length_mmeHead (gmcs : BipCipher) (keyid : Fin 6) (pn : ℕ) :
    (mmeHead gmcs keyid pn).length = 10 := by
  simp [mmeHead]

@[simp] theorem length_micField (gmcs : BipCipher) (pn : ℕ) :
    (micField gmcs pn).length = micLen gmcs := by
  rcases micLen_cases gmcs with h | h <;> simp [micField, h]

theorem rtwSetIe_mme (gmcs : BipCipher) (keyid : Fin 6) (pn : ℕ) (frame : List Byte) :
    frame ++ rtwSetIe mmeIe (([BitVec.ofNat 8 keyid, 0] ++
        (leBytes 8 pn ++ List.replicate 14 0)).take (if gmcs = BipCipher.cmac128 then 16 else 24)) =
      frame ++ (mmeHead gmcs keyid pn ++ micField gmcs pn) := by
  have hsplit : leBytes 8 pn = leBytes 6 pn ++ leBytes 2 (pn / 256 ^ 6) := leBytes_add 6 2 pn
  unfold rtwSetIe mmeHead micField
  rw [hsplit]
  cases gmcs <;> simp [micLen, List.take_append, List.take_of_length_le]

theorem bipAad_append (h : 24 ≤ frame.length) (t : List Byte) :
    bipAad (frame ++ t) = bipAad frame := by
  unfold bipAad
  rw [List.getD_append _ _ _ _ (by omega), List.getD_append _ _ _ _ (by omega),
    List.drop_append_of_le_length (by omega), List.take_append_of_le_length (by simp; omega)]

/-- The nonce is read from the header and the MME, not from the MIC. -/
theorem rtwCalculateBipMic_tail (P : MicPrimitive) {keyid : Fin 6} {pn : ℕ} {t u : List Byte}
    (h : 24 ≤ frame.length) (ht : t.length = micLen gmcs) (hu : u.length = micLen gmcs)
    (key data : List Byte) :
    rtwCalculateBipMic P gmcs (frame ++ (mmeHead gmcs keyid pn ++ t))
        (frame ++ (mmeHead gmcs keyid pn ++ t)).length key data =
      rtwCalculateBipMic P gmcs (frame ++ (mmeHead gmcs keyid pn ++ u))
        (frame ++ (mmeHead gmcs keyid pn ++ u)).length key data := by
  have hnonce : ∀ v : List Byte, v.length = 16 →
      gmacNonce (frame ++ (mmeHead gmcs keyid pn ++ v))
        (frame ++ (mmeHead gmcs keyid pn ++ v)).length =
      (frame.drop 10).take 6 ++ (leBytes 6 pn).reverse := by
    intro v hv
    unfold gmacNonce
    have hpos : (frame ++ (mmeHead gmcs keyid pn ++ v)).length - 16 - 6 = frame.length + 4 := by
      simp [hv]
    rw [hpos, List.drop_append_of_le_length (by omega),
      List.take_append_of_le_length (by simp; omega), List.drop_append]
    have hnil : frame.drop (frame.length + 4) = [] := List.drop_of_length_le (by omega)
    have htake : (leBytes 6 pn ++ v).take 6 = leBytes 6 pn := List.take_left' (length_leBytes 6 pn)
    simp [mmeHead, hnil, htake]
  cases gmcs with
  | cmac128 => rfl
  | cmac256 => rfl
  | gmac128 =>
    unfold rtwCalculateBipMic
    rw [hnonce t ht, hnonce u hu]
  | gmac256 =>
    unfold rtwCalculateBipMic
    rw [hnonce t ht, hnonce u hu]

end Layout

section Verify
variable {P : MicPrimitive} {sec : SecurityPriv} {frame : List Byte}

/-- The packet number of the next protected frame. -/
def nextPn (sec : SecurityPriv) : ℕ := (sec.dot11wBIPtxpn + 1).toNat

/-- The data the sender computes the MIC over. -/
def sentData (sec : SecurityPriv) (frame : List Byte) : List Byte :=
  bipAad frame ++ (frame.drop 24 ++ (mmeHead sec.dot11wCipher sec.dot11wBIPKeyid (nextPn sec) ++
    micField sec.dot11wCipher (nextPn sec)))

/-- The data the receiver computes the MIC over. -/
def receivedData (sec : SecurityPriv) (frame : List Byte) : List Byte :=
  bipAad frame ++ (frame.drop 24 ++ (mmeHead sec.dot11wCipher sec.dot11wBIPKeyid (nextPn sec) ++
    List.replicate (micLen sec.dot11wCipher) 0))

/-- The MIC of `data` for the frame with its MME. -/
def frameMic (P : MicPrimitive) (sec : SecurityPriv) (frame data : List Byte) : List Byte :=
  let whdr := frame ++ (mmeHead sec.dot11wCipher sec.dot11wBIPKeyid (nextPn sec) ++
    micField sec.dot11wCipher (nextPn sec))
  (rtwCalculateBipMic P sec.dot11wCipher whdr whdr.length (sec.dot11wBIPKey sec.dot11wBIPKeyid)
    data).take (micLen sec.dot11wCipher)

theorem length_frameMic (P : MicPrimitive) (sec : SecurityPriv) (frame data : List Byte) :
    (frameMic P sec frame data).length = micLen sec.dot11wCipher := by
  have hle : micLen sec.dot11wCipher ≤ 16 := by
    rcases micLen_cases sec.dot11wCipher with h | h <;> omega
  simp only [frameMic, rtwCalculateBipMic]
  split <;> simpa [P.length_mic] using hle

theorem bipProtect_frame (h : 24 ≤ frame.length) :
    (bipProtect P sec frame).1 = frame ++
      (mmeHead sec.dot11wCipher sec.dot11wBIPKeyid (nextPn sec) ++
        frameMic P sec frame (sentData sec frame)) := by
  unfold bipProtect
  simp only [rtwSetIe_mme]
  have hlen : (frame ++ (mmeHead sec.dot11wCipher sec.dot11wBIPKeyid
      (sec.dot11wBIPtxpn + 1).toNat ++ micField sec.dot11wCipher
      (sec.dot11wBIPtxpn + 1).toNat)).length - micLen sec.dot11wCipher = frame.length + 10 := by
    simp
    omega
  have htake : (frame ++ (mmeHead sec.dot11wCipher sec.dot11wBIPKeyid
      (sec.dot11wBIPtxpn + 1).toNat ++ micField sec.dot11wCipher
      (sec.dot11wBIPtxpn + 1).toNat)).take (frame.length + 10) =
      frame ++ mmeHead sec.dot11wCipher sec.dot11wBIPKeyid (sec.dot11wBIPtxpn + 1).toNat := by
    rw [← List.append_assoc]
    exact List.take_left' (by simp)
  rw [hlen, htake, bipAad_append h, List.drop_append_of_le_length (by omega), List.append_assoc]
  rfl

theorem bipProtect_sec (P : MicPrimitive) (sec : SecurityPriv) (frame : List Byte) :
    (bipProtect P sec frame).2 = { sec with dot11wBIPtxpn := sec.dot11wBIPtxpn + 1 } := rfl

section Sealed
variable {m : List Byte}

theorem mmePos_sealed (hm : m.length = micLen sec.dot11wCipher) :
    mmePos sec.dot11wCipher (frame ++
      (mmeHead sec.dot11wCipher sec.dot11wBIPKeyid (nextPn sec) ++ m)) = frame.length := by
  unfold mmePos
  rcases micLen_cases sec.dot11wCipher with h | h <;> simp [h, hm]

theorem drop_sealed (n : ℕ) :
    (frame ++ (mmeHead sec.dot11wCipher sec.dot11wBIPKeyid (nextPn sec) ++ m)).drop
        (frame.length + n) =
      (mmeHead sec.dot11wCipher sec.dot11wBIPKeyid (nextPn sec) ++ m).drop n := by
  rw [List.drop_append, List.drop_of_length_le (by omega)]
  simp

theorem pktIpn_sealed (hm : m.length = micLen sec.dot11wCipher) :
    pktIpn sec.dot11wCipher (frame ++
      (mmeHead sec.dot11wCipher sec.dot11wBIPKeyid (nextPn sec) ++ m)) = nextPn sec % 2 ^ 48 := by
  unfold pktIpn
  rw [mmePos_sealed hm, drop_sealed]
  have htake : (leBytes 6 (nextPn sec) ++ m).take 6 = leBytes 6 (nextPn sec) :=
    List.take_left' (length_leBytes 6 _)
  simp only [mmeHead, List.cons_append, List.nil_append, List.drop_succ_cons, List.drop_zero]
  rw [htake, ofLe_leBytes]
  norm_num

/-- What the receiver decides about a frame with an MME of the sender's key. -/
theorem rtwBipVerify_sealed (h : 24 ≤ frame.length) (hm : m.length = micLen sec.dot11wCipher)
    (ipn : ℕ) :
    let whdr := frame ++ (mmeHead sec.dot11wCipher sec.dot11wBIPKeyid (nextPn sec) ++ m)
    rtwBipVerify P sec.dot11wCipher whdr.length whdr (sec.dot11wBIPKey sec.dot11wBIPKeyid)
        sec.dot11wBIPKeyid ipn =
      if nextPn sec % 2 ^ 48 ≤ ipn then (.fail, ipn)
      else if frameMic P sec frame (receivedData sec frame) = m then
        (.success, nextPn sec % 2 ^ 48)
      else (.fail, ipn) := by
  intro whdr
  have hpos : mmePos sec.dot11wCipher whdr = frame.length := mmePos_sealed hm
  have hflen : whdr.length = frame.length + (10 + micLen sec.dot11wCipher) := by
    simp [whdr, hm]
  have hie : whdr.getD frame.length 0 = mmeIe := by
    simp [whdr, mmeHead]
  have hkey : ofLe ((whdr.drop (frame.length + 2)).take 2) = sec.dot11wBIPKeyid := by
    have hk : (BitVec.ofNat 8 (sec.dot11wBIPKeyid : ℕ)).toNat = sec.dot11wBIPKeyid :=
      Nat.mod_eq_of_lt (by omega)
    rw [drop_sealed]
    simp only [mmeHead, List.cons_append, List.nil_append, List.drop_succ_cons, List.drop_zero,
      List.take_succ_cons, List.take_zero, ofLe, hk]
    rfl
  have hbody : (whdr.drop 24).take (whdr.length - 24 - micLen sec.dot11wCipher) =
      frame.drop 24 ++ mmeHead sec.dot11wCipher sec.dot11wBIPKeyid (nextPn sec) := by
    simp only [whdr]
    rw [List.drop_append_of_le_length h, ← List.append_assoc (frame.drop 24)]
    refine List.take_left' ?_
    simp [hm]
    omega
  have hmic : whdr.drop (whdr.length - micLen sec.dot11wCipher) = m := by
    rw [show whdr.length - micLen sec.dot11wCipher = frame.length + 10 by omega, drop_sealed]
    exact List.drop_left' (length_mmeHead _ _ _)
  unfold rtwBipVerify
  dsimp only
  rw [if_neg (by omega), hpos, hie, if_neg (by simp), hkey, if_neg (by simp), hbody, hmic,
    pktIpn_sealed hm, bipAad_append h, List.append_assoc,
    rtwCalculateBipMic_tail P h hm (length_micField _ (nextPn sec))]
  rfl

end Sealed

/-- The two sides compute the MIC over the same data exactly when the packet number has no more
than 48 bits. -/
theorem sentData_eq_iff : sentData sec frame = receivedData sec frame ↔ nextPn sec < 2 ^ 48 := by
  have hpn : nextPn sec < 2 ^ 64 := (sec.dot11wBIPtxpn + 1).isLt
  unfold sentData receivedData
  rw [List.append_cancel_left_eq, List.append_cancel_left_eq, List.append_cancel_left_eq]
  have hrep : List.replicate (micLen sec.dot11wCipher) (0 : Byte) =
      List.replicate 2 0 ++ List.replicate (micLen sec.dot11wCipher - 2) 0 := by
    rcases micLen_cases sec.dot11wCipher with h | h <;> rw [h] <;> rfl
  rw [micField, hrep, List.append_cancel_right_eq]
  constructor
  · intro h
    have := leBytes_eq_zero h
    omega
  · intro h
    rw [show nextPn sec / 256 ^ 6 = 0 by omega]
    exact leBytes_zero 2

end Verify

section Accept
variable {P : MicPrimitive} {sec : SecurityPriv} {frame : List Byte} {ipn : ℕ}

/-- A robust management frame for a group, with an integrity key installed. -/
structure BipFrame (sec : SecurityPriv) (frame : List Byte) : Prop where
  header : 24 ≤ frame.length
  key : sec.binstallBIPkey = true
  robust : subtype frame = wifiDeauth ∨ subtype frame = wifiDisassoc ∨
    subtype frame = wifiAction ∧ categoryIsNonRobust (frame.getD 24 0) = false ∧
      categoryIsGroupPrivacy (frame.getD 24 0) = false

theorem coalesce_bip (P : MicPrimitive) (h : BipFrame sec frame) :
    rtwMgmtXmitframeCoalesce P sec true frame =
      (.bip (bipProtect P sec frame).1, (bipProtect P sec frame).2) := by
  unfold rtwMgmtXmitframeCoalesce
  have hkey := h.key
  obtain hs | hs | ⟨hs, hn, hg⟩ := h.robust
  · simp [hs, hkey, wifiDeauth, wifiAction]
  · simp [hs, hkey, wifiDisassoc, wifiAction, wifiDeauth]
  · simp only [hs, hn, hg, hkey, ne_eq, not_true_eq_false, and_false, if_false, Bool.false_eq_true,
      Bool.not_true]

/-- The receiver's decision on a frame of the sender. -/
def verify (P : MicPrimitive) (sec : SecurityPriv) (ipn : ℕ) (whdr : List Byte) : Ret × ℕ :=
  rtwBipVerify P sec.dot11wCipher whdr.length whdr (sec.dot11wBIPKey sec.dot11wBIPKeyid)
    sec.dot11wBIPKeyid ipn

/-- The frame body in front of the MME. -/
def deliveredBody (gmcs : BipCipher) (whdr : List Byte) : List Byte :=
  (whdr.drop 24).take (mmePos gmcs whdr - 24)

/-- Whatever the primitive, the frame sent for `frame` is accepted with its body when its packet
number is above the stored one. -/
def Verified (sec : SecurityPriv) (frame : List Byte) (ipn : ℕ) : Prop :=
  ∀ P out sec', rtwMgmtXmitframeCoalesce P sec true frame = (.bip out, sec') →
    ipn < pktIpn sec.dot11wCipher out →
    verify P sec ipn out = (.success, pktIpn sec.dot11wCipher out) ∧
      deliveredBody sec.dot11wCipher out = frame.drop 24

theorem pktIpn_protect (P : MicPrimitive) (h : 24 ≤ frame.length) :
    pktIpn sec.dot11wCipher (bipProtect P sec frame).1 = nextPn sec % 2 ^ 48 := by
  rw [bipProtect_frame h]
  exact pktIpn_sealed (length_frameMic _ _ _ _)

theorem deliveredBody_protect (P : MicPrimitive) (h : 24 ≤ frame.length) :
    deliveredBody sec.dot11wCipher (bipProtect P sec frame).1 = frame.drop 24 := by
  rw [bipProtect_frame h]
  unfold deliveredBody
  rw [mmePos_sealed (length_frameMic _ _ _ _), List.drop_append_of_le_length h]
  exact List.take_left' (by simp)

theorem verify_protect (P : MicPrimitive) (h : 24 ≤ frame.length) (ipn : ℕ) :
    verify P sec ipn (bipProtect P sec frame).1 =
      if nextPn sec % 2 ^ 48 ≤ ipn then (.fail, ipn)
      else if frameMic P sec frame (receivedData sec frame) =
          frameMic P sec frame (sentData sec frame) then (.success, nextPn sec % 2 ^ 48)
      else (.fail, ipn) := by
  rw [bipProtect_frame h]
  exact rtwBipVerify_sealed h (length_frameMic _ _ _ _) ipn

/-- A primitive that tells one string from all others. -/
def telling (data : List Byte) : MicPrimitive where
  mic _ _ _ d := if d = data then List.replicate 16 1 else List.replicate 16 0
  length_mic _ _ _ d := by
    split <;> rfl

theorem frameMic_telling (sec : SecurityPriv) (frame data d : List Byte) :
    frameMic (telling data) sec frame d =
      List.replicate (micLen sec.dot11wCipher) (if d = data then 1 else 0) := by
  have hmin : min (micLen sec.dot11wCipher) 16 = micLen sec.dot11wCipher := by
    rcases micLen_cases sec.dot11wCipher with h | h <;> rw [h] <;> rfl
  unfold frameMic rtwCalculateBipMic telling
  by_cases hd : d = data
  · cases sec.dot11wCipher <;> simp [hd, micLen]
  · cases sec.dot11wCipher <;> simp [hd, micLen]

theorem verified_iff (h : BipFrame sec frame) :
    Verified sec frame ipn ↔ nextPn sec < 2 ^ 48 ∨ nextPn sec % 2 ^ 48 ≤ ipn := by
  constructor
  · intro hver
    by_contra hcon
    push Not at hcon
    obtain ⟨hbig, hnew⟩ := hcon
    have hne : receivedData sec frame ≠ sentData sec frame := fun heq =>
      absurd (sentData_eq_iff.mp heq.symm) (by omega)
    have hacc := (hver (telling (sentData sec frame)) _ _ (coalesce_bip _ h)
      (by rw [pktIpn_protect _ h.header]; exact hnew)).1
    rw [verify_protect _ h.header, if_neg (by omega), frameMic_telling, frameMic_telling,
      if_neg hne, if_pos rfl, if_neg] at hacc
    · cases hacc
    · intro hrep
      rcases micLen_cases sec.dot11wCipher with hl | hl <;> rw [hl] at hrep <;>
        exact absurd hrep (by decide)
  · intro hcond P out sec' hout hnew
    rw [coalesce_bip P h] at hout
    obtain ⟨rfl, -⟩ : (bipProtect P sec frame).1 = out ∧ _ := by simpa using hout
    rw [pktIpn_protect P h.header] at hnew ⊢
    have hdata : sentData sec frame = receivedData sec frame :=
      sentData_eq_iff.mpr (hcond.resolve_right (by omega))
    refine ⟨?_, deliveredBody_protect P h.header⟩
    rw [verify_protect P h.header, if_neg (by omega), hdata, if_pos rfl]

end Accept

section Link

/-- A sender and a receiver that share the key: the receiver's stored packet number, and the
frames sent so far. -/
structure Link where
  sec : SecurityPriv
  ipn : ℕ
  sent : List (List Byte)

/-- A new frame is sent and delivered, or an earlier one is delivered again. -/
inductive LinkEvent
  | send (frame : List Byte)
  | replay (i : ℕ)

def Link.step (P : MicPrimitive) (l : Link) : LinkEvent → Link
  | .send frame =>
      match rtwMgmtXmitframeCoalesce P l.sec true frame with
      | (.bip out, sec) =>
          { sec := sec, ipn := (verify P l.sec l.ipn out).2, sent := l.sent ++ [out] }
      | (_, sec) => { l with sec := sec }
  | .replay i =>
      match l.sent[i]? with
      | none => l
      | some out => { l with ipn := (verify P l.sec l.ipn out).2 }

/-- A frame that is sent takes a higher packet number than the last and is accepted with its
body; a frame delivered again is not accepted. -/
def Link.Good (P : MicPrimitive) (l : Link) : LinkEvent → Prop
  | .send frame =>
      ∃ out sec', rtwMgmtXmitframeCoalesce P l.sec true frame = (.bip out, sec') ∧
        l.sec.dot11wBIPtxpn < sec'.dot11wBIPtxpn ∧ (verify P l.sec l.ipn out).1 = .success ∧
        deliveredBody l.sec.dot11wCipher out = frame.drop 24
  | .replay i => ∀ out ∈ l.sent[i]?, (verify P l.sec l.ipn out).1 ≠ .success

/-- The number of frames sent. -/
def sends : List LinkEvent → ℕ
  | [] => 0
  | .send _ :: es => sends es + 1
  | .replay _ :: es => sends es

variable {P : MicPrimitive} {sec : SecurityPriv}

theorem verify_old {ipn : ℕ} {whdr : List Byte} (h : pktIpn sec.dot11wCipher whdr ≤ ipn) :
    (verify P sec ipn whdr).1 ≠ .success ∧ (verify P sec ipn whdr).2 = ipn := by
  unfold verify rtwBipVerify
  dsimp only
  split_ifs <;> simp

/-- Between events: the stored packet number is not above the sender's, and that of no frame sent
is above the stored one. -/
structure LinkInv (l : Link) : Prop where
  ipn_le : l.ipn ≤ l.sec.dot11wBIPtxpn.toNat
  sent_le : ∀ out ∈ l.sent, pktIpn l.sec.dot11wCipher out ≤ l.ipn

theorem LinkInv.send {l : Link} (h : LinkInv l) {frame : List Byte} (hf : BipFrame l.sec frame)
    (hpn : l.sec.dot11wBIPtxpn.toNat + 1 < 2 ^ 48) :
    l.Good P (.send frame) ∧
      LinkInv (l.step P (.send frame)) ∧
      (l.step P (.send frame)).sec =
        { l.sec with dot11wBIPtxpn := l.sec.dot11wBIPtxpn + 1 } := by
  have hnext : nextPn l.sec = l.sec.dot11wBIPtxpn.toNat + 1 := by
    unfold nextPn
    rw [BitVec.toNat_add]
    exact Nat.mod_eq_of_lt (by simp; omega)
  have hmod : nextPn l.sec % 2 ^ 48 = nextPn l.sec := Nat.mod_eq_of_lt (by omega)
  have hle := h.ipn_le
  have hver : verify P l.sec l.ipn (bipProtect P l.sec frame).1 = (.success, nextPn l.sec) := by
    rw [verify_protect P hf.header, hmod, if_neg (by omega),
      sentData_eq_iff.mpr (show nextPn l.sec < 2 ^ 48 by omega), if_pos rfl]
  have hcoal := coalesce_bip P hf
  have hstep : l.step P (.send frame) =
      { sec := { l.sec with dot11wBIPtxpn := l.sec.dot11wBIPtxpn + 1 }
        ipn := nextPn l.sec
        sent := l.sent ++ [(bipProtect P l.sec frame).1] } := by
    simp only [Link.step, hcoal, hver, bipProtect_sec]
  refine ⟨⟨_, _, hcoal, ?_, by rw [hver], deliveredBody_protect P hf.header⟩, ?_, ?_⟩
  · rw [bipProtect_sec, BitVec.lt_def]
    change _ < nextPn l.sec
    omega
  · rw [hstep]
    refine ⟨?_, ?_⟩
    · change nextPn l.sec ≤ (l.sec.dot11wBIPtxpn + 1).toNat
      exact le_rfl
    · intro out hout
      rcases List.mem_append.mp hout with hout | hout
      · have := h.sent_le out hout
        change pktIpn l.sec.dot11wCipher out ≤ nextPn l.sec
        omega
      · obtain rfl : out = (bipProtect P l.sec frame).1 := by simpa using hout
        change pktIpn l.sec.dot11wCipher _ ≤ nextPn l.sec
        rw [pktIpn_protect P hf.header, hmod]
  · rw [hstep]

theorem LinkInv.replay {l : Link} (h : LinkInv l) (i : ℕ) :
    l.Good P (.replay i) ∧ l.step P (.replay i) = l := by
  have hold : ∀ out ∈ l.sent[i]?, pktIpn l.sec.dot11wCipher out ≤ l.ipn := fun out hout =>
    h.sent_le out (List.mem_of_getElem? hout)
  refine ⟨fun out hout => (verify_old (hold out hout)).1, ?_⟩
  cases hi : l.sent[i]? with
  | none => simp only [Link.step, hi]
  | some out => simp only [Link.step, hi, (verify_old (hold out hi)).2]

theorem BipFrame.next {frame : List Byte} (h : BipFrame sec frame) (pn : BitVec 64) :
    BipFrame { sec with dot11wBIPtxpn := pn } frame := ⟨h.header, h.key, h.robust⟩

/-- Every frame sent is accepted, and none twice, while the packet numbers last. -/
theorem LinkInv.run {l : Link} (h : LinkInv l) (es : List LinkEvent)
    (hes : ∀ frame, .send frame ∈ es → BipFrame l.sec frame)
    (hpn : l.sec.dot11wBIPtxpn.toNat + sends es < 2 ^ 48) :
    Along (Link.step P) (Link.Good P) l es := by
  induction es generalizing l with
  | nil => trivial
  | cons e es ih =>
    cases e with
    | send frame =>
      simp only [sends] at hpn
      obtain ⟨hgood, hinv, hsec⟩ := h.send (P := P) (hes frame (by simp)) (by omega)
      refine ⟨hgood, ih hinv ?_ ?_⟩
      · intro g hg
        rw [hsec]
        exact (hes g (by simp [hg])).next _
      · rw [hsec]
        have : (l.sec.dot11wBIPtxpn + 1).toNat = l.sec.dot11wBIPtxpn.toNat + 1 := by
          rw [BitVec.toNat_add]
          exact Nat.mod_eq_of_lt (by simp; omega)
        dsimp only
        omega
    | replay i =>
      obtain ⟨hgood, hstep⟩ := h.replay (P := P) i
      refine ⟨hgood, ?_⟩
      rw [hstep]
      exact ih h (fun g hg => hes g (by simp [hg])) hpn

end Link

/-- A protected frame whose packet number is above the stored one is accepted with its body,
whatever the MIC primitive, exactly when the packet number fits the 48 bits of its field; while
the packet numbers do, all frames sent are accepted in order and none a second time. -/
theorem bip_accepted_iff (sec : SecurityPriv) :
    (∀ (frame : List Byte) (ipn : ℕ), BipFrame sec frame →
      (Verified sec frame ipn ↔ nextPn sec < 2 ^ 48 ∨ nextPn sec % 2 ^ 48 ≤ ipn)) ∧
    ∀ (P : MicPrimitive) (ipn : ℕ) (es : List LinkEvent), ipn ≤ sec.dot11wBIPtxpn.toNat →
      (∀ frame, .send frame ∈ es → BipFrame sec frame) →
      sec.dot11wBIPtxpn.toNat + sends es < 2 ^ 48 →
      Along (Link.step P) (Link.Good P) ⟨sec, ipn, []⟩ es := by
  refine ⟨fun frame ipn h => verified_iff h, ?_⟩
  intro P ipn es hipn hes hpn
  have hinv : LinkInv ⟨sec, ipn, []⟩ := ⟨hipn, fun out hout => by cases hout⟩
  exact hinv.run es hes hpn

/-- A key of sixteen bytes in slot 4, after `pn` protected frames. -/
def igtk (pn : BitVec 64) : SecurityPriv where
  binstallBIPkey := true
  dot11wCipher := .cmac128
  dot11wBIPKeyid := 4
  dot11wBIPKey := fun _ => List.replicate 16 0x5A
  dot11wBIPtxpn := pn

/-- A deauthentication for everybody. -/
def deauth : List Byte :=
  [0xC0, 0, 0, 0] ++ List.replicate 6 0xFF ++ List.replicate 12 0x22 ++ [0, 0] ++ [3, 0]

theorem bipFrame_deauth (pn : BitVec 64) : BipFrame (igtk pn) deauth := by
  refine ⟨by decide, rfl, Or.inl (by decide)⟩

theorem bip_accepted_iff_deauth :
    Verified (igtk 41) deauth 41 ∧
      Along (Link.step (telling [])) (Link.Good (telling [])) ⟨igtk 41, 41, []⟩
        [.send deauth, .replay 0, .send deauth] := by
  have h := bip_accepted_iff (igtk 41)
  refine ⟨(h.1 deauth 41 (bipFrame_deauth 41)).mpr (Or.inl (by decide)), ?_⟩
  refine h.2 (telling []) 41 _ (by decide) ?_ (by decide)
  intro frame hf
  obtain rfl : frame = deauth := by simpa using hf
  exact bipFrame_deauth 41

/-- Packet number `2 ^ 48 + 1` is sent as `1` with a byte of it left in the MIC field. -/
theorem bip_rejects_long_pn :
    ¬ ∀ (sec : SecurityPriv) (frame : List Byte) (ipn : ℕ), BipFrame sec frame →
      Verified sec frame ipn := by
  intro h
  have hver := h (igtk (BitVec.ofNat 64 (2 ^ 48))) deauth 0 (bipFrame_deauth _)
  rw [verified_iff (bipFrame_deauth _)] at hver
  revert hver
  decide

end Rtl8821cu.Bip
