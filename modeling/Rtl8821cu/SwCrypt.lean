import Rtl8821cu.Arc4
import Rtl8821cu.TkipKey
import Rtl8821cu.XmitFrag

/-! Software encryption and decryption with WEP and TKIP (`core/rtw_security.c`), and `decryptor`
(`core/rtw_recv.c`). -/
namespace Rtl8821cu.SwCrypt
open Store LeWord StreamCipher Arc4 TkipKey XmitFrag

/-- The keys of `struct security_priv`; a default key has `dot11DefKeylen` bytes. -/
structure SecurityPriv where
  dot11PrivacyKeyIndex : ℕ
  dot11DefKey : ℕ → List (BitVec 8)
  dot118021XGrpKeyid : ℕ
  dot118021XGrpKey : ℕ → ℕ → BitVec 8
  binstallGrpkey : Bool

/-- The attributes of a frame to encrypt. -/
structure PktAttrib where
  encrypt : Encrypt
  hdrlen : ℕ
  nrFrags : ℕ
  lastTxcmdsz : ℕ
  ra : Mac
  ta : Mac
  uncstKey : ℕ → BitVec 8

/-- `wepkey`: the first bytes of the IV and the key. -/
def wepkey (key : List (BitVec 8)) (iv : ℕ → BitVec 8) : List (BitVec 8) :=
  [iv 0, iv 1, iv 2] ++ key

def getTkipPn (iv : ℕ → BitVec 8) : BitVec 48 := iv 7 ++ iv 6 ++ iv 5 ++ iv 4 ++ iv 0 ++ iv 2

/-- `crc` of a body, as it is sent. -/
def icv (body : List (BitVec 8)) : List (BitVec 8) := bytes (getcrc32 body)

/-- The body and its ICV, encrypted one after the other. -/
def sealFragment (key body : List (BitVec 8)) : List (BitVec 8) :=
  let payload := arcfourEncrypt (arcfourInit key) body
  payload.1 ++ (arcfourEncrypt payload.2 (icv body)).1

/-- The loop of `rtw_wep_encrypt` and of `rtw_tkip_encrypt` over the fragments that are left;
`rc4` makes the key of an IV. -/
def encryptFragments (A : PktAttrib) (fragLen : ℕ) (rc4 : (ℕ → BitVec 8) → List (BitVec 8)) :
    ℕ → ℕ → (ℕ → BitVec 8) → ℕ → BitVec 8
  | 0, _, mem => mem
  | left + 1, pframe, mem =>
    let iv := pframe + A.hdrlen
    let payload := pframe + A.encrypt.ivLen + A.hdrlen
    let size := if left = 0 then A.lastTxcmdsz else fragLen
    let length := size - A.hdrlen - A.encrypt.ivLen - A.encrypt.icvLen
    encryptFragments A fragLen rc4 left (rnd4 (pframe + fragLen))
      (store mem payload (sealFragment (rc4 fun i => mem (iv + i)) (load mem payload length)))

/-- The RC4 key of `rtw_wep_encrypt`. -/
def wepTxKey (sec : SecurityPriv) : (ℕ → BitVec 8) → List (BitVec 8) :=
  wepkey (sec.dot11DefKey sec.dot11PrivacyKeyIndex)

def rtwWepEncrypt (sec : SecurityPriv) (A : PktAttrib) (fragLen pframe : ℕ)
    (mem : ℕ → BitVec 8) : ℕ → BitVec 8 :=
  if A.encrypt = .wep40 ∨ A.encrypt = .wep104 then
    encryptFragments A fragLen (wepTxKey sec) A.nrFrags pframe mem
  else mem

/-- The RC4 key of `rtw_tkip_encrypt`. -/
def tkipTxKey (sec : SecurityPriv) (A : PktAttrib) (iv : ℕ → BitVec 8) : List (BitVec 8) :=
  rc4key (if A.ra.isMcast then sec.dot118021XGrpKey sec.dot118021XGrpKeyid else A.uncstKey) A.ta
    (getTkipPn iv)

def rtwTkipEncrypt (sec : SecurityPriv) (A : PktAttrib) (fragLen pframe : ℕ)
    (mem : ℕ → BitVec 8) : ℕ → BitVec 8 :=
  if A.encrypt = .tkip then encryptFragments A fragLen (tkipTxKey sec A) A.nrFrags pframe mem
  else mem

/-- A received frame: `rx_data` with its length, and the attributes. -/
structure RecvFrame where
  data : List (BitVec 8)
  hdrlen : ℕ
  encrypt : Encrypt
  bdecrypted : Bool
  ra : Mac
  ta : Mac

def RecvFrame.iv (f : RecvFrame) (i : ℕ) : BitVec 8 := f.data.getD (f.hdrlen + i) 0

/-- Where the encrypted part starts. -/
def RecvFrame.payload (f : RecvFrame) : ℕ := f.hdrlen + f.encrypt.ivLen

/-- `key_index`, as `decryptor` reads it. -/
def RecvFrame.keyIndex (f : RecvFrame) : ℕ := (f.iv 3).toNat / 64 % 4

/-- What becomes of a frame. With less than header and IV the length of the payload is negative, and
as a `u32` it makes the cipher run over the memory behind the frame. -/
inductive Outcome
  | fault
  | rejected
  | accepted (data : List (BitVec 8))

/-- What the receiver knows: its keys, the unicast key of a station with an entry, and what
`rtw_aes_decrypt` and `rtw_gcmp_decrypt` make of a frame. -/
structure RecvEnv where
  sec : SecurityPriv
  stainfo : Mac → Option (ℕ → BitVec 8)
  other : RecvFrame → Outcome

/-- The frame with its payload, ICV included, decrypted in place. -/
def RecvFrame.decrypted (f : RecvFrame) (key : List (BitVec 8)) : List (BitVec 8) :=
  f.data.take f.payload ++ (arcfourEncrypt (arcfourInit key) (f.data.drop f.payload)).1

/-- `rtw_wep_decrypt`, which returns nothing: the ICV is computed and not compared. -/
def rtwWepDecrypt (env : RecvEnv) (f : RecvFrame) : Outcome :=
  if f.data.length < f.payload then .fault
  else .accepted (f.decrypted (wepkey (env.sec.dot11DefKey f.keyIndex) f.iv))

def rtwTkipDecrypt (env : RecvEnv) (f : RecvFrame) : Outcome :=
  match env.stainfo f.ta with
  | none => .rejected
  | some uncstKey =>
    if f.ra.isMcast && !env.sec.binstallGrpkey then .rejected
    else
      let prwskey := if f.ra.isMcast then env.sec.dot118021XGrpKey f.keyIndex else uncstKey
      if f.data.length < f.payload then .fault
      else
        let data := f.decrypted (rc4key prwskey f.ta (getTkipPn f.iv))
        let crc := icv ((data.drop f.payload).take (data.length - f.payload - 4))
        if crc = data.drop (data.length - 4) then .accepted data else .rejected

/-- `decryptor`, outside a mesh. -/
def decryptor (env : RecvEnv) (f : RecvFrame) : Outcome :=
  if f.bdecrypted then .accepted f.data
  else
    match f.encrypt with
    | .noPrivacy => .accepted f.data
    | .wep40 | .wep104 => rtwWepDecrypt env f
    | .tkip => rtwTkipDecrypt env f
    | .aes | .gcmp | .gcmp256 | .ccmp256 => env.other f

end Rtl8821cu.SwCrypt
