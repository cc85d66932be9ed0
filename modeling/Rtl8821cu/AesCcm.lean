import Rtl8821cu.AesModes

/-! AES-CCM (`core/crypto/aes-ccm.c`) with lengths of two bytes, and that `aes_ccm_ad` accepts
exactly what `aes_ccm_ae` makes. -/
namespace Rtl8821cu.Ccm
open Aes
open CounterMode (crypt crypt_of_le crypt_eq_iff)

/-- `WPA_PUT_BE16`. -/
def putBe16 (n : ℕ) : List Byte := [BitVec.ofNat 8 (n / 256), BitVec.ofNat 8 n]

/-- `aes_ccm_auth_start`: `B_0`, and the additional data with its length in at most two blocks. -/
def aesCcmAuthStart (aes : Block → Block) (M L : ℕ) (nonce aad : List Byte) (plainLen : ℕ) :
    Block :=
  let adata : Byte := if aad.length ≠ 0 then 0x40 else 0
  let flags := adata ||| BitVec.ofNat 8 (((M - 2) / 2) <<< 3) |||
    BitVec.ofNat 8 (L - 1)
  let x := aes (Block.ofList (flags :: (nonce.take (15 - L) ++ putBe16 plainLen)))
  if aad.length = 0 then x
  else
    let aadBuf := putBe16 aad.length ++ aad
    let x := aes (Block.ofList aadBuf ^^^ x)
    if aad.length > 14 then aes (Block.ofList (aadBuf.drop 16) ^^^ x) else x

def aesCcmAuth (aes : Block → Block) (data : List Byte) (x : Block) : Block :=
  absorb aes (data.length / 16) data x

/-- `A_i`, as `aes_ccm_encr_start` and `WPA_PUT_BE16` make it. -/
def counterBlock (L : ℕ) (nonce : List Byte) (i : ℕ) : Block :=
  Block.ofList (BitVec.ofNat 8 (L - 1) :: (nonce.take (15 - L) ++ putBe16 i))

def aesCcmEncr (aes : Block → Block) (L : ℕ) (nonce data : List Byte) : List Byte :=
  ctrBlocks aes (counterBlock L nonce) (data.length / 16) 1 data

/-- The first `M` bytes of a tag under `S_0`: `aes_ccm_encr_auth` and `aes_ccm_decr_auth`. -/
def aesCcmEncrAuth (aes : Block → Block) (M L : ℕ) (nonce t : List Byte) : List Byte :=
  List.zipWith (· ^^^ ·) (t.take M) (aes (counterBlock L nonce 0)).toList

/-- `aes_ccm_ae`: the cipher text and the tag. -/
def aesCcmAe (key nonce : List Byte) (M : ℕ) (plain aad : List Byte) :
    Option (List Byte × List Byte) :=
  if aad.length > 30 ∨ M > 16 then none
  else (aesEncryptInit key).map fun aes =>
    let x := aesCcmAuth aes plain (aesCcmAuthStart aes M 2 nonce aad plain.length)
    (aesCcmEncr aes 2 nonce plain, aesCcmEncrAuth aes M 2 nonce x.toList)

/-- `aes_ccm_ad`: the plain text, if the first `M` bytes of the tag are right. -/
def aesCcmAd (key nonce : List Byte) (M : ℕ) (crypt aad auth : List Byte) : Option (List Byte) :=
  if aad.length > 30 ∨ M > 16 then none
  else (aesEncryptInit key).bind fun aes =>
    let t := aesCcmEncrAuth aes M 2 nonce auth
    let plain := aesCcmEncr aes 2 nonce crypt
    let x := aesCcmAuth aes plain (aesCcmAuthStart aes M 2 nonce aad crypt.length)
    if x.toList.take M = t then some plain else none

section Ccm

variable {aes : Block → Block} {M L : ℕ} {nonce : List Byte}

theorem aesCcmEncr_eq_iff {l l' : List Byte} :
    aesCcmEncr aes L nonce l = l' ↔ aesCcmEncr aes L nonce l' = l := ctrBlocks_eq_iff

theorem length_aesCcmEncr (l : List Byte) : (aesCcmEncr aes L nonce l).length = l.length :=
  length_ctrBlocks 1 l

theorem aesCcmEncrAuth_eq_crypt (hM : M ≤ 16) (t : List Byte) :
    aesCcmEncrAuth aes M L nonce t =
      crypt 16 (fun _ => (aes (counterBlock L nonce 0)).toList) 0 (t.take M) := by
  have htake : (t.take M).length ≤ 16 := (List.length_take_le M t).trans hM
  exact (crypt_of_le (fun _ => length_toList (aes (counterBlock L nonce 0))) 0 htake).symm

/-- A tag is the expected one exactly if it is the one that is sent, taken apart. -/
theorem aesCcmEncrAuth_eq_iff (hM : M ≤ 16) {t auth : List Byte} (hauth : auth.length = M) :
    t.take M = aesCcmEncrAuth aes M L nonce auth ↔ aesCcmEncrAuth aes M L nonce t = auth := by
  rw [aesCcmEncrAuth_eq_crypt hM, aesCcmEncrAuth_eq_crypt hM, List.take_of_length_le hauth.le,
    eq_comm]
  exact crypt_eq_iff

/-- What `aes_ccm_ad` accepts is what `aes_ccm_ae` makes of the plain text it delivers. -/
theorem aesCcmAd_eq_some_iff {key aad crypt auth plain : List Byte} (hauth : auth.length = M) :
    aesCcmAd key nonce M crypt aad auth = some plain ↔
      aesCcmAe key nonce M plain aad = some (crypt, auth) := by
  by_cases hlen : aad.length > 30 ∨ M > 16
  · rw [aesCcmAd, aesCcmAe, if_pos hlen, if_pos hlen]
    simp
  · have hM : M ≤ 16 := by omega
    rw [aesCcmAd, aesCcmAe, if_neg hlen, if_neg hlen]
    cases aesEncryptInit key with
    | none => simp
    | some aes =>
      simp only [Option.bind_some, Option.map_some, Option.ite_none_right_eq_some,
        Option.some_inj, Prod.mk.injEq, aesCcmEncrAuth_eq_iff hM hauth]
      rw [and_comm, aesCcmEncr_eq_iff]
      refine and_congr_right fun hcrypt => ?_
      rw [aesCcmEncr_eq_iff.mp hcrypt, ← hcrypt, length_aesCcmEncr]

end Ccm

end Rtl8821cu.Ccm
