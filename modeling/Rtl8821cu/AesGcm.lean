import Rtl8821cu.AesModes

/-! AES-GCM (`core/crypto/aes-gcm.c`), and that `aes_gcm_ad` accepts exactly what `aes_gcm_ae`
makes. -/
namespace Rtl8821cu.Gcm
open Aes
open CounterMode (crypt crypt_of_le crypt_eq_iff)

def zeroBlock : Block := Block.ofList []

def inc32 (b : Block) : Block := { b with c3 := putu32 (getu32 b.c3 + 1) }

/-- A word of `shift_right_block`, with the last byte of the word before it. -/
def shiftRightWord (last : Byte) (c : Column) : Column :=
  putu32 (if last &&& 0x01 ≠ 0 then (getu32 c >>> 1) ||| 0x80000000 else getu32 c >>> 1)

def shiftRightBlock (v : Block) : Block where
  c0 := putu32 (getu32 v.c0 >>> 1)
  c1 := shiftRightWord v.c0.b3 v.c1
  c2 := shiftRightWord v.c1.b3 v.c2
  c3 := shiftRightWord v.c2.b3 v.c3

/-- The step of `gf_mult` for `V`. -/
def gfShift (v : Block) : Block :=
  if v.c3.b3 &&& 0x01 ≠ 0 then
    let w := shiftRightBlock v
    { w with c0 := { w.c0 with b0 := w.c0.b0 ^^^ 0xe1 } }
  else shiftRightBlock v

/-- The step of `gf_mult` for a bit of a byte. -/
def gfBit (x : Byte) (p : Block × Block) (j : ℕ) : Block × Block :=
  (if x &&& ((1 : Byte) <<< (7 - j)) ≠ 0 then p.1 ^^^ p.2 else p.1, gfShift p.2)

/-- The step for a byte. -/
def gfByte (p : Block × Block) (x : Byte) : Block × Block := (List.range 8).foldl (gfBit x) p

def gfMult (x y : Block) : Block := (x.toList.foldl gfByte (zeroBlock, y)).1

def ghash (h : Block) (x : List Byte) (y : Block) : Block :=
  absorb (fun y => gfMult y h) (x.length / 16) x y

def aesGctr (aes : Block → Block) (icb : Block) (x : List Byte) : List Byte :=
  ctrBlocks aes (fun i => inc32^[i] icb) (x.length / 16) 0 x

/-- `WPA_PUT_BE64`. -/
def putBe64 (n : ℕ) : List Byte :=
  (List.range 8).map fun i => ((BitVec.ofNat 64 n) >>> (8 * (7 - i))).setWidth 8

def aesGcmPrepareJ0 (iv : List Byte) (h : Block) : Block :=
  if iv.length = 12 then Block.ofList (iv ++ [0, 0, 0, 1])
  else ghash h (putBe64 0 ++ putBe64 (iv.length * 8)) (ghash h iv zeroBlock)

def aesGcmGctr (aes : Block → Block) (j0 : Block) (data : List Byte) : List Byte :=
  if data.length = 0 then [] else aesGctr aes (inc32 j0) data

def aesGcmGhash (h : Block) (aad crypt : List Byte) : Block :=
  ghash h (putBe64 (aad.length * 8) ++ putBe64 (crypt.length * 8))
    (ghash h crypt (ghash h aad zeroBlock))

/-- `aes_gcm_ae`: the cipher text and the tag. -/
def aesGcmAe (key iv plain aad : List Byte) : Option (List Byte × List Byte) :=
  (aesEncryptInit key).map fun aes =>
    let h := aes zeroBlock
    let j0 := aesGcmPrepareJ0 iv h
    let crypt := aesGcmGctr aes j0 plain
    (crypt, aesGctr aes j0 (aesGcmGhash h aad crypt).toList)

/-- `aes_gcm_ad`: the plain text, if the tag is right. -/
def aesGcmAd (key iv crypt aad tag : List Byte) : Option (List Byte) :=
  (aesEncryptInit key).bind fun aes =>
    let h := aes zeroBlock
    let j0 := aesGcmPrepareJ0 iv h
    if tag.take 16 = aesGctr aes j0 (aesGcmGhash h aad crypt).toList then
      some (aesGcmGctr aes j0 crypt)
    else none

section Gcm

variable {aes : Block → Block} {j0 : Block}

theorem aesGcmGctr_eq (data : List Byte) :
    aesGcmGctr aes j0 data = aesGctr aes (inc32 j0) data := by
  rw [aesGcmGctr]
  split
  · rename_i hnil
    rw [List.eq_nil_of_length_eq_zero hnil]
    rfl
  · rfl

theorem aesGcmGctr_eq_iff {l l' : List Byte} :
    aesGcmGctr aes j0 l = l' ↔ aesGcmGctr aes j0 l' = l := by
  rw [aesGcmGctr_eq, aesGcmGctr_eq]
  exact ctrBlocks_eq_iff

/-- What `aes_gcm_ad` accepts is what `aes_gcm_ae` makes of the plain text it delivers. -/
theorem aesGcmAd_eq_some_iff {key iv aad crypt tag plain : List Byte} (htag : tag.length = 16) :
    aesGcmAd key iv crypt aad tag = some plain ↔
      aesGcmAe key iv plain aad = some (crypt, tag) := by
  rw [aesGcmAd, aesGcmAe, List.take_of_length_le htag.le]
  cases aesEncryptInit key with
  | none => simp
  | some aes =>
    simp only [Option.bind_some, Option.map_some, Option.ite_none_right_eq_some,
      Option.some_inj, Prod.mk.injEq]
    rw [and_comm, aesGcmGctr_eq_iff]
    refine and_congr_right fun hcrypt => ?_
    rw [hcrypt, eq_comm]

end Gcm

end Rtl8821cu.Gcm
