import Rtl8821cu.AesModes

/-! AES-SIV (`core/crypto/aes-siv.c`, `core/crypto/aes-omac1.c`, `core/crypto/aes-ctr.c`), and that
`aes_siv_decrypt` accepts exactly what `aes_siv_encrypt` makes. -/
namespace Rtl8821cu.Siv
open Aes

def zero : Block := Block.ofList []

/-- `gf_mulx` and `dbl`. -/
def gfMulx (pad : Block) : Block :=
  let l := pad.toList
  let shifted := Block.ofList
    (List.zipWith (fun a b : Byte => (a <<< 1) ||| (b >>> 7)) l (l.tail ++ [0]))
  if pad.c0.b0 &&& 0x80 ≠ 0 then
    { shifted with c3 := { shifted.c3 with b3 := shifted.c3.b3 ^^^ 0x87 } }
  else shifted

/-- The loop of `omac1_aes_vector` over full blocks, and what is left of the data. -/
def omacBlocks (aes : Block → Block) : ℕ → List Byte → Block → Block × List Byte
  | 0, l, cbc => (cbc, l)
  | n + 1, l, cbc =>
    let cbc := cbc ^^^ Block.ofList l
    omacBlocks aes n (l.drop 16) (if l.length > 16 then aes cbc else cbc)

/-- `omac1_aes_vector` for one element. -/
def omac1Aes (key data : List Byte) : Option Block :=
  (aesEncryptInit key).map fun aes =>
    let p := omacBlocks aes (data.length / 16) data zero
    let pad := gfMulx (aes zero)
    if p.2 ≠ [] ∨ data = [] then
      aes (gfMulx pad ^^^ (p.1 ^^^ Block.ofList (p.2 ++ [0x80])))
    else aes (pad ^^^ p.1)

/-- `xorend`, for data of at least a block. -/
def xorend (a : List Byte) (b : Block) : List Byte :=
  a.take (a.length - 16) ++ List.zipWith (· ^^^ ·) (a.drop (a.length - 16)) b.toList

/-- The loop of `aes_s2v` over all elements but the last. -/
def s2vLoop (key : List Byte) (tmp : Block) : List (List Byte) → Option Block
  | [] => some tmp
  | elem :: elems => (omac1Aes key elem).bind fun tmp2 => s2vLoop key (gfMulx tmp ^^^ tmp2) elems

def aesS2v (key : List Byte) (elems : List (List Byte)) : Option Block :=
  if elems = [] then omac1Aes key (List.replicate 15 0 ++ [1])
  else
    (omac1Aes key zero.toList).bind fun tmp =>
      (s2vLoop key tmp elems.dropLast).bind fun tmp =>
        let last := elems.getLastD []
        if last.length ≥ 16 then omac1Aes key (xorend last tmp)
        else omac1Aes key (gfMulx tmp ^^^ Block.ofList (last ++ [0x80])).toList

/-- The increment of the counter of `aes_ctr_encrypt`, from the last byte on. -/
def incBytes : List Byte → List Byte
  | [] => []
  | x :: l => if x + 1 ≠ 0 then (x + 1) :: l else 0 :: incBytes l

def incCounter (b : Block) : Block := Block.ofList (incBytes b.toList.reverse).reverse

def aesCtrEncrypt (key : List Byte) (nonce : Block) (data : List Byte) : Option (List Byte) :=
  (aesEncryptInit key).map fun aes =>
    ctrBlocks aes (fun i => incCounter^[i] nonce) (data.length / 16) 0 data

/-- The initial counter: two bits of the IV are cleared. -/
def maskIv (v : Block) : Block :=
  { v with
    c2 := { v.c2 with b0 := v.c2.b0 &&& 0x7f }
    c3 := { v.c3 with b0 := v.c3.b0 &&& 0x7f } }

/-- The number of elements or the length of the key is wrong. -/
def BadCall (key : List Byte) (elems : List (List Byte)) : Prop :=
  elems.length > 5 ∨ (key.length ≠ 32 ∧ key.length ≠ 48 ∧ key.length ≠ 64)

instance (key : List Byte) (elems : List (List Byte)) : Decidable (BadCall key elems) :=
  inferInstanceAs (Decidable (_ ∨ _))

def aesSivEncrypt (key pw : List Byte) (elems : List (List Byte)) : Option (List Byte) :=
  if BadCall key elems then none
  else
    let k1 := key.take (key.length / 2)
    let k2 := key.drop (key.length / 2)
    (aesS2v k1 (elems ++ [pw])).bind fun v =>
      (aesCtrEncrypt k2 (maskIv v) pw).map fun crypt => v.toList ++ crypt

def aesSivDecrypt (key ivCrypt : List Byte) (elems : List (List Byte)) : Option (List Byte) :=
  if ivCrypt.length < 16 ∨ BadCall key elems then none
  else
    let k1 := key.take (key.length / 2)
    let k2 := key.drop (key.length / 2)
    let iv := Block.ofList ivCrypt
    (aesCtrEncrypt k2 (maskIv iv) (ivCrypt.drop 16)).bind fun out =>
      (aesS2v k1 (elems ++ [out])).bind fun check => if check = iv then some out else none

section Siv

variable {key pw ivCrypt : List Byte} {elems : List (List Byte)}

theorem aesCtrEncrypt_eq_some_iff {nonce : Block} {l l' : List Byte} :
    aesCtrEncrypt key nonce l = some l' ↔ aesCtrEncrypt key nonce l' = some l := by
  rw [aesCtrEncrypt, aesCtrEncrypt]
  cases aesEncryptInit key with
  | none => simp
  | some aes =>
    rw [Option.map_some, Option.map_some, Option.some_inj, Option.some_inj]
    exact ctrBlocks_eq_iff

/-- What `aes_siv_decrypt` accepts is what `aes_siv_encrypt` makes of the plain text it delivers. -/
theorem aesSivDecrypt_eq_some_iff : aesSivDecrypt key ivCrypt elems = some pw ↔
    aesSivEncrypt key pw elems = some ivCrypt := by
  rw [aesSivDecrypt, aesSivEncrypt]
  by_cases hbad : BadCall key elems
  · simp [hbad]
  · by_cases hlen : ivCrypt.length < 16
    · rw [if_pos (Or.inl hlen), if_neg hbad]
      refine ⟨fun h => absurd h.symm (Option.some_ne_none pw), fun h => ?_⟩
      simp only [Option.bind_eq_some_iff, Option.map_eq_some_iff] at h
      obtain ⟨v, -, crypt, -, rfl⟩ := h
      rw [List.length_append, length_toList] at hlen
      omega
    · have hgood : ¬(ivCrypt.length < 16 ∨ BadCall key elems) := by
        rintro (h | h)
        · exact hlen h
        · exact hbad h
      have hparts : (Block.ofList ivCrypt).toList ++ ivCrypt.drop 16 = ivCrypt := by
        rw [toList_ofList (by omega), List.take_append_drop]
      rw [if_neg hgood, if_neg hbad]
      simp only [Option.bind_eq_some_iff, Option.map_eq_some_iff, Option.ite_none_right_eq_some,
        Option.some_inj]
      constructor
      · rintro ⟨out, hctr, check, hs2v, rfl, rfl⟩
        exact ⟨_, hs2v, _, aesCtrEncrypt_eq_some_iff.mp hctr, hparts⟩
      · rintro ⟨v, hs2v, crypt, hctr, rfl⟩
        have hfront : Block.ofList (v.toList ++ crypt) = v := rfl
        rw [hfront, List.drop_left' (length_toList v)]
        exact ⟨pw, aesCtrEncrypt_eq_some_iff.mp hctr, v, hs2v, rfl, rfl⟩

end Siv

end Rtl8821cu.Siv
