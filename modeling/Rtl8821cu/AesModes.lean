import Rtl8821cu.Aes
import Rtl8821cu.LibCtr

/-! The two loops over the blocks of a text that the modes of AES are made of. -/
namespace Rtl8821cu.Aes
open CounterMode

/-- The blocks of a text, the last one filled up with zeros, go through a function one by one:
`aes_ccm_auth` and `ghash`. -/
def absorb (f : Block → Block) : ℕ → List Byte → Block → Block
  | 0, l, x => if l = [] then x else f (x ^^^ Block.ofList l)
  | n + 1, l, x => absorb f n (l.drop 16) (f (x ^^^ Block.ofList l))

/-- The blocks of a text are combined with the ciphers of the counter blocks, the last one as far as
it goes: `aes_ccm_encr`, `aes_gctr` and `aes_ctr_encrypt`. -/
def ctrBlocks (aes : Block → Block) (counter : ℕ → Block) : ℕ → ℕ → List Byte → List Byte
  | 0, i, l => if l = [] then [] else List.zipWith (· ^^^ ·) l (aes (counter i)).toList
  | n + 1, i, l =>
    (aes (counter i) ^^^ Block.ofList l).toList ++ ctrBlocks aes counter n (i + 1) (l.drop 16)

section Bytes

variable {b c : Block} {l : List Byte}

@[simp] theorem length_toList (b : Block) : b.toList.length = 16 := rfl

theorem toList_xor (b c : Block) :
    (b ^^^ c).toList = List.zipWith (· ^^^ ·) b.toList c.toList := rfl

/-- The first 16 bytes of a text. -/
theorem toList_ofList (h : 16 ≤ l.length) : (Block.ofList l).toList = l.take 16 := by
  refine List.ext_getElem (by simp [h]) fun i hi _ => ?_
  have hi16 : i < 16 := hi
  rw [List.getElem_take, ← List.getD_eq_getElem l 0 (by omega)]
  interval_cases i <;> rfl

theorem zipWith_xor_comm (l l' : List Byte) :
    List.zipWith (· ^^^ ·) l l' = List.zipWith (· ^^^ ·) l' l := by
  rw [List.zipWith_comm]
  congr 1
  funext x y
  exact BitVec.xor_comm y x

end Bytes

section Ctr

variable {aes : Block → Block} {counter : ℕ → Block}

/-- The loop is counter mode. -/
theorem ctrBlocks_eq_crypt (i : ℕ) (l : List Byte) :
    ctrBlocks aes counter (l.length / 16) i l =
      crypt 16 (fun i => (aes (counter i)).toList) i l := by
  refine @eq_crypt 16 (fun i => (aes (counter i)).toList) (fun _ => rfl) (by decide)
    (fun i l => ctrBlocks aes counter (l.length / 16) i l) (fun i l hl => ?_) (fun i l hl => ?_) i l
  · have hdiv : l.length / 16 = (l.drop 16).length / 16 + 1 := by
      rw [List.length_drop]
      omega
    rw [hdiv, ctrBlocks, toList_xor, toList_ofList hl, zipWith_xor_comm]
  · rw [Nat.div_eq_of_lt hl, ctrBlocks]
    by_cases hnil : l = []
    · rw [if_pos hnil, hnil, List.zipWith_nil_left]
    · rw [if_neg hnil]

/-- Encryption and decryption in counter mode undo one another. -/
theorem ctrBlocks_eq_iff {i : ℕ} {l l' : List Byte} :
    ctrBlocks aes counter (l.length / 16) i l = l' ↔
      ctrBlocks aes counter (l'.length / 16) i l' = l := by
  rw [ctrBlocks_eq_crypt, ctrBlocks_eq_crypt]
  exact crypt_eq_iff

theorem length_ctrBlocks (i : ℕ) (l : List Byte) :
    (ctrBlocks aes counter (l.length / 16) i l).length = l.length := by
  rw [ctrBlocks_eq_crypt, length_crypt]

end Ctr

end Rtl8821cu.Aes
