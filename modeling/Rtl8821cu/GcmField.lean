import Rtl8821cu.AesAgree
import Rtl8821cu.AesGcm
import Rtl8821cu.LibShiftAdd

/-! `gf_mult` is multiplication of polynomials over the field of two elements modulo
`X ^ 128 + X ^ 7 + X ^ 2 + X + 1`, and GHASH is the value of a polynomial at the hash key. -/
namespace Rtl8821cu.Gcm
open Aes BeWord ShiftAdd

/-- The bit of a byte that `gf_mult` looks at for `j`. -/
def gfTest (x : Byte) (j : ℕ) : Bool := x &&& ((1 : Byte) <<< (7 - j)) ≠ 0

/-- The bits of a byte, from the constant coefficient on. -/
def byteBits (x : Byte) : List Bool := (List.range 8).map (gfTest x)

def columnBits (c : Column) : List Bool :=
  byteBits c.b0 ++ (byteBits c.b1 ++ (byteBits c.b2 ++ byteBits c.b3))

def blockBits (b : Block) : List Bool :=
  columnBits b.c0 ++ (columnBits b.c1 ++ (columnBits b.c2 ++ columnBits b.c3))

section Bits

variable (x y : Byte)

theorem gfTest_eq {j : ℕ} (h : j < 8) : gfTest x j = x.getLsbD (7 - j) := by
  have hall : ∀ i < 256, ∀ j < 8,
      gfTest (BitVec.ofNat 8 i) j = (BitVec.ofNat 8 i).getLsbD (7 - j) := by
    decide +kernel
  simpa using hall x.toNat (by omega) j h

theorem byteBits_eq : byteBits x = [x.getLsbD 7, x.getLsbD 6, x.getLsbD 5, x.getLsbD 4,
    x.getLsbD 3, x.getLsbD 2, x.getLsbD 1, x.getLsbD 0] := by
  have hrange : List.range 8 = [0, 1, 2, 3, 4, 5, 6, 7] := rfl
  simp only [byteBits, hrange, List.map_cons, List.map_nil]
  rw [gfTest_eq x (by decide), gfTest_eq x (by decide), gfTest_eq x (by decide),
    gfTest_eq x (by decide), gfTest_eq x (by decide), gfTest_eq x (by decide),
    gfTest_eq x (by decide), gfTest_eq x (by decide)]

theorem byteBits_xor : byteBits (x ^^^ y) = List.zipWith xor (byteBits x) (byteBits y) := by
  simp [byteBits_eq]

/-- A byte that is shifted gets the last bit of the byte before it. -/
theorem byteBits_shift : byteBits ((x >>> 1) ||| (y <<< 7)) = [y.getLsbD 0, x.getLsbD 7,
    x.getLsbD 6, x.getLsbD 5, x.getLsbD 4, x.getLsbD 3, x.getLsbD 2, x.getLsbD 1] := by
  simp [byteBits_eq]

theorem shiftLeft_7 : (if x &&& 0x01 ≠ 0 then 0x80 else 0 : Byte) = x <<< 7 := by
  have hall : ∀ i < 256, (if BitVec.ofNat 8 i &&& 0x01 ≠ 0 then 0x80 else 0 : Byte) =
      BitVec.ofNat 8 i <<< 7 := by
    decide +kernel
  simpa using hall x.toNat (by omega)

end Bits

section Shift

variable (a b c d last : Byte) (p : Column)

theorem word_ushiftRight_1 : word a b c d >>> 1 =
    word (a >>> 1) ((b >>> 1) ||| (a <<< 7)) ((c >>> 1) ||| (b <<< 7))
      ((d >>> 1) ||| (c <<< 7)) := by
  ext i hi
  grind [word]

theorem shiftRightWord_eq : shiftRightWord last p =
    ⟨(p.b0 >>> 1) ||| (last <<< 7), (p.b1 >>> 1) ||| (p.b0 <<< 7), (p.b2 >>> 1) ||| (p.b1 <<< 7),
      (p.b3 >>> 1) ||| (p.b2 <<< 7)⟩ := by
  have hhigh : (0x80000000 : Word) = word 0x80 0 0 0 := by decide
  have hor : ∀ x : Byte, x ||| 0 = x := fun _ => BitVec.or_zero
  rw [shiftRightWord, getu32_eq_word, word_ushiftRight_1, hhigh, word_or, ← shiftLeft_7 last]
  by_cases hlast : last &&& 0x01 ≠ 0
  · rw [if_pos hlast, if_pos hlast, hor, hor, hor, ← getu32_eq_word ⟨_, _, _, _⟩, putu32_getu32]
  · rw [if_neg hlast, if_neg hlast, hor, ← getu32_eq_word ⟨_, _, _, _⟩, putu32_getu32]

theorem firstWord_eq : putu32 (getu32 p >>> 1) = shiftRightWord 0 p := by
  rw [shiftRightWord, if_neg (by decide)]

variable {R : Type*} [CommRing R] (α : R)

def byteClass (x : Byte) : R := value α (byteBits x)

def columnClass (p : Column) : R := value α (columnBits p)

def blockClass (b : Block) : R := value α (blockBits b)

theorem columnClass_eq : columnClass α p = byteClass α p.b0 + α ^ 8 * (byteClass α p.b1 +
    α ^ 8 * (byteClass α p.b2 + α ^ 8 * byteClass α p.b3)) := by
  simp only [columnClass, columnBits, value_append, byteClass]
  rfl

theorem blockClass_eq (b : Block) : blockClass α b = columnClass α b.c0 + α ^ 32 *
    (columnClass α b.c1 + α ^ 32 * (columnClass α b.c2 + α ^ 32 * columnClass α b.c3)) := by
  simp only [blockClass, blockBits, value_append, columnClass]
  rfl

def lastBit (x : Byte) : R := ((x.getLsbD 0).toNat : R)

theorem byteClass_shift (x y : Byte) : byteClass α ((x >>> 1) ||| (y <<< 7)) =
    lastBit y + α * byteClass α x - α ^ 8 * lastBit x := by
  rw [byteClass, byteBits_shift, byteClass, byteBits_eq x]
  simp only [value_cons, value_nil, lastBit]
  ring

theorem columnClass_shift : columnClass α (shiftRightWord last p) =
    lastBit last + α * columnClass α p - α ^ 32 * lastBit p.b3 := by
  rw [shiftRightWord_eq, columnClass_eq, columnClass_eq]
  simp only [byteClass_shift]
  ring

/-- A shift multiplies by the generator, up to the bit that is lost. -/
theorem blockClass_shift (b : Block) : blockClass α (shiftRightBlock b) =
    α * blockClass α b - α ^ 128 * lastBit b.c3.b3 := by
  have hzero : (lastBit 0 : R) = 0 := by simp [lastBit]
  rw [shiftRightBlock, firstWord_eq, blockClass_eq, blockClass_eq]
  simp only [columnClass_shift, hzero]
  ring

end Shift

/-- The rule of the field: a generator in a ring of characteristic two. -/
structure Reduces {R : Type*} [CommRing R] (α : R) : Prop where
  two : (2 : R) = 0
  reduce : α ^ 128 = 1 + α + α ^ 2 + α ^ 7

/-- The blocks of a text, the last one filled up with zeros. -/
def paddedBlocks (x : List Byte) : List Block :=
  (List.range ((x.length + 15) / 16)).map fun i => Block.ofList (x.drop (16 * i))

/-- What `aes_gcm_ghash` hashes. -/
def ghashBlocks (aad crypt : List Byte) : List Block :=
  paddedBlocks aad ++ (paddedBlocks crypt ++
    [Block.ofList (putBe64 (aad.length * 8) ++ putBe64 (crypt.length * 8))])

theorem paddedBlocks_of_le {x : List Byte} (h : 16 ≤ x.length) :
    paddedBlocks x = Block.ofList x :: paddedBlocks (x.drop 16) := by
  have hlen : (x.length + 15) / 16 = ((x.drop 16).length + 15) / 16 + 1 := by
    rw [List.length_drop]
    omega
  rw [paddedBlocks, hlen, List.range_succ_eq_map, List.map_cons, List.map_map, paddedBlocks]
  congr 2
  funext i
  rw [Function.comp_apply, List.drop_drop, Nat.mul_succ, Nat.add_comm]

theorem paddedBlocks_lengths (a c : ℕ) :
    paddedBlocks (putBe64 a ++ putBe64 c) = [Block.ofList (putBe64 a ++ putBe64 c)] := by
  have hlen : (putBe64 a ++ putBe64 c).length = 16 := by simp [putBe64]
  rw [paddedBlocks, hlen]
  rfl

section Mult

variable {R : Type*} [CommRing R] {α : R} (h : Reduces α)
include h

theorem byteClass_xor (x y : Byte) : byteClass α (x ^^^ y) = byteClass α x + byteClass α y := by
  have hlen : (byteBits x).length = (byteBits y).length := rfl
  rw [byteClass, byteBits_xor, value_zipWith_xor h.two α hlen]
  rfl

theorem columnClass_xor (p q : Column) :
    columnClass α (p ^^^ q) = columnClass α p + columnClass α q := by
  rw [columnClass_eq, columnClass_eq, columnClass_eq]
  simp only [xor_b0, xor_b1, xor_b2, xor_b3, byteClass_xor h]
  ring

theorem blockClass_xor (a b : Block) :
    blockClass α (a ^^^ b) = blockClass α a + blockClass α b := by
  have hcol : ∀ c c' : Column, columnClass α (c ^^^ c') = columnClass α c + columnClass α c' :=
    columnClass_xor h
  rw [blockClass_eq, blockClass_eq, blockClass_eq]
  change columnClass α (a.c0 ^^^ b.c0) + _ * (columnClass α (a.c1 ^^^ b.c1) + _ *
    (columnClass α (a.c2 ^^^ b.c2) + _ * columnClass α (a.c3 ^^^ b.c3))) = _
  rw [hcol, hcol, hcol, hcol]
  ring

theorem byteClass_reduce (x : Byte) :
    byteClass α (x ^^^ 0xe1) = byteClass α x + α ^ 128 := by
  have hbits : byteBits 0xe1 = [true, true, true, false, false, false, false, true] := by decide
  rw [byteClass_xor h, h.reduce]
  congr 1
  rw [byteClass, hbits]
  simp only [value_cons, value_nil, Bool.toNat_true, Bool.toNat_false]
  push_cast
  ring

theorem blockClass_reduce (w : Block) :
    blockClass α { w with c0 := { w.c0 with b0 := w.c0.b0 ^^^ 0xe1 } } =
      blockClass α w + α ^ 128 := by
  rw [blockClass_eq, columnClass_eq, byteClass_reduce h, blockClass_eq, columnClass_eq w.c0]
  ring

/-- The step for `V` is multiplication by the generator. -/
theorem blockClass_gfShift (v : Block) : blockClass α (gfShift v) = α * blockClass α v := by
  have hlast : gfTest v.c3.b3 7 = v.c3.b3.getLsbD 0 := gfTest_eq _ (by decide)
  rw [gfShift]
  by_cases hbit : v.c3.b3 &&& 0x01 ≠ 0
  · have hone : (lastBit v.c3.b3 : R) = 1 := by
      have htest : gfTest v.c3.b3 7 = true := decide_eq_true hbit
      rw [lastBit, ← hlast, htest, Bool.toNat_true, Nat.cast_one]
    rw [if_pos hbit, blockClass_reduce h, blockClass_shift, hone]
    ring
  · have hzero : (lastBit v.c3.b3 : R) = 0 := by
      have htest : gfTest v.c3.b3 7 = false := decide_eq_false hbit
      rw [lastBit, ← hlast, htest, Bool.toNat_false, Nat.cast_zero]
    rw [if_neg hbit, blockClass_shift, hzero]
    ring

theorem blockClass_zero : blockClass α zeroBlock = 0 := by
  have hdouble := blockClass_xor h zeroBlock zeroBlock
  have hself : zeroBlock ^^^ zeroBlock = zeroBlock := by decide
  rw [hself] at hdouble
  exact left_eq_add.mp hdouble

theorem blockClass_gfBit (x : Byte) (p : Block × Block) (j : ℕ) :
    blockClass α (gfBit x p j).1 =
      blockClass α p.1 + ((gfTest x j).toNat : R) * blockClass α p.2 := by
  by_cases hbit : x &&& ((1 : Byte) <<< (7 - j)) ≠ 0
  · simp only [gfBit, if_pos hbit, gfTest, decide_eq_true hbit, blockClass_xor h]
    simp
  · simp only [gfBit, if_neg hbit, gfTest, decide_eq_false hbit]
    simp

/-- `gf_mult` is the multiplication of the ring. -/
theorem blockClass_gfMult (x y : Block) :
    blockClass α (gfMult x y) = blockClass α x * blockClass α y := by
  have hflat : x.toList.foldl gfByte (zeroBlock, y) =
      (x.toList.flatMap fun b => (List.range 8).map fun j => (b, j)).foldl
        (fun p q => gfBit q.1 p q.2) (zeroBlock, y) := by
    rw [List.foldl_flatMap]
    congr 1
  have hbits : (x.toList.flatMap fun b => (List.range 8).map fun j => (b, j)).map
      (fun q => gfTest q.1 q.2) = blockBits x := rfl
  have hmul := @foldl_eq_mul R _ Block (Byte × ℕ) α (blockClass α) (fun q => gfTest q.1 q.2)
    (fun p q => gfBit q.1 p q.2) (fun p q => blockClass_gfBit h q.1 p q.2)
    (fun p q => blockClass_gfShift h p.2) (zeroBlock, y)
    (x.toList.flatMap fun b => (List.range 8).map fun j => (b, j))
  rw [gfMult, hflat, hmul, hbits, blockClass_zero h, zero_add]
  rfl

/-- A text that goes through GHASH, by Horner's rule. -/
theorem blockClass_ghash (k : Block) (x : List Byte) (y : Block) :
    blockClass α (ghash k x y) = ((paddedBlocks x).map (blockClass α)).foldl
      (fun s c => (s + c) * blockClass α k) (blockClass α y) := by
  rw [ghash]
  induction hn : x.length / 16 generalizing x y with
  | zero =>
    rw [absorb]
    by_cases hnil : x = []
    · rw [if_pos hnil, hnil]
      rfl
    · have hpos := List.length_pos_iff.mpr hnil
      have hone : (x.length + 15) / 16 = 1 := by omega
      rw [if_neg hnil, blockClass_gfMult h, blockClass_xor h, paddedBlocks, hone]
      rfl
  | succ n ih =>
    have hle : 16 ≤ x.length := by omega
    rw [absorb, ih (x.drop 16) _ (by rw [List.length_drop]; omega), blockClass_gfMult h,
      blockClass_xor h, paddedBlocks_of_le hle]
    rfl

/-- GHASH of additional data and a cipher text. -/
theorem blockClass_aesGcmGhash (k : Block) (aad crypt : List Byte) :
    blockClass α (aesGcmGhash k aad crypt) = ∑ i ∈ Finset.range (ghashBlocks aad crypt).length,
      blockClass α ((ghashBlocks aad crypt).getD i zeroBlock) *
        blockClass α k ^ ((ghashBlocks aad crypt).length - i) := by
  have hfold : blockClass α (aesGcmGhash k aad crypt) =
      ((ghashBlocks aad crypt).map (blockClass α)).foldl
        (fun s c => (s + c) * blockClass α k) 0 := by
    rw [aesGcmGhash, blockClass_ghash h, blockClass_ghash h, blockClass_ghash h,
      blockClass_zero h, ghashBlocks, paddedBlocks_lengths, List.map_append, List.map_append,
      List.foldl_append, List.foldl_append]
  rw [hfold, foldl_horner, zero_mul, zero_add, List.length_map]
  refine Finset.sum_congr rfl fun i hi => ?_
  have hlen := Finset.mem_range.mp hi
  rw [List.getD_eq_getElem _ _ (by simpa using hlen), List.getElem_map,
    List.getD_eq_getElem _ _ hlen]

end Mult

section Bits

theorem length_blockBits (b : Block) : (blockBits b).length = 128 := by
  simp [blockBits, columnBits, byteBits]

theorem byteBits_injective : Function.Injective byteBits := by
  intro x y h
  rw [byteBits_eq, byteBits_eq] at h
  simp only [List.cons.injEq, and_true] at h
  obtain ⟨h7, h6, h5, h4, h3, h2, h1, h0⟩ := h
  refine BitVec.eq_of_getLsbD_eq fun i hi => ?_
  interval_cases i <;> assumption

theorem columnBits_injective : Function.Injective columnBits := by
  intro c d h
  obtain ⟨h0, h⟩ := List.append_inj h rfl
  obtain ⟨h1, h⟩ := List.append_inj h rfl
  obtain ⟨h2, h3⟩ := List.append_inj h rfl
  ext1
  · exact byteBits_injective h0
  · exact byteBits_injective h1
  · exact byteBits_injective h2
  · exact byteBits_injective h3

theorem blockBits_injective : Function.Injective blockBits := by
  intro a b h
  obtain ⟨h0, h⟩ := List.append_inj h rfl
  obtain ⟨h1, h⟩ := List.append_inj h rfl
  obtain ⟨h2, h3⟩ := List.append_inj h rfl
  ext1
  · exact columnBits_injective h0
  · exact columnBits_injective h1
  · exact columnBits_injective h2
  · exact columnBits_injective h3

end Bits

section Field
open Polynomial

variable (K : Type*) [CommRing K]

def fieldDegree : ℕ := 128

/-- The polynomial of the field. -/
@[irreducible] noncomputable def gcmPoly : K[X] := X ^ fieldDegree + X ^ 7 + X ^ 2 + X + 1

@[irreducible] noncomputable def blockPoly (b : Block) : K[X] := value X (blockBits b)

theorem degree_gcmPoly [Nontrivial K] : (gcmPoly K).degree = (fieldDegree : WithBot ℕ) := by
  unfold gcmPoly
  have hdegree : 7 < fieldDegree := by decide
  compute_degree!

theorem mk_blockPoly (b : Block) :
    AdjoinRoot.mk (gcmPoly K) (blockPoly K b) = blockClass (AdjoinRoot.root (gcmPoly K)) b := by
  rw [blockPoly, map_value, AdjoinRoot.mk_X]
  rfl

theorem reduces_root [CharP K 2] : Reduces (AdjoinRoot.root (gcmPoly K)) where
  two := by
    have htwo : (2 : K[X]) = 0 := CharTwo.two_eq_zero
    rw [← map_ofNat (AdjoinRoot.mk (gcmPoly K)) 2, htwo, map_zero]
  reduce := by
    have hmk : AdjoinRoot.mk (gcmPoly K) (X ^ fieldDegree) =
        AdjoinRoot.mk (gcmPoly K) (1 + X + X ^ 2 + X ^ 7) := by
      rw [AdjoinRoot.mk_eq_mk, CharTwo.sub_eq_add]
      refine dvd_of_eq ?_
      unfold gcmPoly
      ring
    rw [map_pow, AdjoinRoot.mk_X] at hmk
    change AdjoinRoot.root (gcmPoly K) ^ fieldDegree = _
    rw [hmk, map_add, map_add, map_add, map_one, map_pow, map_pow, AdjoinRoot.mk_X]

variable [IsDomain K] {K}

/-- Blocks whose polynomials are the same in the field are the same. -/
theorem eq_of_dvd {a b : Block} (hdvd : gcmPoly K ∣ blockPoly K a - blockPoly K b) : a = b := by
  have hdeg : (gcmPoly K).degree = (blockBits a).length := by
    rw [length_blockBits, degree_gcmPoly, fieldDegree]
  have hlen : (blockBits a).length = (blockBits b).length := by
    rw [length_blockBits, length_blockBits]
  rw [blockPoly, blockPoly] at hdvd
  exact blockBits_injective (value_injective_of_dvd hdeg hlen hdvd)

theorem eq_iff_dvd {b : Block} {p : K[X]} (hp : gcmPoly K ∣ p - blockPoly K b) (z : Block) :
    b = z ↔ gcmPoly K ∣ p - blockPoly K z := by
  constructor
  · rintro rfl
    exact hp
  · intro hz
    refine @eq_of_dvd K _ _ b z ?_
    have := dvd_sub hz hp
    rwa [sub_sub_sub_cancel_left] at this

end Field

/-- `gf_mult` delivers the block whose polynomial is the product modulo the one of the field. -/
theorem gfMult_eq_iff (x y z : Block) : gfMult x y = z ↔
    gcmPoly (ZMod 2) ∣ blockPoly (ZMod 2) x * blockPoly (ZMod 2) y - blockPoly (ZMod 2) z := by
  refine eq_iff_dvd ?_ z
  rw [← AdjoinRoot.mk_eq_mk, map_mul, mk_blockPoly, mk_blockPoly, mk_blockPoly,
    blockClass_gfMult (reduces_root _)]

/-- GHASH of additional data and a cipher text is the block whose polynomial is that of the blocks
at the hash key. -/
theorem aesGcmGhash_eq_iff (k : Block) (aad crypt : List Byte) (z : Block) :
    aesGcmGhash k aad crypt = z ↔ gcmPoly (ZMod 2) ∣
      (∑ i ∈ Finset.range (ghashBlocks aad crypt).length,
        blockPoly (ZMod 2) ((ghashBlocks aad crypt).getD i zeroBlock) *
          blockPoly (ZMod 2) k ^ ((ghashBlocks aad crypt).length - i)) - blockPoly (ZMod 2) z := by
  refine eq_iff_dvd ?_ z
  rw [← AdjoinRoot.mk_eq_mk, map_sum, mk_blockPoly, blockClass_aesGcmGhash (reduces_root _)]
  refine Finset.sum_congr rfl fun i _ => ?_
  rw [map_mul, map_pow, mk_blockPoly, mk_blockPoly]

end Rtl8821cu.Gcm
