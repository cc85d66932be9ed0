import Rtl8821cu.Sha256

/-! The hash of a text, and the keyed one, do not depend on how the text is cut into elements. -/
namespace Rtl8821cu.Sha256
open Absorb

/-- A text with its bit 1, zeros up to eight bytes before the end of a block, and its length. -/
def padded (m : List Byte) : List Byte :=
  m ++ (0x80 :: List.replicate ((119 - m.length % 64) % 64) 0 ++
    putBe64 (BitVec.ofNat 64 (8 * m.length)))

/-- SHA-256 of a text. -/
def sha256 (m : List Byte) : List Byte :=
  (absorb sha256Compress 64 initialRegs (padded m)).bytes

section Put

variable {buf bytes : List Byte} {i k : ℕ}

theorem length_put (h : i + bytes.length ≤ buf.length) :
    (put buf i bytes).length = buf.length := by
  simp only [put, List.length_append, List.length_take, List.length_drop]
  omega

theorem take_put (h : i ≤ buf.length) (hk : k = i + bytes.length) :
    (put buf i bytes).take k = buf.take i ++ bytes := by
  have hlen : (buf.take i ++ bytes).length = k := by
    rw [List.length_append, List.length_take, Nat.min_eq_left h, hk]
  rw [put, List.take_left' hlen]

end Put

/-- The context stands for the text `m`. -/
structure Holds (md : Sha256State) (m : List Byte) : Prop where
  size : md.buf.length = 64
  cur : md.curlen = m.length % 64
  buf : md.buf.take md.curlen = rest 64 m
  state : md.state = absorb sha256Compress 64 initialRegs m
  length : md.length = BitVec.ofNat 64 (8 * (m.length - m.length % 64))

variable {md : Sha256State} {m p : List Byte}

theorem holds_init (buf : Vector Byte sha256BlockSize) : Holds (sha256Init buf) [] where
  size := buf.length_toList
  cur := rfl
  buf := rfl
  state := rfl
  length := rfl

theorem rest_eq_nil (h : m.length % 64 = 0) : rest 64 m = [] := by
  rw [← List.length_eq_zero_iff, length_rest, h]

theorem ofNat_block (n : ℕ) :
    BitVec.ofNat 64 (8 * n) + 512 = BitVec.ofNat 64 (8 * (n + 64)) := by
  rw [Nat.mul_add, BitVec.ofNat_add]
  rfl

/-- A block that is taken in from the input. -/
theorem Holds.direct (h : Holds md m) (hcur : md.curlen = 0) (hp : p.length = 64) :
    Holds { md with state := sha256Compress md.state p, length := md.length + 512 } (m ++ p) := by
  have hm : m.length % 64 = 0 := h.cur ▸ hcur
  have hmp : (m ++ p).length % 64 = 0 := by
    rw [List.length_append, hp]
    omega
  constructor
  · exact h.size
  · exact hcur.trans hmp.symm
  · rw [rest_eq_nil hmp, hcur]
    rfl
  · rw [absorb_append (by decide) hm, absorb_block (by decide) hp, ← h.state]
  · show md.length + 512 = _
    rw [h.length, hmp, hm, ofNat_block, List.length_append, hp, Nat.sub_zero, Nat.sub_zero]

/-- Bytes that go into the buffer. -/
theorem Holds.fill (h : Holds md m) (hp : md.curlen + p.length ≤ 64) :
    Holds
      (if md.curlen + p.length = 64 then
        { md with
          buf := put md.buf md.curlen p
          state := sha256Compress md.state ((put md.buf md.curlen p).take 64)
          length := md.length + 512
          curlen := 0 }
      else { md with buf := put md.buf md.curlen p, curlen := md.curlen + p.length }) (m ++ p) := by
  have hsize : (put md.buf md.curlen p).length = 64 := by
    rw [length_put (by rw [h.size]; exact hp), h.size]
  have htake : (put md.buf md.curlen p).take (md.curlen + p.length) = rest 64 m ++ p := by
    rw [take_put (by rw [h.size]; omega) rfl, h.buf]
  have hrest : (rest 64 m ++ p).length = md.curlen + p.length := by
    rw [List.length_append, length_rest, h.cur]
  have hcur := h.cur
  split
  · rename_i hfull
    have hmp : (m ++ p).length % 64 = 0 := by
      rw [List.length_append]
      omega
    constructor
    · exact hsize
    · exact hmp.symm
    · rw [rest_eq_nil hmp]
      rfl
    · rw [absorb_rest_append (by decide), absorb_block (by decide) (hrest.trans hfull), ← h.state,
        ← htake, hfull]
    · have hlen : m.length - m.length % 64 + 64 = (m ++ p).length := by
        rw [List.length_append]
        omega
      show md.length + 512 = _
      rw [h.length, ofNat_block, hlen, hmp, Nat.sub_zero]
  · rename_i hpart
    have hmod : (m ++ p).length % 64 = md.curlen + p.length := by
      rw [List.length_append]
      omega
    have hlt : (rest 64 m ++ p).length < 64 := by omega
    constructor
    · exact hsize
    · exact hmod.symm
    · rw [rest_append, rest_of_lt hlt, ← htake]
    · rw [absorb_rest_append (by decide), absorb_of_lt hlt, ← h.state]
    · have hlen : m.length - m.length % 64 = (m ++ p).length - (m ++ p).length % 64 := by
        rw [hmod, List.length_append]
        omega
      show md.length = _
      rw [h.length, hlen]

theorem Holds.processLoop {turns : ℕ} {inp : List Byte} (h : Holds md m)
    (ht : inp.length ≤ turns) : Holds (md.processLoop turns inp) (m ++ inp) := by
  induction turns generalizing md m inp with
  | zero =>
    rw [List.length_eq_zero_iff.mp (Nat.le_zero.mp ht), List.append_nil]
    exact h
  | succ turns ih =>
    have hcur := h.cur
    rw [Sha256State.processLoop]
    split
    · rename_i hnil
      rw [List.isEmpty_iff.mp hnil, List.append_nil]
      exact h
    rename_i hnil
    have hpos : 0 < inp.length := List.length_pos_iff.mpr (by simpa using hnil)
    split
    · rename_i hdirect
      simp only [sha256BlockSize] at *
      have hlen : (inp.take 64).length = 64 := by
        rw [List.length_take]
        omega
      have hdrop : (inp.drop 64).length ≤ turns := by
        rw [List.length_drop]
        omega
      have hnext := ih (h.direct hdirect.1 hlen) hdrop
      rwa [List.append_assoc, List.take_append_drop] at hnext
    · simp only [sha256BlockSize] at *
      have hlen : (inp.take (min inp.length (64 - md.curlen))).length =
          min inp.length (64 - md.curlen) := by
        rw [List.length_take]
        omega
      have hfill := h.fill (p := inp.take (min inp.length (64 - md.curlen))) (by omega)
      have hdrop : (inp.drop (min inp.length (64 - md.curlen))).length ≤ turns := by
        rw [List.length_drop]
        omega
      have hnext := ih hfill hdrop
      rw [List.append_assoc, List.take_append_drop, hlen] at hnext
      exact hnext

/-- The elements, in order. -/
theorem Holds.elems (h : Holds md m) (elems : List (List Byte)) :
    ∃ md', elems.foldlM (fun md e => md.sha256Process e) md = some md' ∧
      Holds md' (m ++ elems.flatten) := by
  induction elems generalizing md m with
  | nil => exact ⟨md, rfl, by simpa using h⟩
  | cons e elems ih =>
    have hlt : ¬md.curlen ≥ sha256BlockSize := by
      rw [h.cur, sha256BlockSize]
      omega
    obtain ⟨md', heq, hmd'⟩ := ih (h.processLoop (le_refl e.length))
    refine ⟨md', ?_, by simpa using hmd'⟩
    rw [List.foldlM_cons, Sha256State.sha256Process, if_neg hlt]
    exact heq

/-- The zeros behind what the buffer holds. -/
theorem zeros_buf (md : Sha256State) {n : ℕ} {l : List Byte} (hn : n ≤ md.buf.length)
    (hcur : md.curlen ≤ n) (hl : md.buf.take md.curlen = l) :
    (md.zeros n).buf.length = md.buf.length ∧
      (md.zeros n).buf.take n = l ++ List.replicate (n - md.curlen) 0 := by
  have hlen : (List.replicate (n - md.curlen) (0 : Byte)).length = n - md.curlen :=
    List.length_replicate
  constructor
  · exact length_put (by omega)
  · rw [Sha256State.zeros, take_put (by omega) (by omega), hl]

/-- The block that ends the text. -/
theorem lastBlock_state (md : Sha256State) {front : List Byte} (hsize : md.buf.length = 64)
    (hcur : md.curlen ≤ 56) (hfront : md.buf.take md.curlen = front) :
    ({ md.zeros 56 with
        buf := put (md.zeros 56).buf 56 (putBe64 (md.zeros 56).length) }).compressBuf.state =
      sha256Compress md.state
        (front ++ List.replicate (56 - md.curlen) 0 ++ putBe64 md.length) := by
  have hz := zeros_buf md (n := 56) (by omega) hcur hfront
  have htake : (put (md.zeros 56).buf 56 (putBe64 md.length)).take 64 =
      front ++ List.replicate (56 - md.curlen) 0 ++ putBe64 md.length := by
    rw [← hz.2]
    exact take_put (by omega) rfl
  exact congrArg (sha256Compress md.state) htake

theorem absorb_padded (h : Holds md m) : absorb sha256Compress 64 initialRegs (padded m) =
    absorb sha256Compress 64 md.state (rest 64 m ++
      (0x80 :: List.replicate ((119 - md.curlen) % 64) 0 ++
        putBe64 (BitVec.ofNat 64 (8 * m.length)))) := by
  rw [padded, absorb_rest_append (by decide), ← h.state, ← h.cur]

theorem length_putBe64 (w : BitVec 64) : (putBe64 w).length = 8 := rfl

theorem Holds.done (h : Holds md m) : md.sha256Done = some (sha256 m) := by
  have hcur := h.cur
  have hle := Nat.mod_le m.length 64
  have hlt : md.curlen < 64 := hcur ▸ Nat.mod_lt _ (by decide)
  have hsize := h.size
  have hrest : (rest 64 m).length = md.curlen := length_rest.trans hcur.symm
  have hlength : md.length + BitVec.ofNat 64 (md.curlen * 8) = BitVec.ofNat 64 (8 * m.length) := by
    rw [h.length, ← BitVec.ofNat_add, hcur]
    congr 1
    omega
  have hbuf1 : (put md.buf md.curlen [0x80]).length = 64 := by
    rw [length_put (by rw [hsize]; exact hlt), hsize]
  have htake1 : (put md.buf md.curlen [0x80]).take (md.curlen + 1) = rest 64 m ++ [0x80] := by
    rw [← h.buf]
    exact take_put (by omega) rfl
  rw [sha256, absorb_padded h, Sha256State.sha256Done,
    if_neg (by simpa [sha256BlockSize] using hlt)]
  simp only [hlength, sha256BlockSize]
  split
  · rename_i hover
    have hz := zeros_buf ⟨BitVec.ofNat 64 (8 * m.length), md.state, md.curlen + 1,
      put md.buf md.curlen [0x80]⟩ (n := 64) hbuf1.ge (by simpa using hlt) htake1
    have hzeros : (119 - md.curlen) % 64 = (64 - (md.curlen + 1)) + 56 := by omega
    have hsplit : rest 64 m ++ (0x80 :: List.replicate ((119 - md.curlen) % 64) 0 ++
          putBe64 (BitVec.ofNat 64 (8 * m.length))) =
        (rest 64 m ++ [0x80] ++ List.replicate (64 - (md.curlen + 1)) 0) ++
          (List.replicate 56 0 ++ putBe64 (BitVec.ofNat 64 (8 * m.length))) := by
      rw [hzeros, List.replicate_add]
      simp
    have hfirst : (rest 64 m ++ [0x80] ++
        List.replicate (64 - (md.curlen + 1)) (0 : Byte)).length = 64 := by
      simp only [List.length_append, hrest, List.length_singleton, List.length_replicate]
      omega
    have hlast := lastBlock_state ⟨BitVec.ofNat 64 (8 * m.length),
      sha256Compress md.state (rest 64 m ++ [0x80] ++ List.replicate (64 - (md.curlen + 1)) 0), 0,
      (Sha256State.zeros ⟨BitVec.ofNat 64 (8 * m.length), md.state, md.curlen + 1,
        put md.buf md.curlen [0x80]⟩ 64).buf⟩ (hz.1.trans hbuf1) (by simp) rfl
    rw [hsplit, absorb_append (by decide) (by rw [hfirst]), absorb_block (by decide) hfirst,
      absorb_block (by decide) (by simp [length_putBe64])]
    rw [← hz.2] at hlast ⊢
    exact congrArg (fun s => some (Regs.bytes s)) hlast
  · rename_i hover
    have hzeros : (119 - md.curlen) % 64 = 56 - (md.curlen + 1) := by omega
    have hblock : (rest 64 m ++ (0x80 :: List.replicate (56 - (md.curlen + 1)) 0 ++
        putBe64 (BitVec.ofNat 64 (8 * m.length)))).length = 64 := by
      simp only [List.length_append, hrest, List.length_cons, List.length_replicate,
        length_putBe64]
      omega
    rw [lastBlock_state _ hbuf1 (by simpa using hover) htake1, hzeros,
      absorb_block (by decide) hblock]
    simp

/-- The code of a text is the SHA-256 of the text, in whatever pieces it comes. -/
theorem sha256Vector_eq (buf : Vector Byte sha256BlockSize) (elems : List (List Byte)) :
    sha256Vector buf elems = some (sha256 elems.flatten) := by
  obtain ⟨md, heq, hmd⟩ := (holds_init buf).elems elems
  rw [sha256Vector, heq]
  exact hmd.done

/-- The key that HMAC uses: a long one is hashed, and zeros follow. -/
def hmacKey (key : List Byte) : List Byte :=
  let k := if key.length > 64 then sha256 key else key
  k ++ List.replicate (64 - k.length) 0

/-- HMAC-SHA-256 of a text. -/
def hmac (key m : List Byte) : List Byte :=
  sha256 ((hmacKey key).map (· ^^^ 0x5c) ++ sha256 ((hmacKey key).map (· ^^^ 0x36) ++ m))

theorem kPad_eq {key : List Byte} {x : Byte} :
    kPad key x = (key ++ List.replicate (64 - key.length) 0).map (· ^^^ x) := by
  rw [kPad, put, List.take_zero, List.nil_append, Nat.zero_add, List.drop_replicate]

/-- `hmac_sha256_vector` is HMAC of what its elements hold together, and refuses more than five of
them. -/
theorem hmacSha256Vector_eq (buf : Vector Byte sha256BlockSize) (key : List Byte)
    (elems : List (List Byte)) :
    hmacSha256Vector buf key elems =
      if elems.length ≤ 5 then some (hmac key elems.flatten) else none := by
  rw [hmacSha256Vector]
  by_cases hmany : elems.length > 5
  · rw [if_pos hmany, if_neg (by omega)]
  rw [if_neg hmany, if_pos (by omega)]
  have hkey : shortKey buf key = some (if key.length > 64 then sha256 key else key) := by
    rw [shortKey]
    split
    · rw [sha256Vector_eq, List.flatten_singleton]
    · rfl
  rw [hkey, Option.bind_eq_bind, Option.bind_some, sha256Vector_eq, Option.bind_some,
    sha256Vector_eq]
  simp only [List.flatten_cons, List.flatten_nil, List.append_nil, kPad_eq]
  rfl

example : hmac (List.replicate 20 0x0b) [0x48, 0x69, 0x20, 0x54, 0x68, 0x65, 0x72, 0x65] =
    [0xb0, 0x34, 0x4c, 0x61, 0xd8, 0xdb, 0x38, 0x53, 0x5c, 0xa8, 0xaf, 0xce, 0xaf, 0x0b, 0xf1, 0x2b,
      0x88, 0x1d, 0xc2, 0x00, 0xc9, 0x83, 0x3d, 0xa7, 0x26, 0xe9, 0x37, 0x6c, 0x2e, 0x32, 0xcf,
      0xf7] := by decide +kernel

end Rtl8821cu.Sha256
