import Rtl8821cu.Michael

/-! The Michael code of a message that comes in pieces (`core/rtw_security.c`). -/
namespace Rtl8821cu.Michael
open Bytes

/-- The two halves of the state of the code. -/
abbrev Halves := BitVec 32 × BitVec 32

/-- The bytes of each 16-bit half are exchanged. -/
def xswap (l : BitVec 32) : BitVec 32 :=
  ((l &&& 0xff00ff00#32) >>> 8) ||| ((l &&& 0x00ff00ff#32) <<< 8)

/-- One of the four rounds of the block function. -/
def mixRound (f : BitVec 32 → BitVec 32) (s : Halves) : Halves :=
  let r := s.2 ^^^ f s.1
  (s.1 + r, r)

/-- A word is absorbed. -/
def absorb (s : Halves) (m : BitVec 32) : Halves :=
  mixRound (·.rotateRight 2) (mixRound (·.rotateLeft 3) (mixRound xswap
    (mixRound (·.rotateLeft 17) (s.1 ^^^ m, s.2))))

/-- The little-endian words of a string of whole words. -/
def words : List (BitVec 8) → List (BitVec 32)
  | a :: b :: c :: d :: l => BitVec.ofNat 32 (ofLe [a, b, c, d]) :: words l
  | _ => []

/-- The string, `0x5a`, and four to seven zeros. -/
def padded (l : List (BitVec 8)) : List (BitVec 8) :=
  l ++ 0x5a :: List.replicate (7 - l.length % 4) 0

/-- The Michael code of a string. -/
def michael (k : Halves) (l : List (BitVec 8)) : List (BitVec 8) :=
  let s := (words (padded l)).foldl absorb k
  leBytes 4 s.1.toNat ++ leBytes 4 s.2.toNat

def secmicclear (d : MicData) : MicData := { d with L := d.K0, R := d.K1, nBytesInM := 0, M := 0 }

/-- The state in which the loop of `rtw_secgetmic` ends. -/
def secgetmicPadded (d : MicData) : MicData := padWord 3 (rtwSecmicappend d [0x5a, 0, 0, 0, 0])

/-- The state that `rtw_secgetmic` leaves behind. -/
def secgetmicLeft (d : MicData) : MicData := secmicclear (secgetmicPadded d)

theorem length_padded (l : List (BitVec 8)) : (padded l).length % 4 = 0 := by
  rw [padded, List.length_append, List.length_cons, List.length_replicate]
  omega

section Stream

variable {d : MicData} {l l' : List (BitVec 8)}

theorem rtwSecmicappend_append :
    rtwSecmicappend d (l ++ l') = rtwSecmicappend (rtwSecmicappend d l) l' :=
  List.foldl_append

theorem foldl_rtwSecmicappend (pieces : List (List (BitVec 8))) :
    pieces.foldl rtwSecmicappend d = rtwSecmicappend d pieces.flatten := by
  induction pieces generalizing d with
  | nil => rfl
  | cons p pieces ih => rw [List.foldl_cons, ih, List.flatten_cons, rtwSecmicappend_append]

/-- How full the word is. -/
theorem nBytesInM_rtwSecmicappend (h : d.nBytesInM < 4) :
    (rtwSecmicappend d l).nBytesInM = (d.nBytesInM + l.length) % 4 := by
  induction l generalizing d with
  | nil =>
    rw [List.length_nil, Nat.add_zero, Nat.mod_eq_of_lt h]
    rfl
  | cons b l ih =>
    have hbyte : (rtwSecmicappendbyte d b).nBytesInM = (d.nBytesInM + 1) % 4 := by
      unfold rtwSecmicappendbyte
      split_ifs with hfull
      · dsimp only
        omega
      · dsimp only
        omega
    have hlt : (rtwSecmicappendbyte d b).nBytesInM < 4 := by
      rw [hbyte]
      exact Nat.mod_lt _ (by decide)
    have := ih hlt
    rw [hbyte] at this
    rw [List.length_cons]
    unfold rtwSecmicappend at *
    rw [List.foldl_cons, this]
    omega

/-- The loop of `rtw_secgetmic` fills the word with zeros. -/
theorem padWord_eq {n : ℕ} (h : d.nBytesInM < 4) (hn : (4 - d.nBytesInM) % 4 ≤ n) :
    padWord n d = rtwSecmicappend d (List.replicate ((4 - d.nBytesInM) % 4) 0) := by
  induction n generalizing d with
  | zero =>
    rw [Nat.le_zero.mp hn]
    rfl
  | succ n ih =>
    rw [padWord]
    split_ifs with hzero
    · rw [hzero]
      rfl
    · have hone := nBytesInM_rtwSecmicappend (l := [0]) h
      rw [List.length_singleton] at hone
      have hbyte : rtwSecmicappendbyte d 0 = rtwSecmicappend d [0] := rfl
      rw [hbyte, ih (by omega) (by omega), ← rtwSecmicappend_append, hone]
      congr 1
      rw [show (4 - d.nBytesInM) % 4 = (4 - (d.nBytesInM + 1) % 4) % 4 + 1 by omega,
        List.replicate_succ]
      rfl

/-- A byte is put behind the low bits of a word. -/
theorem toNat_or_shiftLeft {x : BitVec 32} {k : ℕ} (b : BitVec 8) (hx : x.toNat < 2 ^ k)
    (hk : k + 8 ≤ 32) : (x ||| b.setWidth 32 <<< k).toNat = x.toNat + b.toNat * 2 ^ k := by
  have hb := b.isLt
  have hlt : b.toNat * 2 ^ k < 2 ^ 32 :=
    calc b.toNat * 2 ^ k < 2 ^ 8 * 2 ^ k := Nat.mul_lt_mul_of_pos_right hb (Nat.two_pow_pos k)
      _ = 2 ^ (k + 8) := by rw [← pow_add, Nat.add_comm]
      _ ≤ 2 ^ 32 := Nat.pow_le_pow_right (by decide) hk
  rw [BitVec.toNat_or, BitVec.toNat_shiftLeft, BitVec.toNat_setWidth,
    Nat.mod_eq_of_lt (show b.toNat < 2 ^ 32 by omega), Nat.shiftLeft_eq, Nat.mod_eq_of_lt hlt,
    Nat.or_comm, ← Nat.shiftLeft_eq, ← Nat.shiftLeft_add_eq_or_of_lt hx, Nat.shiftLeft_eq,
    Nat.add_comm]

/-- The four bytes of a word, put together. -/
theorem or_bytes (a b c e : BitVec 8) :
    0#32 ||| a.setWidth 32 <<< 0 ||| b.setWidth 32 <<< 8 ||| c.setWidth 32 <<< 16 |||
      e.setWidth 32 <<< 24 = BitVec.ofNat 32 (ofLe [a, b, c, e]) := by
  have ha := a.isLt
  have hb := b.isLt
  have hc := c.isLt
  have he := e.isLt
  have h0 := @toNat_or_shiftLeft 0#32 0 a (by decide) (by decide)
  rw [show (0#32).toNat = 0 from rfl] at h0
  have h1 := @toNat_or_shiftLeft _ 8 b (by rw [h0]; omega) (by decide)
  have h2 := @toNat_or_shiftLeft _ 16 c (by rw [h1, h0]; omega) (by decide)
  have h3 := @toNat_or_shiftLeft _ 24 e (by rw [h2, h1, h0]; omega) (by decide)
  refine BitVec.eq_of_toNat_eq ?_
  rw [h3, h2, h1, h0, BitVec.toNat_ofNat]
  simp only [ofLe]
  omega

/-- Four bytes on a word boundary are absorbed. -/
theorem rtwSecmicappend_word (hM : d.M = 0) (hn : d.nBytesInM = 0) (a b c e : BitVec 8) :
    rtwSecmicappend d [a, b, c, e] =
      { d with
        L := (absorb (d.L, d.R) (BitVec.ofNat 32 (ofLe [a, b, c, e]))).1
        R := (absorb (d.L, d.R) (BitVec.ofNat 32 (ofLe [a, b, c, e]))).2 } := by
  obtain ⟨K0, K1, L, R, M, n⟩ := d
  obtain rfl : M = 0 := hM
  obtain rfl : n = 0 := hn
  rw [← or_bytes]
  rfl

/-- Whole words are absorbed one by one. -/
theorem rtwSecmicappend_words (hM : d.M = 0) (hn : d.nBytesInM = 0) (hl : l.length % 4 = 0) :
    rtwSecmicappend d l =
      { d with
        L := ((words l).foldl absorb (d.L, d.R)).1
        R := ((words l).foldl absorb (d.L, d.R)).2 } := by
  induction l using words.induct generalizing d with
  | case1 a b c e l ih =>
    rw [show a :: b :: c :: e :: l = [a, b, c, e] ++ l from rfl, rtwSecmicappend_append,
      rtwSecmicappend_word hM hn]
    exact ih hM hn (by simp only [List.length_cons] at hl; omega)
  | case2 l hshort =>
    rcases l with _ | ⟨a, _ | ⟨b, _ | ⟨c, _ | ⟨e, l⟩⟩⟩⟩
    · rfl
    · exact absurd hl (by simp)
    · exact absurd hl (by simp)
    · exact absurd hl (by simp)
    · exact (hshort a b c e l rfl).elim

/-- The loop of `rtw_secgetmic` ends with the padded string absorbed. -/
theorem secgetmicPadded_eq (hn : d.nBytesInM = 0) :
    secgetmicPadded (rtwSecmicappend d l) = rtwSecmicappend d (padded l) := by
  have h0 : d.nBytesInM < 4 := by omega
  have hlen := @nBytesInM_rtwSecmicappend d (l ++ [0x5a, 0, 0, 0, 0]) h0
  rw [hn, Nat.zero_add, List.length_append] at hlen
  simp only [List.length_cons, List.length_nil] at hlen
  rw [secgetmicPadded, ← rtwSecmicappend_append, padWord_eq (by omega) (by omega),
    ← rtwSecmicappend_append, padded, List.append_assoc, hlen]
  congr 1
  rw [show [0x5a, 0, 0, 0, 0] = 0x5a#8 :: List.replicate 4 0 from rfl, List.cons_append,
    List.replicate_append_replicate,
    show 4 + (4 - (l.length + (0 + 1 + 1 + 1 + 1 + 1)) % 4) % 4 = 7 - l.length % 4 by omega]
  rfl

/-- The state in which the loop ends for a message of a key. -/
theorem secgetmicPadded_setkey (key l : List (BitVec 8)) :
    secgetmicPadded (rtwSecmicappend (rtwSecmicsetkey key) l) =
      { rtwSecmicsetkey key with
        L := ((words (padded l)).foldl absorb
          (secmicgetuint32 key, secmicgetuint32 (key.drop 4))).1
        R := ((words (padded l)).foldl absorb
          (secmicgetuint32 key, secmicgetuint32 (key.drop 4))).2 } := by
  rw [secgetmicPadded_eq rfl, rtwSecmicappend_words rfl rfl (length_padded l)]
  rfl

theorem rtwSecgetmic_setkey (key l : List (BitVec 8)) :
    rtwSecgetmic (rtwSecmicappend (rtwSecmicsetkey key) l) =
      michael (secmicgetuint32 key, secmicgetuint32 (key.drop 4)) l := by
  have hpadded := secgetmicPadded_setkey key l
  unfold secgetmicPadded at hpadded
  unfold rtwSecgetmic
  rw [hpadded]
  rfl

/-- The code of a received frame is that of its pseudo header and its data. -/
theorem rtwSeccalctkipmic_eq (key : List (BitVec 8)) (header : ℕ → BitVec 8)
    (data : List (BitVec 8)) (pri : BitVec 8) :
    rtwSeccalctkipmic key header data pri =
      michael (secmicgetuint32 key, secmicgetuint32 (key.drop 4))
        (pseudoHeader header pri ++ data) := by
  rw [rtwSeccalctkipmic, ← rtwSecmicappend_append, rtwSecgetmic_setkey]

/-- However a message is split, its code is that of the whole, and the state is set to the key
again. -/
theorem rtwSecgetmic_pieces (key : List (BitVec 8)) (pieces : List (List (BitVec 8))) :
    (secgetmicPadded (pieces.foldl rtwSecmicappend (rtwSecmicsetkey key))).nBytesInM = 0 ∧
    rtwSecgetmic (pieces.foldl rtwSecmicappend (rtwSecmicsetkey key)) =
      michael (secmicgetuint32 key, secmicgetuint32 (key.drop 4)) pieces.flatten ∧
    secgetmicLeft (pieces.foldl rtwSecmicappend (rtwSecmicsetkey key)) = rtwSecmicsetkey key := by
  rw [foldl_rtwSecmicappend, secgetmicLeft, secgetmicPadded_setkey]
  exact ⟨rfl, rtwSecgetmic_setkey key _, rfl⟩

end Stream

end Rtl8821cu.Michael
