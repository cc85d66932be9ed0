import Rtl8821cu.Aes
import Rtl8821cu.LibBeWord

/-! The AES with a table and the AES on bytes are the same cipher under keys of 128 bits. -/
namespace Rtl8821cu.Aes
open BeWord

/-- Multiplication by `x` in the field of AES. -/
def xtime (x : Byte) : Byte :=
  (if x &&& 0x80 = 0x80 then (0x1b : Byte) else 0x00) ^^^ (x &&& 0x7f) <<< 1

theorem getD_te0 (x : Byte) :
    te0.getD x.toNat 0 = word (xtime (sbox x)) (sbox x) (sbox x) (xtime (sbox x) ^^^ sbox x) := by
  have hall : ∀ i < 256, te0.getD i 0 = word (xtime (sboxTable.getD i 0)) (sboxTable.getD i 0)
      (sboxTable.getD i 0) (xtime (sboxTable.getD i 0) ^^^ sboxTable.getD i 0) := by
    decide +kernel
  exact hall x.toNat (by omega)

section Columns

variable (p q : Column)

theorem xor_b0 : (p ^^^ q).b0 = p.b0 ^^^ q.b0 := rfl

theorem xor_b1 : (p ^^^ q).b1 = p.b1 ^^^ q.b1 := rfl

theorem xor_b2 : (p ^^^ q).b2 = p.b2 ^^^ q.b2 := rfl

theorem xor_b3 : (p ^^^ q).b3 = p.b3 ^^^ q.b3 := rfl

theorem column_xor_comm : p ^^^ q = q ^^^ p := by
  ext : 1
  all_goals simp only [xor_b0, xor_b1, xor_b2, xor_b3, BitVec.xor_comm]

end Columns

section Words

variable (a b c d : Byte) (p q r s : Column)

theorem getu32_eq_word : getu32 p = word p.b0 p.b1 p.b2 p.b3 := by
  ext i hi
  grind [getu32, word]

theorem getu32_xor : getu32 (p ^^^ q) = getu32 p ^^^ getu32 q := by
  rw [getu32_eq_word, getu32_eq_word, getu32_eq_word, word_xor]
  rfl

theorem putu32_getu32 : putu32 (getu32 p) = p := by
  rw [getu32_eq_word]
  simp only [putu32, word_ushiftRight_24, word_ushiftRight_16, word_ushiftRight_8, word_setWidth]

theorem rotr_8 : rotr (word a b c d) 8 = word d a b c := by
  simp [rotr, word_ushiftRight_8, word_shiftLeft_24, word_or]

theorem rotr_16 : rotr (word a b c d) 16 = word c d a b := by
  simp [rotr, word_ushiftRight_16, word_shiftLeft_16, word_or]

theorem rotr_24 : rotr (word a b c d) 24 = word b c d a := by
  simp [rotr, word_ushiftRight_24, word_shiftLeft_8, word_or]

/-- The bytes that index the table. -/
theorem te_word (n : ℕ) (x : Byte) (h : (word a b c d >>> n) &&& 0xff = word 0 0 0 x) :
    te (word a b c d) n =
      word (xtime (sbox x)) (sbox x) (sbox x) (xtime (sbox x) ^^^ sbox x) := by
  rw [te, h, toNat_word_last, getD_te0]

theorem te_word_24 : te (word a b c d) 24 =
    word (xtime (sbox a)) (sbox a) (sbox a) (xtime (sbox a) ^^^ sbox a) :=
  te_word a b c d 24 a (by rw [word_ushiftRight_24, word_and_last])

theorem te_word_16 : te (word a b c d) 16 =
    word (xtime (sbox b)) (sbox b) (sbox b) (xtime (sbox b) ^^^ sbox b) :=
  te_word a b c d 16 b (by rw [word_ushiftRight_16, word_and_last])

theorem te_word_8 : te (word a b c d) 8 =
    word (xtime (sbox c)) (sbox c) (sbox c) (xtime (sbox c) ^^^ sbox c) :=
  te_word a b c d 8 c (by rw [word_ushiftRight_8, word_and_last])

theorem te_word_0 : te (word a b c d) 0 =
    word (xtime (sbox d)) (sbox d) (sbox d) (xtime (sbox d) ^^^ sbox d) :=
  te_word a b c d 0 d (by rw [BitVec.ushiftRight_zero, word_and_last])

theorem te41_word (n : ℕ) (x : Byte) (w : Word)
    (h : te w n = word (xtime (sbox x)) (sbox x) (sbox x) (xtime (sbox x) ^^^ sbox x)) :
    te41 w n = word (sbox x) 0 0 0 ∧ te42 w n = word 0 (sbox x) 0 0 ∧
      te43 w n = word 0 0 (sbox x) 0 ∧ te44 w n = word 0 0 0 (sbox x) := by
  rw [te41, te42, te43, te44, h, word_shiftLeft_8, word_ushiftRight_8]
  exact ⟨word_and_first _ _ _ _, word_and_second _ _ _ _, word_and_third _ _ _ _,
    word_and_last _ _ _ _⟩

/-- A word of the key schedule goes through the box. -/
theorem subRot_getu32 :
    subRot (getu32 p) = getu32 ⟨sbox p.b1, sbox p.b2, sbox p.b3, sbox p.b0⟩ := by
  rw [getu32_eq_word, getu32_eq_word, subRot, (te41_word _ _ _ (te_word_16 ..)).1,
    (te41_word _ _ _ (te_word_8 ..)).2.1, (te41_word _ _ _ (te_word_0 ..)).2.2.1,
    (te41_word _ _ _ (te_word_24 ..)).2.2.2, word_xor, word_xor, word_xor]
  simp

/-- A column of the last round. -/
theorem lastWord_getu32 : lastWord (getu32 p) (getu32 q) (getu32 r) (getu32 s) =
    getu32 ⟨sbox p.b0, sbox q.b1, sbox r.b2, sbox s.b3⟩ := by
  simp only [getu32_eq_word]
  rw [lastWord, (te41_word _ _ _ (te_word_24 ..)).1, (te41_word _ _ _ (te_word_16 ..)).2.1,
    (te41_word _ _ _ (te_word_8 ..)).2.2.1, (te41_word _ _ _ (te_word_0 ..)).2.2.2, word_xor,
    word_xor, word_xor]
  simp

/-- The shift in `mix_column` hands no bit on. -/
theorem shiftIn_masked (x y : Byte) : shiftIn (x &&& 0x7f) (y &&& 0x7f) = (x &&& 0x7f) <<< 1 := by
  have hno : y &&& 0x7f &&& 0x80 = 0 := by
    rw [BitVec.and_assoc]
    exact BitVec.and_zero
  rw [shiftIn, hno, if_neg (by decide)]

theorem shiftLeft_and (x : Byte) : (x <<< 1) &&& (0xfe : Byte) = x <<< 1 := by
  have hmask : (0xfe : Byte) = BitVec.allOnes 8 <<< 1 := by decide
  rw [hmask, ← BitVec.shiftLeft_and_distrib, BitVec.and_allOnes]

/-- The shifted column, reduced. -/
theorem add1bf7_eq : (Column.xor (p.map fun x => if x &&& 0x80 = 0x80 then 0x1b else 0x00)
    ⟨((p.b0 &&& 0x7f) <<< 1) &&& 0xfe, shiftIn (p.b1 &&& 0x7f) (p.b0 &&& 0x7f),
      shiftIn (p.b2 &&& 0x7f) (p.b1 &&& 0x7f), shiftIn (p.b3 &&& 0x7f) (p.b2 &&& 0x7f)⟩) =
      p.map xtime := by
  rw [shiftLeft_and, shiftIn_masked, shiftIn_masked, shiftIn_masked]
  rfl

theorem mixColumn_eq : mixColumn p =
    ⟨xtime p.b0 ^^^ (xtime p.b1 ^^^ p.b1) ^^^ p.b2 ^^^ p.b3,
      p.b0 ^^^ xtime p.b1 ^^^ (xtime p.b2 ^^^ p.b2) ^^^ p.b3,
      p.b0 ^^^ p.b1 ^^^ xtime p.b2 ^^^ (xtime p.b3 ^^^ p.b3),
      (xtime p.b0 ^^^ p.b0) ^^^ p.b1 ^^^ p.b2 ^^^ xtime p.b3⟩ := by
  have hmix : mixColumn p = (p.map xtime ^^^ ⟨(p ^^^ p.map xtime).b1, (p ^^^ p.map xtime).b2,
      (p ^^^ p.map xtime).b3, (p ^^^ p.map xtime).b0⟩) ^^^
        (⟨p.b2, p.b3, p.b0, p.b1⟩ ^^^ ⟨p.b3, p.b0, p.b1, p.b2⟩) := by
    rw [← add1bf7_eq p]
    rfl
  rw [hmix]
  ext : 1
  all_goals simp only [xor_b0, xor_b1, xor_b2, xor_b3, Column.map]
  all_goals ac_rfl

/-- A column of a full round. -/
theorem round_getu32 :
    te0Of (getu32 p) ^^^ te1Of (getu32 q) ^^^ te2Of (getu32 r) ^^^ te3Of (getu32 s) =
      getu32 (mixColumn ⟨sbox p.b0, sbox q.b1, sbox r.b2, sbox s.b3⟩) := by
  rw [mixColumn_eq]
  simp only [getu32_eq_word]
  rw [te0Of, te1Of, te2Of, te3Of, te_word_24, te_word_16, te_word_8, te_word_0, rotr_8, rotr_16,
    rotr_24, word_xor, word_xor, word_xor]

end Words

/-- The round keys of `aes128k128d`. -/
def roundKey (key : Block) : ℕ → Block
  | 0 => key
  | i + 1 => nextKey (roundKey key i) i

def words (b : Block) : List Word := [getu32 b.c0, getu32 b.c1, getu32 b.c2, getu32 b.c3]

/-- The key schedule as the words of the round keys. -/
def schedule (key : Block) (n : ℕ) : List Word :=
  (List.range n).flatMap fun i => words (roundKey key i)

def stateOf (b : Block) : State := ⟨getu32 b.c0, getu32 b.c1, getu32 b.c2, getu32 b.c3⟩

section Schedule

variable {key : Block} {n i : ℕ}

theorem schedule_succ : schedule key (n + 1) = schedule key n ++ words (roundKey key n) := by
  simp [schedule, List.range_succ]

theorem length_schedule : (schedule key n).length = 4 * n := by
  induction n with
  | zero => rfl
  | succ n ih =>
    rw [schedule_succ, List.length_append, ih]
    rfl

theorem rkAt_schedule {j : ℕ} (h : i < n) (hj : j < 4) :
    rkAt (schedule key n) (4 * i + j) = rkAt (words (roundKey key i)) j := by
  induction n with
  | zero => omega
  | succ n ih =>
    have hlen := @length_schedule key n
    rw [schedule_succ, rkAt, rkAt, List.getD_eq_getElem?_getD, List.getD_eq_getElem?_getD]
    by_cases hi : i < n
    · rw [List.getElem?_append_left (by omega), ← List.getD_eq_getElem?_getD,
        ← List.getD_eq_getElem?_getD]
      exact ih hi
    · obtain rfl : i = n := by omega
      rw [List.getElem?_append_right (by omega), hlen, Nat.add_sub_cancel_left]

theorem rcon_eq (h : i < 10) : rcon i = getu32 ⟨rconTable.getD i 0, 0, 0, 0⟩ := by
  have hall : ∀ i < 10, rcon i = getu32 ⟨rconTable.getD i 0, 0, 0, 0⟩ := by decide
  exact hall i h

theorem words_next (hi : i < 10) :
    words (nextKey key i) =
      [getu32 key.c0 ^^^ subRot (getu32 key.c3) ^^^ rcon i,
        getu32 key.c1 ^^^ (getu32 key.c0 ^^^ subRot (getu32 key.c3) ^^^ rcon i),
        getu32 key.c2 ^^^ (getu32 key.c1 ^^^
          (getu32 key.c0 ^^^ subRot (getu32 key.c3) ^^^ rcon i)),
        getu32 key.c3 ^^^ (getu32 key.c2 ^^^ (getu32 key.c1 ^^^
          (getu32 key.c0 ^^^ subRot (getu32 key.c3) ^^^ rcon i)))] := by
  have hfirst : (nextKey key i).c0 = key.c0 ^^^
      ⟨sbox key.c3.b1, sbox key.c3.b2, sbox key.c3.b3, sbox key.c3.b0⟩ ^^^
        ⟨rconTable.getD i 0, 0, 0, 0⟩ := by
    ext : 1
    all_goals simp [nextKey, xor_b0, xor_b1, xor_b2, xor_b3, BitVec.xor_comm]
  rw [subRot_getu32, rcon_eq hi, ← getu32_xor, ← getu32_xor, ← hfirst, ← getu32_xor,
    ← getu32_xor, ← getu32_xor]
  simp only [words, nextKey, column_xor_comm]

/-- A turn of the key setup adds the next round key. -/
theorem step128_schedule (h : i < 10) :
    step128 (schedule key (i + 1)) i = schedule key (i + 2) := by
  have hk := fun j hj => @rkAt_schedule key (i + 1) i j (by omega) hj
  have h0 := hk 0 (by decide)
  rw [show 4 * i + 0 = 4 * i from rfl] at h0
  rw [@schedule_succ key (i + 1), step128, h0, hk 1 (by decide), hk 2 (by decide),
    hk 3 (by decide)]
  exact congrArg _ (words_next h).symm

theorem keySetup_schedule (n : ℕ) (hn : n ≤ 10) :
    (List.range n).foldl step128 (schedule key 1) = schedule key (n + 1) := by
  induction n with
  | zero => rfl
  | succ n ih =>
    rw [List.range_succ, List.foldl_append, ih (by omega)]
    exact step128_schedule (by omega)

/-- A full round on words is a middle round on bytes. -/
theorem round_stateOf {b : Block} (h : i < n) :
    round (schedule key n) (4 * i) (stateOf b) =
      stateOf ((shiftRow (byteSub b)).map mixColumn ^^^ roundKey key i) := by
  have hk := fun j hj => @rkAt_schedule key n i j h hj
  have h0 := hk 0 (by decide)
  rw [show 4 * i + 0 = 4 * i from rfl] at h0
  simp only [round, stateOf, round_getu32, h0, hk 1 (by decide), hk 2 (by decide),
    hk 3 (by decide)]
  simp only [rkAt, words, List.getD_cons_zero, List.getD_cons_succ, ← getu32_xor]
  rfl

end Schedule

/-- The state of `aes128k128d` before its rounds 1 to `n`. -/
def stateBefore (key data : Block) (n : ℕ) : Block × Block :=
  (List.range' 1 n).foldl middleRound (key ^^^ data, nextKey key 0)

section Rounds

variable {key data : Block} {n : ℕ}

theorem stateBefore_succ :
    stateBefore key data (n + 1) = middleRound (stateBefore key data n) (n + 1) := by
  rw [stateBefore, List.range'_1_concat, List.foldl_append, Nat.add_comm 1]
  rfl

theorem stateBefore_key : (stateBefore key data n).2 = roundKey key (n + 1) := by
  induction n with
  | zero => rfl
  | succ n ih =>
    rw [stateBefore_succ, middleRound, ih]
    rfl

/-- The rounds before the last one. -/
theorem rounds_stateOf (hn : n ≤ 9) :
    (List.range' 1 n).foldl (fun s i => round (schedule key 11) (4 * i) s)
      (stateOf (key ^^^ data)) = stateOf (stateBefore key data n).1 := by
  induction n with
  | zero => rfl
  | succ n ih =>
    rw [List.range'_1_concat, List.foldl_append, ih (by omega), List.foldl_cons, List.foldl_nil,
      round_stateOf (by omega), stateBefore_succ, middleRound, stateBefore_key, Nat.add_comm 1]

theorem roundsLoop_eq (rk : List Word) (s : State) : roundsLoop rk 5 0 s =
    ((List.range' 1 9).foldl (fun s i => round rk (4 * i) s) s, 40) := rfl

/-- The last round on words is the last round on bytes. -/
theorem lastRound (b k : Block) (j : ℕ → Word) (h : ∀ i < 4, j i = rkAt (words k) i) :
    Block.mk (putu32 (lastWord (getu32 b.c0) (getu32 b.c1) (getu32 b.c2) (getu32 b.c3) ^^^ j 0))
      (putu32 (lastWord (getu32 b.c1) (getu32 b.c2) (getu32 b.c3) (getu32 b.c0) ^^^ j 1))
      (putu32 (lastWord (getu32 b.c2) (getu32 b.c3) (getu32 b.c0) (getu32 b.c1) ^^^ j 2))
      (putu32 (lastWord (getu32 b.c3) (getu32 b.c0) (getu32 b.c1) (getu32 b.c2) ^^^ j 3)) =
        shiftRow (byteSub b) ^^^ k := by
  simp only [lastWord_getu32, h 0 (by decide), h 1 (by decide), h 2 (by decide), h 3 (by decide)]
  simp only [rkAt, words, List.getD_cons_zero, List.getD_cons_succ, ← getu32_xor, putu32_getu32]
  rfl

end Rounds

theorem keySetup_toList (key : Block) :
    rijndaelKeySetupEnc key.toList = some (schedule key 11, 10) := by
  have hlen : key.toList.length = 16 := rfl
  have hwords : keyWords key.toList 4 = schedule key 1 := rfl
  rw [rijndaelKeySetupEnc, if_pos hlen, hwords, keySetup_schedule 10 le_rfl]

theorem stateOf_first (key data : Block) :
    State.mk (getu32 data.c0 ^^^ rkAt (schedule key 11) 0)
      (getu32 data.c1 ^^^ rkAt (schedule key 11) 1) (getu32 data.c2 ^^^ rkAt (schedule key 11) 2)
      (getu32 data.c3 ^^^ rkAt (schedule key 11) 3) = stateOf (key ^^^ data) := by
  have hfirst := fun i hi => @rkAt_schedule key 11 0 i (by decide) hi
  simp only [Nat.mul_zero, Nat.zero_add] at hfirst
  rw [hfirst 0 (by decide), hfirst 1 (by decide), hfirst 2 (by decide), hfirst 3 (by decide)]
  simp only [rkAt, words, List.getD_cons_zero, List.getD_cons_succ, ← getu32_xor, roundKey,
    stateOf]
  rw [column_xor_comm data.c0, column_xor_comm data.c1, column_xor_comm data.c2,
    column_xor_comm data.c3]
  rfl

theorem rijndaelEncrypt_eq (key data : Block) :
    rijndaelEncrypt (schedule key 11) 10 data = aes128k128d key data := by
  have hlast := fun i hi => @rkAt_schedule key 11 10 i (by decide) hi
  have hloop : roundsLoop (schedule key 11) (10 / 2) 0 (stateOf (key ^^^ data)) =
      (stateOf (stateBefore key data 9).1, 40) := by
    rw [show 10 / 2 = 5 from rfl, roundsLoop_eq, rounds_stateOf le_rfl]
  rw [rijndaelEncrypt, stateOf_first, hloop]
  refine (lastRound (stateBefore key data 9).1 (roundKey key 10)
    (fun i => rkAt (schedule key 11) (40 + i)) hlast).trans ?_
  rw [← @stateBefore_key key data]
  rfl

/-- Under a key of 128 bits the cipher that `aes_encrypt_init` sets up, with its table and its key
schedule in words, is the cipher that goes through the block byte by byte. -/
theorem aesEncryptInit_eq_aes128k128d (key : Block) :
    aesEncryptInit key.toList = some (aes128k128d key) := by
  rw [aesEncryptInit, keySetup_toList, Option.map_some, Option.some_inj]
  exact funext (rijndaelEncrypt_eq key)

end Rtl8821cu.Aes
