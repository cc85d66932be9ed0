import Rtl8821cu.BtEfuse
import Rtl8821cu.LibRun

/-! The record log of the Bluetooth efuse: what the reader and the finder of its end make of it, and
what a record appended by the writer adds. -/
namespace Rtl8821cu.BtEfuse
open Efuse Store

section Step
variable {phy phy' : ByteMap}

/-- The words a record enables. -/
def words (wordEn : BitVec 8) : List ℕ := [0, 1, 2, 3].filter fun i => !wordEn.getLsbD i

theorem calculateWordCnts_eq (wordEn : BitVec 8) :
    calculateWordCnts wordEn = (words wordEn).length := rfl

/-- What the reader does with the record at `a`. -/
def readStep (phy : ByteMap) (a : ℕ) (tbl : ByteMap) : ℕ × ByteMap :=
  if phy a &&& 0x1F = 0x0F then
    if phy (a + 1) &&& 0x0F = 0x0F then (a + 2, tbl)
    else readRecord phy ((phy a &&& 0xE0) >>> 5 ||| (phy (a + 1) &&& 0xF0) >>> 1)
      (phy (a + 1) &&& 0x0F) (a + 2) tbl
  else readRecord phy (phy a >>> 4 &&& 0x0F) (phy a &&& 0x0F) (a + 1) tbl

theorem readLoop_next {a : ℕ} (ha : a < 112) (hne : phy a ≠ 0xFF) (tbl : ByteMap) :
    readLoop phy a tbl = readLoop phy (readStep phy a tbl).1 (readStep phy a tbl).2 := by
  have hav : availableEfuseAddr a = true := decide_eq_true ha
  rw [readLoop, dif_pos hav]
  unfold readStep
  dsimp only
  rw [if_neg hne]
  split_ifs <;> rfl

theorem readLoop_blank {a : ℕ} (ha : a < 112) (h : phy a = 0xFF) (tbl : ByteMap) :
    readLoop phy a tbl = (a + 1, tbl) := by
  have hav : availableEfuseAddr a = true := decide_eq_true ha
  rw [readLoop, dif_pos hav]
  exact if_pos h

theorem lt_readStep (a : ℕ) (tbl : ByteMap) : a < (readStep phy a tbl).1 := by
  unfold readStep
  split_ifs
  · dsimp only
    omega
  · have := readRecord_le phy ((phy a &&& 0xE0) >>> 5 ||| (phy (a + 1) &&& 0xF0) >>> 1)
      (phy (a + 1) &&& 0x0F) (a + 2) tbl
    omega
  · have := readRecord_le phy (phy a >>> 4 &&& 0x0F) (phy a &&& 0x0F) (a + 1) tbl
    omega

/-- The words of a record, over any list of them. -/
def readWordsOf (phy : ByteMap) (offset : ℕ) (l : List ℕ) (st : ℕ × ByteMap) : ℕ × ByteMap :=
  l.foldl (fun st i => (st.1 + 2, Function.update (Function.update st.2 (offset * 8 + i * 2)
    (phy st.1)) (offset * 8 + i * 2 + 1) (phy (st.1 + 1)))) st

theorem wden_bit : ∀ w : BitVec 8, ∀ i < 4, (w &&& 0x01 <<< i = 0 ↔ w.getLsbD i = false) := by
  decide +kernel

theorem readWords_eq (offset : ℕ) (wden : BitVec 8) (a : ℕ) (tbl : ByteMap) :
    readWords phy offset wden a tbl = readWordsOf phy offset (words wden) (a, tbl) := by
  unfold readWords readWordsOf words
  have key : ∀ l : List ℕ, (∀ i ∈ l, i < 4) → ∀ st : ℕ × ByteMap,
      l.foldl (fun st i => if wden &&& 0x01 <<< i = 0 then
        (st.1 + 2, Function.update (Function.update st.2 (offset * 8 + i * 2) (phy st.1))
          (offset * 8 + i * 2 + 1) (phy (st.1 + 1))) else st) st =
      (l.filter fun i => !wden.getLsbD i).foldl (fun st i => (st.1 + 2, Function.update
        (Function.update st.2 (offset * 8 + i * 2) (phy st.1)) (offset * 8 + i * 2 + 1)
        (phy (st.1 + 1)))) st := by
    intro l hl
    induction l with
    | nil => exact fun st => rfl
    | cons i l ih =>
      intro st
      have hbit := wden_bit wden i (hl i (by simp))
      rw [List.foldl_cons, ih fun k hk => hl k (by simp [hk])]
      cases hb : wden.getLsbD i with
      | false =>
        rw [if_pos (hbit.mpr hb), List.filter_cons_of_pos (by simp [hb]), List.foldl_cons]
      | true =>
        rw [if_neg (by rw [hbit, hb]; simp), List.filter_cons_of_neg (by simp [hb])]
  exact key _ (by simp) _

theorem readWordsOf_fst (offset : ℕ) (l : List ℕ) (st : ℕ × ByteMap) :
    (readWordsOf phy offset l st).1 = st.1 + 2 * l.length := by
  unfold readWordsOf
  induction l generalizing st with
  | nil => rfl
  | cons i l ih =>
    rw [List.foldl_cons, ih, List.length_cons]
    dsimp only
    omega

theorem readWordsOf_congr {offset : ℕ} {l : List ℕ} {st : ℕ × ByteMap}
    (hag : ∀ k, st.1 ≤ k → k < st.1 + 2 * l.length → phy k = phy' k) :
    readWordsOf phy' offset l st = readWordsOf phy offset l st := by
  unfold readWordsOf
  induction l generalizing st with
  | nil => rfl
  | cons i l ih =>
    rw [List.length_cons] at hag
    rw [List.foldl_cons, List.foldl_cons, hag st.1 le_rfl (by omega),
      hag (st.1 + 1) (by omega) (by omega)]
    exact ih fun k h1 h2 => hag k (by dsimp only at h1; omega) (by dsimp only at h2; omega)

/-- Words found in memory one after the other go to their places. -/
theorem readWordsOf_holds {offset : ℕ} {l : List ℕ} {a : ℕ} {src : ByteMap} (tbl : ByteMap)
    (hl : ∀ i ∈ l, i < 4)
    (h : HoldsAt phy a (l.flatMap fun i => [src (offset * 8 + i * 2), src (offset * 8 + i * 2 + 1)])) :
    readWordsOf phy offset l (a, tbl) = (a + 2 * l.length, mergeWords src tbl offset l) := by
  induction l generalizing a tbl with
  | nil => simp [readWordsOf, mergeWords_nil]
  | cons i l ih =>
    rw [List.flatMap_cons, List.cons_append, List.cons_append, List.nil_append, holdsAt_cons,
      holdsAt_cons] at h
    obtain ⟨h0, h1, h⟩ := h
    have hrest := ih (Function.update (Function.update tbl (offset * 8 + i * 2) (phy a))
      (offset * 8 + i * 2 + 1) (phy (a + 1))) (fun k hk => hl k (by simp [hk])) h
    rw [h0, h1, mergeWords_cons _ _ _ _ _ (hl i (by simp))] at hrest
    unfold readWordsOf at hrest ⊢
    rw [List.foldl_cons]
    dsimp only
    rw [h0, h1, hrest, List.length_cons]
    congr 1
    omega

theorem readRecord_congr {offset wden : BitVec 8} {a : ℕ} {tbl : ByteMap}
    (hag : ∀ k, a ≤ k → k < (readRecord phy offset wden a tbl).1 → phy k = phy' k) :
    readRecord phy' offset wden a tbl = readRecord phy offset wden a tbl := by
  unfold readRecord at hag ⊢
  split_ifs at hag ⊢
  · rw [readWords_eq, readWords_eq]
    rw [readWords_eq, readWordsOf_fst] at hag
    exact readWordsOf_congr hag
  · rfl

/-- A record is read from its own bytes only. -/
theorem readStep_congr {a : ℕ} {tbl : ByteMap}
    (hag : ∀ k, a ≤ k → k < (readStep phy a tbl).1 → phy k = phy' k) :
    readStep phy' a tbl = readStep phy a tbl := by
  have hlt : a < (readStep phy a tbl).1 := lt_readStep a tbl
  have h0 := hag a le_rfl hlt
  unfold readStep at hag hlt ⊢
  rw [← h0]
  by_cases hext : phy a &&& 0x1F = 0x0F
  · simp only [hext, if_true] at hag hlt ⊢
    by_cases hoff : phy (a + 1) &&& 0x0F = 0x0F
    · simp only [hoff, if_true] at hag ⊢
      rw [← hag (a + 1) (by omega) (by omega), if_pos hoff]
    · simp only [hoff, if_false] at hag ⊢
      have hle := readRecord_le phy ((phy a &&& 0xE0) >>> 5 ||| (phy (a + 1) &&& 0xF0) >>> 1)
        (phy (a + 1) &&& 0x0F) (a + 2) tbl
      rw [← hag (a + 1) (by omega) (by omega), if_neg hoff]
      exact readRecord_congr fun k h1 h2 => hag k (by omega) h2
  · simp only [hext, if_false] at hag ⊢
    exact readRecord_congr fun k h1 h2 => hag k (by omega) h2

end Step

/-- The reader passes from one position, with the table so far, to another, record by record. -/
def BtWalk (phy : ByteMap) : ℕ × ByteMap → ℕ × ByteMap → Prop :=
  Relation.ReflTransGen fun x y => x.1 < 112 ∧ phy x.1 ≠ 0xFF ∧ readStep phy x.1 x.2 = y

theorem BtWalk.readLoop_eq {phy : ByteMap} {x y : ℕ × ByteMap} (h : BtWalk phy x y) :
    readLoop phy x.1 x.2 = readLoop phy y.1 y.2 := by
  induction h with
  | refl => rfl
  | tail _ hstep ih =>
    obtain ⟨hlt, hne, rfl⟩ := hstep
    rw [ih, readLoop_next hlt hne]

theorem BtWalk.congr {phy phy' : ByteMap} {x y : ℕ × ByteMap} (h : BtWalk phy x y)
    (hag : ∀ i < y.1, phy i = phy' i) : BtWalk phy' x y := by
  induction h with
  | refl => exact .refl
  | tail hxy hstep ih =>
    rename_i y z
    obtain ⟨hlt, hne, rfl⟩ := hstep
    have hpos : y.1 < (readStep phy y.1 y.2).1 := lt_readStep y.1 y.2
    refine .tail (ih fun i hi => hag i (by omega)) ⟨hlt, ?_, ?_⟩
    · rwa [← hag y.1 hpos]
    · exact readStep_congr fun k _ hk => hag k hk

/-- The bank holds a record log that ends at `e`, on a blank byte of the unprotected part, and
reads as `tbl`. -/
structure BtLog (phy : ByteMap) (e : ℕ) (tbl : ByteMap) : Prop where
  walk : BtWalk phy (0, fun _ => 0xFF) (e, tbl)
  end_lt : e < 112
  blank : ∀ i, e ≤ i → i < 128 → phy i = 0xFF

theorem BtLog.readLoop_eq {phy tbl : ByteMap} {e : ℕ} (h : BtLog phy e tbl) :
    readLoop phy 0 (fun _ => 0xFF) = (e + 1, tbl) := by
  have hend := h.end_lt
  rw [h.walk.readLoop_eq, readLoop_blank hend (h.blank e le_rfl (by omega))]

/-- The log is a matter of the bytes of the bank. -/
theorem BtLog.congr {phy phy' tbl : ByteMap} {e : ℕ} (h : BtLog phy e tbl)
    (hag : ∀ i < 128, phy i = phy' i) : BtLog phy' e tbl where
  walk := h.walk.congr fun i hi => hag i (by have := h.end_lt; dsimp only at hi; omega)
  end_lt := h.end_lt
  blank i hi hi' := (hag i hi').symm.trans (h.blank i hi hi')

section Record
variable {phy : ByteMap}

/-- The header of a record as the writers encode it. -/
def hdrBytes (offset : ℕ) (wordEn : BitVec 8) : List (BitVec 8) :=
  let off := BitVec.ofNat 8 offset
  if 16 ≤ offset then [(off &&& 0x07) <<< 5 ||| 0x0F, (off &&& 0x78) <<< 1 ||| wordEn]
  else [off <<< 4 &&& 0xf0 ||| wordEn]

/-- The record for the enabled words of a section of `efuse`. -/
def recordOf (efuse : ByteMap) (offset : ℕ) (wordEn : BitVec 8) : List (BitVec 8) :=
  hdrBytes offset wordEn ++
    (words wordEn).flatMap fun i => [efuse (offset * 8 + i * 2), efuse (offset * 8 + i * 2 + 1)]

theorem length_recordOf (efuse : ByteMap) (offset : ℕ) (wordEn : BitVec 8) :
    (recordOf efuse offset wordEn).length = recordCnt offset wordEn := by
  unfold recordOf recordCnt hdrBytes
  rw [List.length_append, List.length_flatMap, calculateWordCnts_eq]
  split_ifs <;> simp <;> omega

theorem shortHdr_decode : ∀ off < 16, ∀ w < 15,
    (BitVec.ofNat 8 off <<< 4 &&& 0xf0 ||| BitVec.ofNat 8 w) &&& 0x1F ≠ 0x0F ∧
      (BitVec.ofNat 8 off <<< 4 &&& 0xf0 ||| BitVec.ofNat 8 w) ≠ 0xFF ∧
      ((BitVec.ofNat 8 off <<< 4 &&& 0xf0 ||| BitVec.ofNat 8 w) >>> 4 &&& 0x0F).toNat = off ∧
      (BitVec.ofNat 8 off <<< 4 &&& 0xf0 ||| BitVec.ofNat 8 w) &&& 0x0F = BitVec.ofNat 8 w := by
  decide

theorem extHdr_decode : ∀ off < 128,
    ((BitVec.ofNat 8 off &&& 0x07) <<< 5 ||| 0x0F) &&& 0x1F = 0x0F ∧
      ((BitVec.ofNat 8 off &&& 0x07) <<< 5 ||| 0x0F) ≠ 0xFF := by
  decide

theorem extHdr2_decode : ∀ off < 128, ∀ w < 15,
    ((BitVec.ofNat 8 off &&& 0x78) <<< 1 ||| BitVec.ofNat 8 w) ≠ 0xFF ∧
      ((BitVec.ofNat 8 off &&& 0x78) <<< 1 ||| BitVec.ofNat 8 w) &&& 0x0F = BitVec.ofNat 8 w ∧
      ((((BitVec.ofNat 8 off &&& 0x07) <<< 5 ||| 0x0F) &&& 0xE0) >>> 5 |||
        (((BitVec.ofNat 8 off &&& 0x78) <<< 1 ||| BitVec.ofNat 8 w) &&& 0xF0) >>> 1).toNat =
          off := by
  decide +kernel

theorem nibble_ne_all : ∀ w < 15, BitVec.ofNat 8 w ≠ (0x0F : BitVec 8) := by
  decide

variable {efuse : ByteMap} {off e : ℕ} {w : BitVec 8}

/-- The reader takes over the words of a record it finds in the bank. -/
theorem readStep_record (tbl : ByteMap) (hoff : off < 128) (hw : w.toNat < 15)
    (h : HoldsAt phy e (recordOf efuse off w)) :
    phy e ≠ 0xFF ∧ readStep phy e tbl =
      (e + recordCnt off w, mergeWords efuse tbl off (words w)) := by
  have hof : w = BitVec.ofNat 8 w.toNat := by simp
  have hword : ∀ {off' : BitVec 8} {a : ℕ}, off'.toNat = off → HoldsAt phy a ((words w).flatMap
      fun i => [efuse (off * 8 + i * 2), efuse (off * 8 + i * 2 + 1)]) →
      readRecord phy off' w a tbl =
        (a + 2 * (words w).length, mergeWords efuse tbl off (words w)) := by
    intro off' a ho hh
    unfold readRecord
    rw [ho, if_pos (by simpa [mapLen] using hoff), readWords_eq]
    exact readWordsOf_holds tbl (fun i hi => by
      have := (List.mem_filter.mp hi).1
      simp at this
      omega) hh
  unfold recordOf hdrBytes at h
  unfold readStep recordCnt
  rw [calculateWordCnts_eq]
  by_cases hext : 16 ≤ off
  · obtain ⟨hc1, hc2⟩ := extHdr_decode off hoff
    obtain ⟨hc3, hc4, hc5⟩ := extHdr2_decode off hoff _ hw
    rw [← hof] at hc3 hc4 hc5
    have hc6 := nibble_ne_all _ hw
    rw [← hof] at hc6
    simp only [hext, if_true, List.cons_append, List.nil_append, holdsAt_cons] at h ⊢
    obtain ⟨p0, p1, hh⟩ := h
    rw [p0, p1]
    refine ⟨hc2, ?_⟩
    rw [if_pos hc1, hc4, if_neg hc6, hword hc5 hh]
    congr 1
    omega
  · obtain ⟨hc1, hc2, hc3, hc4⟩ := shortHdr_decode off (by omega) _ hw
    rw [← hof] at hc1 hc2 hc3 hc4
    simp only [hext, if_false, List.cons_append, List.nil_append, holdsAt_cons] at h ⊢
    obtain ⟨p0, hh⟩ := h
    rw [p0]
    refine ⟨hc2, ?_⟩
    rw [if_neg hc1, hc4, hword hc3 hh]
    congr 1
    omega

/-- A record at the end of the log is part of the log. -/
theorem BtLog.append {tbl : ByteMap} (hlog : BtLog phy e tbl) (hoff : off < 128) (hw : w.toNat < 15)
    (hroom : e + recordCnt off w < 112) :
    BtLog (store phy e (recordOf efuse off w)) (e + recordCnt off w)
      (mergeWords efuse tbl off (words w)) := by
  have hlen := length_recordOf efuse off w
  obtain ⟨hne, hstep⟩ := readStep_record tbl hoff hw (holdsAt_store phy e (recordOf efuse off w))
  refine ⟨?_, hroom, ?_⟩
  · exact .tail (hlog.walk.congr fun i hi => (store_of_lt _ _ hi).symm) ⟨hlog.end_lt, hne, hstep⟩
  · intro i hi hi'
    rw [store_of_ge _ _ (by omega)]
    exact hlog.blank i (by omega) hi'

end Record

theorem btLog_blank {phy : ByteMap} (h : ∀ i < 128, phy i = 0xFF) :
    BtLog phy 0 fun _ => 0xFF :=
  ⟨.refl, by omega, fun i _ hi => h i hi⟩

end Rtl8821cu.BtEfuse
