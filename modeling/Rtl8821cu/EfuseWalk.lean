import Rtl8821cu.LibStore
import Rtl8821cu.Efuse

/-! The record walk of the efuse parser: it looks only at the records it passes, and passes the
records the writers encode. -/
namespace Rtl8821cu.Efuse
open Store

section Walk
variable {cfg : HwCfgInfo} {phy phy' : ByteMap}

/-- The parser passes from one position, with the map so far, to another, record by record. -/
def Walk (cfg : HwCfgInfo) (phy : ByteMap) : ℕ × ByteMap → ℕ × ByteMap → Prop :=
  Relation.ReflTransGen fun a b => parseStep cfg phy a.1 a.2 = .next b.1 b.2

theorem eepromParserLoop_next {i j : ℕ} {m m' : ByteMap}
    (h : parseStep cfg phy i m = .next j m') :
    eepromParserLoop cfg phy i m = eepromParserLoop cfg phy j m' := by
  rw [eepromParserLoop]
  split
  · rename_i e he
    rw [h] at he
    cases he
  · rename_i he
    rw [h] at he
    cases he
  · rename_i i' m'' he
    rw [h] at he
    cases he
    rfl

theorem eepromParserLoop_stop {i e : ℕ} {m : ByteMap} (h : parseStep cfg phy i m = .stop e) :
    eepromParserLoop cfg phy i m = some (e, m) := by
  rw [eepromParserLoop]
  split
  · rename_i e' he
    rw [h] at he
    cases he
    rfl
  · rename_i he
    rw [h] at he
    cases he
  · rename_i i' m'' he
    rw [h] at he
    cases he

theorem eepromParserLoop_fail {i : ℕ} {m : ByteMap} (h : parseStep cfg phy i m = .fail) :
    eepromParserLoop cfg phy i m = none := by
  rw [eepromParserLoop]
  split
  · rename_i e' he
    rw [h] at he
    cases he
  · rfl
  · rename_i i' m'' he
    rw [h] at he
    cases he

theorem Walk.loop_eq {a b : ℕ × ByteMap} (h : Walk cfg phy a b) :
    eepromParserLoop cfg phy a.1 a.2 = eepromParserLoop cfg phy b.1 b.2 := by
  induction h with
  | refl => rfl
  | tail _ hstep ih => rw [ih, eepromParserLoop_next hstep]

theorem Walk.le {a b : ℕ × ByteMap} (h : Walk cfg phy a b) : a.1 ≤ b.1 := by
  induction h with
  | refl => exact le_rfl
  | tail _ hstep ih => exact ih.trans (parseStep_next_lt cfg phy hstep).1.le

theorem parseHdr_congr {i j : ℕ} {b w : BitVec 8} (h : parseHdr phy i = some (j, b, w))
    (hag : ∀ k, i ≤ k → k ≤ j → phy k = phy' k) : parseHdr phy' i = some (j, b, w) := by
  have hle := parseHdr_le phy h
  have hi := hag i le_rfl hle
  simp only [parseHdr] at h ⊢
  rw [← hi]
  by_cases hext : phy i &&& 0x1f = 0x0f
  · simp only [hext, if_true] at h ⊢
    by_cases hblank : phy (i + 1) = 0xff
    · simp [hblank] at h
    · simp only [hblank, if_false, Option.some.injEq, Prod.mk.injEq] at h
      have hj := hag (i + 1) (by omega) (by omega)
      rw [← hj]
      simp only [hblank, if_false, Option.some.injEq, Prod.mk.injEq]
      exact h
  · simp only [hext, if_false] at h ⊢
    exact h

theorem parseWord_congr {b w : BitVec 8} {st st' : ℕ × ByteMap} {i : ℕ}
    (h : parseWord cfg phy b w st i = some st')
    (hag : ∀ k, st.1 ≤ k → k < st'.1 → phy k = phy' k) :
    parseWord cfg phy' b w st i = some st' := by
  simp only [parseWord] at h ⊢
  split_ifs at h ⊢ with h1 h2 h3 h4
  · obtain rfl := Option.some.inj h
    dsimp only at hag
    rw [hag st.1 le_rfl (by omega), hag (st.1 + 1) (by omega) (by omega)]
  · exact h

theorem foldlM_parseWord_congr {b w : BitVec 8} {l : List ℕ} {st st' : ℕ × ByteMap}
    (h : l.foldlM (parseWord cfg phy b w) st = some st')
    (hag : ∀ k, st.1 ≤ k → k < st'.1 → phy k = phy' k) :
    l.foldlM (parseWord cfg phy' b w) st = some st' := by
  induction l generalizing st with
  | nil => simpa using h
  | cons i l ih =>
    rw [List.foldlM_cons] at h ⊢
    obtain ⟨mid, hmid, hrest⟩ := Option.bind_eq_some_iff.mp h
    have hle := parseWord_le cfg phy hmid
    have hle' := foldlM_parseWord_le cfg phy hrest
    rw [parseWord_congr hmid fun k h1 h2 => hag k h1 (by omega)]
    exact ih hrest fun k h1 h2 => hag k (by omega) h2

/-- A record is read from its own bytes only. -/
theorem parseStep_congr {i j : ℕ} {m m' : ByteMap} (h : parseStep cfg phy i m = .next j m')
    (hag : ∀ k, i ≤ k → k < j → phy k = phy' k) : parseStep cfg phy' i m = .next j m' := by
  have hlt := (parseStep_next_lt cfg phy h).1
  unfold parseStep at h ⊢
  split at h
  · cases h
  · rename_i hdrEnd b w hhdr
    have hle := parseHdr_le phy hhdr
    split_ifs at h with h1 h2
    split at h
    · cases h
    · rename_i hfold
      cases h
      have hle' := foldlM_parseWord_le cfg phy hfold
      dsimp only at hle'
      rw [parseHdr_congr hhdr fun k h1 h2 => hag k h1 (by omega)]
      dsimp only
      rw [← hag i le_rfl hlt, if_neg h1, if_neg h2,
        foldlM_parseWord_congr hfold fun k h1 h2 => hag k (by dsimp only at h1; omega) h2]

theorem Walk.congr {a b : ℕ × ByteMap} (h : Walk cfg phy a b)
    (hag : ∀ k, a.1 ≤ k → k < b.1 → phy k = phy' k) : Walk cfg phy' a b := by
  induction h with
  | refl => exact .refl
  | tail hwalk hstep ih =>
    have hle := Walk.le hwalk
    have hlt := (parseStep_next_lt cfg phy hstep).1
    exact .tail (ih fun k h1 h2 => hag k h1 (by omega))
      (parseStep_congr hstep fun k h1 h2 => hag k (by omega) h2)

theorem parseStep_blank {i : ℕ} (m : ByteMap) (h : phy i = 0xff) :
    parseStep cfg phy i m = .stop i := by
  simp [parseStep, parseHdr, h]

/-- A walk that ends on a blank byte is what the parser returns. -/
theorem Walk.eepromParser_eq {e : ℕ} {m : ByteMap} (h : Walk cfg phy (0, fun _ => 0xFF) (e, m))
    (hblank : phy e = 0xff) : eepromParser cfg phy = some (e, m) := by
  unfold eepromParser
  rw [h.loop_eq]
  exact eepromParserLoop_stop (parseStep_blank m hblank)

end Walk

section Record
variable {cfg : HwCfgInfo} {phy : ByteMap}

theorem recordHdr_decode : ∀ blk < 16, ∀ i < 4,
    recordHdr (BitVec.ofNat 8 blk) i &&& 0x1f ≠ 0x0f ∧
      recordHdr (BitVec.ofNat 8 blk) i ≠ 0xff ∧
      ((recordHdr (BitVec.ofNat 8 blk) i &&& 0xF0) >>> 4).toNat = blk ∧
      recordHdr (BitVec.ofNat 8 blk) i &&& 0x0F = wordEnOf i := by
  decide

theorem extendedHdr_decode : ∀ blk < 128, ∀ i < 4,
    extendedHdr (BitVec.ofNat 8 blk) &&& 0x1f = 0x0f ∧
      extendedHdr (BitVec.ofNat 8 blk) ≠ 0xff ∧
      extendedHdr2 (BitVec.ofNat 8 blk) i ≠ 0xff ∧
      ((extendedHdr2 (BitVec.ofNat 8 blk) i &&& 0xF0) >>> 1 |||
        extendedHdr (BitVec.ofNat 8 blk) >>> 5 &&& 0x07).toNat = blk ∧
      extendedHdr2 (BitVec.ofNat 8 blk) i &&& 0x0F = wordEnOf i := by
  decide +kernel

theorem wordEnOf_enabled : ∀ i < 4, ∀ j < 4, ~~~(wordEnOf i >>> j) &&& 1 = 1 ↔ j = i := by
  decide

theorem parseWord_skip {i j : ℕ} (hi : i < 4) (hj : j < 4) (hne : j ≠ i) (b : BitVec 8)
    (st : ℕ × ByteMap) : parseWord cfg phy b (wordEnOf i) st j = some st := by
  unfold parseWord
  rw [if_neg (fun h => hne ((wordEnOf_enabled i hi j hj).mp h))]

theorem foldlM_parseWord_skip {i : ℕ} (hi : i < 4) (b : BitVec 8) (st : ℕ × ByteMap)
    {l : List ℕ} (hl : ∀ j ∈ l, j < 4 ∧ j ≠ i) :
    l.foldlM (parseWord cfg phy b (wordEnOf i)) st = some st := by
  induction l with
  | nil => rfl
  | cons j l ih =>
    obtain ⟨hj, hne⟩ := hl j (by simp)
    rw [List.foldlM_cons, parseWord_skip hi hj hne]
    exact ih fun k hk => hl k (by simp [hk])

/-- With one word enabled only its turn does anything. -/
theorem foldlM_parseWord_single {i : ℕ} (hi : i < 4) (b : BitVec 8) (st : ℕ × ByteMap) :
    [0, 1, 2, 3].foldlM (parseWord cfg phy b (wordEnOf i)) st =
      parseWord cfg phy b (wordEnOf i) st i := by
  obtain ⟨l₁, l₂, hl, hl₁, hl₂⟩ : ∃ l₁ l₂, [0, 1, 2, 3] = l₁ ++ i :: l₂ ∧
      (∀ j ∈ l₁, j < 4 ∧ j ≠ i) ∧ ∀ j ∈ l₂, j < 4 ∧ j ≠ i := by
    obtain rfl | rfl | rfl | rfl : i = 0 ∨ i = 1 ∨ i = 2 ∨ i = 3 := by omega
    · exact ⟨[], [1, 2, 3], rfl, by simp, by simp⟩
    · exact ⟨[0], [2, 3], rfl, by simp, by simp⟩
    · exact ⟨[0, 1], [3], rfl, by simp, by simp⟩
    · exact ⟨[0, 1, 2], [], rfl, by simp, by simp⟩
  rw [hl, List.foldlM_append, foldlM_parseWord_skip hi b _ hl₁, Option.bind_eq_bind,
    Option.bind_some, List.foldlM_cons]
  cases parseWord cfg phy b (wordEnOf i) st i with
  | none => rfl
  | some st' => exact foldlM_parseWord_skip hi b _ hl₂

/-- With one word enabled the four turns store that word and nothing else. -/
theorem foldlM_parseWord_one {i e : ℕ} (hi : i < 4) {b : BitVec 8} (m : ByteMap)
    (hlog : b.toNat * 8 + i * 2 + 1 ≤ cfg.eepromSize) (h1 : e + 1 ≤ sub32 cfg.usable 1)
    (h2 : e + 2 ≤ cfg.usable) :
    [0, 1, 2, 3].foldlM (parseWord cfg phy b (wordEnOf i)) (e, m) =
      some (e + 2, Function.update (Function.update m (b.toNat * 8 + i * 2) (phy e))
        (b.toNat * 8 + i * 2 + 1) (phy (e + 1))) := by
  rw [foldlM_parseWord_single hi]
  unfold parseWord
  rw [if_pos ((wordEnOf_enabled i hi i hi).mpr rfl)]
  dsimp only
  rw [if_neg (by omega), if_neg (by omega), if_neg (by omega)]

/-- With one word enabled, outside the logical map, the parser gives up. -/
theorem foldlM_parseWord_outside {i e : ℕ} (hi : i < 4) {b : BitVec 8} (m : ByteMap)
    (hlog : cfg.eepromSize < b.toNat * 8 + i * 2 + 1) :
    [0, 1, 2, 3].foldlM (parseWord cfg phy b (wordEnOf i)) (e, m) = none := by
  rw [foldlM_parseWord_single hi]
  unfold parseWord
  rw [if_pos ((wordEnOf_enabled i hi i hi).mpr rfl)]
  dsimp only
  rw [if_pos hlog]

/-- The length of the record for the word at `offset`. -/
def recordLen (offset : ℕ) : ℕ := if 0x7f < offset then 4 else 3

theorem length_recordHdrBytes (offset : ℕ) : (recordHdrBytes offset).length + 2 = recordLen offset := by
  unfold recordHdrBytes recordLen
  dsimp only
  split <;> rfl

/-- The parser passes a record that either writer encodes and stores its two bytes at the even
offset it was written for. -/
theorem parseStep_record {offset e : ℕ} {byte1 byte2 : BitVec 8} (m : ByteMap)
    (h8 : cfg.eepromSize % 8 = 0) (h1024 : cfg.eepromSize ≤ 1024) (hoff : offset < cfg.eepromSize)
    (hroom : ¬ cfg.efuseSize ≤ recordLen offset + cfg.prtctEfuseSize + e)
    (hphy : HoldsAt phy e (recordHdrBytes offset ++ [byte1, byte2])) :
    parseStep cfg phy e m = .next (e + recordLen offset)
      (Function.update (Function.update m (offset / 2 * 2) byte1) (offset / 2 * 2 + 1) byte2) := by
  have hpos : 3 ≤ recordLen offset := by
    unfold recordLen
    split <;> omega
  have hus : cfg.usable = cfg.efuseSize - cfg.prtctEfuseSize := if_pos (by omega)
  have hus1 : sub32 cfg.usable 1 = cfg.usable - 1 := if_pos (by omega)
  have hi : offset % 8 / 2 < 4 := by omega
  have hidx : offset / 8 * 8 + offset % 8 / 2 * 2 = offset / 2 * 2 := by omega
  by_cases hext : 0x7f < offset
  · obtain ⟨hc1, hc2, hc3, hc4, hc5⟩ := extendedHdr_decode (offset / 8) (by omega) _ hi
    simp only [recordHdrBytes, hext, if_true, List.cons_append, List.nil_append, holdsAt_cons]
      at hphy
    obtain ⟨p0, p1, p2, p3, -⟩ := hphy
    simp only [recordLen, hext, if_true] at hroom ⊢
    simp only [parseStep, parseHdr, p0, p1, hc1, hc2, hc3, hc5, if_true, if_false]
    rw [if_neg (by omega), foldlM_parseWord_one hi m (by omega) (by omega) (by omega)]
    simp only [hc4, hidx, p2, p3]
  · obtain ⟨hc1, hc2, hc3, hc4⟩ := recordHdr_decode (offset / 8) (by omega) _ hi
    simp only [recordHdrBytes, hext, if_false, List.cons_append, List.nil_append, holdsAt_cons]
      at hphy
    obtain ⟨p0, p1, p2, -⟩ := hphy
    simp only [recordLen, hext, if_false] at hroom ⊢
    simp only [parseStep, parseHdr, p0, hc1, hc2, hc4, if_false]
    rw [if_neg (by omega), foldlM_parseWord_one hi m (by omega) (by omega) (by omega)]
    simp only [hc3, hidx, p1, p2]

end Record

end Rtl8821cu.Efuse
