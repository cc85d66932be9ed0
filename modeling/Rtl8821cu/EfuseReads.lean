import Rtl8821cu.LibLoop
import Rtl8821cu.EfuseCmd

/-! What the efuse parser reads and writes (`hal/halmac/halmac_88xx/halmac_efuse_88xx.c`). -/
namespace Rtl8821cu.EfuseReads
open Reads Loop Rtl8821cu.Walk Efuse

/-- The sizes that the parser takes from `hw_cfg_info`. -/
structure Sizes where
  efuseSize : ℕ
  eepromSize : ℕ
  prtctEfuseSize : ℕ

/-- `efuse_size - prtct_efuse_size`. -/
def Sizes.usable (z : Sizes) : ℕ := sub32 z.efuseSize z.prtctEfuseSize

/-- The bytes written to `log_map` behind its initial `0xFF`, with their offsets. -/
abbrev Writes := List (ℕ × BitVec 8)

/-- The header at `efuseIdx`: its first byte, and what `parseHdr` makes of it. -/
def readHdr (efuseIdx : ℕ) :
    Reading (BitVec 8) (BitVec 8 × Option (ℕ × BitVec 8 × BitVec 8)) := do
  let hdr ← cell efuseIdx
  if hdr &&& 0x1f = 0x0f then do
    let hdr2 ← cell (efuseIdx + 1)
    if hdr2 = 0xff then pure (hdr, none)
    else pure (hdr, some (efuseIdx + 1, (hdr2 &&& 0xF0) >>> 1 ||| hdr >>> 5 &&& 0x07,
      hdr2 &&& 0x0F))
  else pure (hdr, some (efuseIdx, (hdr &&& 0xF0) >>> 4, hdr &&& 0x0F))

/-- `valid` of the word `i`. -/
def enabled (wordEn : BitVec 8) (i : ℕ) : Prop := ~~~(wordEn >>> i) &&& 1 = 1

instance (wordEn : BitVec 8) : DecidablePred (enabled wordEn) :=
  fun _ => inferInstanceAs (Decidable (_ = _))

section Parser

variable (z : Sizes)

/-- A turn of the loop over the words of a record: the writes so far, and where the next word is
unless the parsing fails. -/
def readWord (blkIdx wordEn : BitVec 8) (i efuseIdx : ℕ) (w : Writes) :
    Reading (BitVec 8) (Writes × Option ℕ) :=
  if enabled wordEn i then
    let eepromIdx := blkIdx.toNat * 8 + i * 2
    if z.eepromSize < eepromIdx + 1 then pure (w, none)
    else do
      let value8 ← cell efuseIdx
      let w := w ++ [(eepromIdx, value8)]
      if sub32 z.usable 1 < efuseIdx + 1 then pure (w, none)
      else do
        let value8 ← cell (efuseIdx + 1)
        let w := w ++ [(eepromIdx + 1, value8)]
        if z.usable < efuseIdx + 2 then pure (w, none) else pure (w, some (efuseIdx + 2))
  else pure (w, some efuseIdx)

def readWords (blkIdx wordEn : BitVec 8) :
    List ℕ → ℕ → Writes → Reading (BitVec 8) (Writes × Option ℕ)
  | [], efuseIdx, w => pure (w, some efuseIdx)
  | i :: l, efuseIdx, w => do
    match ← readWord z blkIdx wordEn i efuseIdx w with
    | (w, none) => pure (w, none)
    | (w, some efuseIdx) => readWords blkIdx wordEn l efuseIdx w

/-- How the parser ends: what it wrote, and `efuse_end` unless the parsing failed. -/
structure Parsed where
  writes : Writes
  efuseEnd : Option ℕ

/-- A turn of the record loop of `eeprom_parser_88xx`. -/
def parserTurn (st : ℕ × Writes) : Reading (BitVec 8) (Turn (ℕ × Writes) Parsed) := do
  let r ← readHdr st.1
  match r.2 with
  | none => pure (.leave ⟨st.2, some (st.1 + 1)⟩)
  | some (hdrEnd, blkIdx, wordEn) =>
    if r.1 = 0xff then pure (.leave ⟨st.2, some hdrEnd⟩)
    else if sub32 z.usable 1 ≤ hdrEnd + 1 then pure (.leave ⟨st.2, none⟩)
    else do
      match ← readWords z blkIdx wordEn [0, 1, 2, 3] (hdrEnd + 1) st.2 with
      | (w, none) => pure (.leave ⟨w, none⟩)
      | (w, some efuseIdx) => pure (.next (efuseIdx, w))

/-- `eeprom_parser_88xx`, for as many records as turns are allowed. -/
def eepromParser88xx (turns : ℕ) : Reading (BitVec 8) (Option Parsed) :=
  run (parserTurn z) turns (0, [])

/-- What `get_efuse_available_size_88xx` computes from `efuse_end`. -/
def availableSize (efuseEnd : ℕ) : ℕ := sub32 z.usable efuseEnd

/-- Where the words of a record end that are all inside the log map and the usable area. -/
def wordsEnd (blkIdx wordEn : BitVec 8) : List ℕ → ℕ → Option ℕ
  | [], efuseIdx => some efuseIdx
  | i :: l, efuseIdx =>
    if enabled wordEn i then
      if z.eepromSize < blkIdx.toNat * 8 + i * 2 + 1 ∨ z.usable < efuseIdx + 2 then none
      else wordsEnd blkIdx wordEn l (efuseIdx + 2)
    else wordsEnd blkIdx wordEn l efuseIdx

/-- An enabled word of a record is at `p`; it and those in front of it are inside the log map. -/
def WordAt (blkIdx wordEn : BitVec 8) (p : ℕ) : List ℕ → ℕ → Prop
  | [], _ => False
  | i :: l, efuseIdx =>
    if enabled wordEn i then
      ¬z.eepromSize < blkIdx.toNat * 8 + i * 2 + 1 ∧
        (efuseIdx = p ∨ WordAt blkIdx wordEn p l (efuseIdx + 2))
    else WordAt blkIdx wordEn p l efuseIdx

variable (phy : ByteMap)

/-- From a record to the next one, when it is complete. -/
def nextRecord (efuseIdx : ℕ) : Option ℕ :=
  match parseHdr phy efuseIdx with
  | none => none
  | some (hdrEnd, blkIdx, wordEn) =>
    if phy efuseIdx = 0xff ∨ sub32 z.usable 1 ≤ hdrEnd + 1 then none
    else wordsEnd z blkIdx wordEn [0, 1, 2, 3] (hdrEnd + 1)

/-- The record walk comes to `i`. -/
def Passed (i : ℕ) : Prop := Reaches (nextRecord z phy) 0 i

/-- The header at `i` has two bytes. -/
def Extended (i : ℕ) : Prop := phy i &&& 0x1f = 0x0f

/-- The record at `i` has a word at `p`. -/
def RecordWordAt (i p : ℕ) : Prop :=
  ∃ hdrEnd blkIdx wordEn, parseHdr phy i = some (hdrEnd, blkIdx, wordEn) ∧ phy i ≠ 0xff ∧
    hdrEnd + 1 < sub32 z.usable 1 ∧ WordAt z blkIdx wordEn p [0, 1, 2, 3] (hdrEnd + 1)

/-- The parser ends, reads inside the efuse and writes inside the log map only, and the end that it
sets is inside the usable area, so that the size computed from it is no more than that. -/
structure Bounded : Prop where
  halts : Halts (parserTurn z) phy (0, [])
  reads : ∀ n, (eepromParser88xx z n).Inside phy 0 z.efuseSize
  result : ∀ n, ∀ r ∈ (eepromParser88xx z n).value phy,
    (∀ x ∈ r.writes, x.1 < z.eepromSize) ∧ ∀ e ∈ r.efuseEnd,
      e ≤ z.efuseSize - z.prtctEfuseSize ∧ availableSize z e ≤ z.efuseSize - z.prtctEfuseSize

/-- What the records do at the end of the usable area does not lead out of the efuse. -/
structure Harmless : Prop where
  header : Passed z phy z.usable → 0 < z.prtctEfuseSize ∧
    (Extended phy z.usable → 1 < z.prtctEfuseSize ∧ phy (z.usable + 1) ≠ 0xff)
  second : ∀ i, Passed z phy i → i + 1 = z.usable → Extended phy i → 0 < z.prtctEfuseSize
  word : ∀ i, Passed z phy i → RecordWordAt z phy i z.usable → 0 < z.prtctEfuseSize

end Parser

section Words

variable {z : Sizes} {phy : ByteMap} {blkIdx wordEn : BitVec 8} {l : List ℕ} {idx p : ℕ}
  {w : Writes}

/-- With two bytes below the protected area, the last of them has an address of its own. -/
theorem sub32_usable (h : 2 ≤ z.usable) : sub32 z.usable 1 = z.usable - 1 := if_pos (by omega)

theorem wordAt_le (h : WordAt z blkIdx wordEn p l idx) : idx ≤ p := by
  induction l generalizing idx with
  | nil => exact h.elim
  | cons i l ih =>
    rw [WordAt] at h
    split_ifs at h
    · rcases h.2 with rfl | h
      · exact le_rfl
      · have := ih h
        omega
    · exact ih h

/-- What the loop over the words returns, and that it writes inside the log map. -/
theorem readWords_value (phy : ByteMap) (blkIdx wordEn : BitVec 8) (l : List ℕ) (idx : ℕ)
    (w : Writes) (hz : 2 ≤ z.usable) (heven : z.eepromSize % 2 = 0) :
    ∃ ws, (readWords z blkIdx wordEn l idx w).value phy =
        (w ++ ws, wordsEnd z blkIdx wordEn l idx) ∧ ∀ x ∈ ws, x.1 < z.eepromSize := by
  have hsub := sub32_usable hz
  induction l generalizing idx w with
  | nil => exact ⟨[], by rw [List.append_nil]; rfl, nofun⟩
  | cons i l ih =>
    rw [readWords, value_bind, readWord, wordsEnd]
    by_cases hen : enabled wordEn i
    · rw [if_pos hen, if_pos hen]
      dsimp only
      by_cases hmap : z.eepromSize < blkIdx.toNat * 8 + i * 2 + 1
      · rw [if_pos hmap, if_pos (Or.inl hmap)]
        exact ⟨[], by rw [List.append_nil]; rfl, nofun⟩
      · rw [if_neg hmap, value_cell_bind]
        by_cases hfirst : sub32 z.usable 1 < idx + 1
        · rw [if_pos hfirst, if_pos (Or.inr (by omega))]
          refine ⟨_, rfl, ?_⟩
          simp only [List.mem_singleton, forall_eq]
          omega
        · rw [if_neg hfirst, value_cell_bind]
          have hlast : ¬z.usable < idx + 2 := by omega
          rw [if_neg hlast, if_neg (not_or.mpr ⟨hmap, hlast⟩)]
          obtain ⟨ws, hws, hin⟩ := ih (idx + 2) (w ++ [(blkIdx.toNat * 8 + i * 2, phy idx)] ++
            [(blkIdx.toNat * 8 + i * 2 + 1, phy (idx + 1))])
          refine ⟨(blkIdx.toNat * 8 + i * 2, phy idx) :: (blkIdx.toNat * 8 + i * 2 + 1,
            phy (idx + 1)) :: ws, ?_, ?_⟩
          · rw [value_pure]
            dsimp only
            rw [hws]
            simp only [List.append_assoc, List.cons_append, List.nil_append]
          · simp only [List.forall_mem_cons]
            exact ⟨by omega, by omega, hin⟩
    · rw [if_neg hen, if_neg hen]
      exact ih idx w

/-- The loop over the words reads below the protected area, but for a word that would start
there. -/
theorem readWords_inside (hz : 2 ≤ z.usable) (hle : z.usable ≤ z.efuseSize)
    (hidx : idx ≤ z.usable) : (readWords z blkIdx wordEn l idx w).Inside phy 0 z.efuseSize ↔
      (WordAt z blkIdx wordEn z.usable l idx → z.usable < z.efuseSize) := by
  have hsub := sub32_usable hz
  induction l generalizing idx w with
  | nil =>
    rw [readWords]
    exact ⟨fun _ h => h.elim, fun _ => inside_pure _⟩
  | cons i l ih =>
    rw [readWords, inside_bind, readWord, WordAt]
    by_cases hen : enabled wordEn i
    · rw [if_pos hen, if_pos hen]
      dsimp only
      by_cases hmap : z.eepromSize < blkIdx.toNat * 8 + i * 2 + 1
      · rw [if_pos hmap]
        exact ⟨fun _ h => absurd hmap h.1, fun _ => ⟨inside_pure _, inside_pure _⟩⟩
      · rw [if_neg hmap, inside_cell_bind, value_cell_bind]
        by_cases hfirst : sub32 z.usable 1 < idx + 1
        · rw [if_pos hfirst]
          have hnot : ¬WordAt z blkIdx wordEn z.usable l (idx + 2) := by
            intro h
            have := wordAt_le h
            omega
          constructor
          · rintro ⟨⟨hin, -⟩, -⟩ ⟨-, rfl | h⟩
            · omega
            · exact absurd h hnot
          · intro h
            refine ⟨⟨⟨Nat.zero_le _, ?_⟩, inside_pure _⟩, inside_pure _⟩
            rcases Nat.lt_or_ge idx z.usable with hlt | hge
            · omega
            · have := h ⟨hmap, Or.inl (by omega)⟩
              omega
        · rw [if_neg hfirst, inside_cell_bind, value_cell_bind]
          have hlast : ¬z.usable < idx + 2 := by omega
          rw [if_neg hlast, value_pure]
          constructor
          · rintro ⟨-, h⟩ ⟨-, rfl | hword⟩
            · omega
            · exact (ih (by omega)).mp h hword
          · intro h
            refine ⟨⟨⟨Nat.zero_le _, by omega⟩, ⟨Nat.zero_le _, by omega⟩, inside_pure _⟩, ?_⟩
            exact (ih (by omega)).mpr fun hword => h ⟨hmap, Or.inr hword⟩
    · rw [if_neg hen, if_neg hen, value_pure]
      exact ⟨fun h => (ih hidx).mp h.2, fun h => ⟨inside_pure _, (ih hidx).mpr h⟩⟩

end Words

section Turns

variable {z : Sizes} {phy : ByteMap} {i j : ℕ} {w : Writes}

theorem readHdr_value : (readHdr i).value phy = (phy i, parseHdr phy i) := by
  rw [readHdr, value_cell_bind, parseHdr]
  dsimp only
  by_cases hext : phy i &&& 0x1f = 0x0f
  · rw [if_pos hext, if_pos hext, value_cell_bind]
    by_cases hblank : phy (i + 1) = 0xff
    · rw [if_pos hblank, if_pos hblank, value_pure]
    · rw [if_neg hblank, if_neg hblank, value_pure]
  · rw [if_neg hext, if_neg hext, value_pure]

theorem readHdr_inside {n : ℕ} :
    (readHdr i).Inside phy 0 n ↔ i < n ∧ (Extended phy i → i + 1 < n) := by
  rw [readHdr, inside_cell_bind]
  by_cases hext : phy i &&& 0x1f = 0x0f
  · have hrest : (if phy (i + 1) = 0xff then
        (pure (phy i, none) : Reading (BitVec 8) (BitVec 8 × Option (ℕ × BitVec 8 × BitVec 8)))
        else pure (phy i, some (i + 1, (phy (i + 1) &&& 0xF0) >>> 1 ||| phy i >>> 5 &&& 0x07,
          phy (i + 1) &&& 0x0F))).Inside phy 0 n := by
      split_ifs <;> exact inside_pure _
    rw [if_pos hext, inside_cell_bind]
    constructor
    · rintro ⟨hi, hnext, -⟩
      exact ⟨by omega, fun _ => by omega⟩
    · rintro ⟨hi, hnext⟩
      have := hnext hext
      exact ⟨by omega, by omega, hrest⟩
  · rw [if_neg hext]
    constructor
    · rintro ⟨hi, -⟩
      exact ⟨by omega, fun h => absurd h hext⟩
    · rintro ⟨hi, -⟩
      exact ⟨by omega, inside_pure _⟩

theorem parseHdr_eq_none : parseHdr phy i = none ↔ Extended phy i ∧ phy (i + 1) = 0xff := by
  rw [parseHdr, Extended]
  dsimp only
  by_cases hext : phy i &&& 0x1f = 0x0f
  · rw [if_pos hext]
    by_cases hblank : phy (i + 1) = 0xff
    · rw [if_pos hblank]
      exact ⟨fun _ => ⟨hext, hblank⟩, fun _ => rfl⟩
    · rw [if_neg hblank]
      exact iff_of_false (Option.some_ne_none _) fun h => hblank h.2
  · rw [if_neg hext]
    exact iff_of_false (Option.some_ne_none _) fun h => hext h.1

/-- Where the header ends that starts a record. -/
theorem parseHdr_end {b e : BitVec 8} (h : parseHdr phy i = some (j, b, e)) :
    (Extended phy i ∧ j = i + 1) ∨ (¬Extended phy i ∧ j = i) := by
  rw [parseHdr] at h
  dsimp only at h
  split_ifs at h with hext hblank
  · cases h
    exact Or.inl ⟨hext, rfl⟩
  · cases h
    exact Or.inr ⟨hext, rfl⟩

theorem not_extended_blank (h : phy i = 0xff) : ¬Extended phy i := by
  rw [Extended, h]
  decide

theorem wordsEnd_le {b e : BitVec 8} {l : List ℕ} {idx : ℕ}
    (h : wordsEnd z b e l idx = some j) : idx ≤ j ∧ (idx ≤ z.usable → j ≤ z.usable) := by
  induction l generalizing idx with
  | nil =>
    cases h
    exact ⟨le_rfl, id⟩
  | cons i l ih =>
    rw [wordsEnd] at h
    split_ifs at h with hen hout
    · obtain ⟨hle, hin⟩ := ih h
      exact ⟨by omega, fun _ => hin (by omega)⟩
    · exact ih h

/-- The walk goes on from below the end of the usable area, and not beyond it. -/
theorem nextRecord_lt (hz : 2 ≤ z.usable) (h : nextRecord z phy i = some j) :
    i < j ∧ i < z.usable ∧ j ≤ z.usable := by
  have hsub := sub32_usable hz
  rw [nextRecord] at h
  split at h
  · cases h
  · rename_i hdrEnd b e hhdr
    split_ifs at h with hstop
    obtain ⟨hle, hin⟩ := wordsEnd_le h
    have hend := parseHdr_le phy hhdr
    omega

theorem passed_le (hz : 2 ≤ z.usable) (h : Passed z phy i) : i ≤ z.usable := by
  induction h with
  | refl => omega
  | tail _ hstep _ => exact (nextRecord_lt hz hstep).2.2

/-- What a turn returns. -/
theorem parserTurn_value (phy : ByteMap) (i : ℕ) (w : Writes) (hz : 2 ≤ z.usable)
    (heven : z.eepromSize % 2 = 0) : ∃ ws, (∀ x ∈ ws, x.1 < z.eepromSize) ∧
    (parserTurn z (i, w)).value phy =
      match nextRecord z phy i with
      | some j => .next (j, w ++ ws)
      | none => .leave ⟨w ++ ws,
          if parseHdr phy i = none then some (i + 1)
          else if phy i = 0xff then some i else none⟩ := by
  rw [parserTurn, value_bind, readHdr_value, nextRecord]
  dsimp only
  cases hhdr : parseHdr phy i with
  | none =>
    refine ⟨[], nofun, ?_⟩
    dsimp only
    rw [value_pure, if_pos rfl, List.append_nil]
  | some r =>
    obtain ⟨hdrEnd, b, e⟩ := r
    dsimp only
    rw [if_neg (Option.some_ne_none _)]
    by_cases hblank : phy i = 0xff
    · have hj : hdrEnd = i :=
        (parseHdr_end hhdr).elim (fun h => absurd h.1 (not_extended_blank hblank)) (·.2)
      refine ⟨[], nofun, ?_⟩
      rw [if_pos hblank, if_pos (Or.inl hblank), value_pure, List.append_nil, hj]
      dsimp only
      rw [if_pos hblank]
    · by_cases hstop : sub32 z.usable 1 ≤ hdrEnd + 1
      · refine ⟨[], nofun, ?_⟩
        rw [if_neg hblank, if_pos hstop, if_pos (Or.inr hstop), value_pure, List.append_nil]
        dsimp only
        rw [if_neg hblank]
      · obtain ⟨ws, hws, hin⟩ :=
          readWords_value phy b e [0, 1, 2, 3] (hdrEnd + 1) w hz heven
        refine ⟨ws, hin, ?_⟩
        rw [if_neg hblank, if_neg hstop, if_neg (not_or.mpr ⟨hblank, hstop⟩), value_bind, hws]
        cases wordsEnd z b e [0, 1, 2, 3] (hdrEnd + 1) with
        | none =>
          dsimp only
          rw [value_pure, if_neg hblank]
        | some j => rfl

/-- The reads of a turn. -/
theorem parserTurn_inside (hz : 2 ≤ z.usable) (hle : z.usable ≤ z.efuseSize) :
    (parserTurn z (i, w)).Inside phy 0 z.efuseSize ↔
      i < z.efuseSize ∧ (Extended phy i → i + 1 < z.efuseSize) ∧
        (RecordWordAt z phy i z.usable → z.usable < z.efuseSize) := by
  rw [parserTurn, inside_bind, readHdr_inside, readHdr_value, and_assoc]
  refine and_congr_right fun hin => and_congr_right fun hext => ?_
  dsimp only
  have hsub := sub32_usable hz
  cases hhdr : parseHdr phy i with
  | none =>
    refine ⟨fun _ => ?_, fun _ => inside_pure _⟩
    rintro ⟨j, b, e, h, -⟩
    rw [hhdr] at h
    cases h
  | some r =>
    obtain ⟨hdrEnd, b, e⟩ := r
    dsimp only
    by_cases hblank : phy i = 0xff
    · rw [if_pos hblank]
      refine ⟨fun _ => ?_, fun _ => inside_pure _⟩
      rintro ⟨j, b, e, -, hne, -⟩
      exact absurd hblank hne
    · by_cases hstop : sub32 z.usable 1 ≤ hdrEnd + 1
      · rw [if_neg hblank, if_pos hstop]
        refine ⟨fun _ => ?_, fun _ => inside_pure _⟩
        rintro ⟨j, b, e, h, -, hlt, -⟩
        rw [hhdr] at h
        cases h
        omega
      · rw [if_neg hblank, if_neg hstop, inside_bind, readWords_inside hz hle (by omega)]
        have hrest : ∀ r : Writes × Option ℕ, (match r with
            | (w, none) => (pure (.leave ⟨w, none⟩) :
                Reading (BitVec 8) (Turn (ℕ × Writes) Parsed))
            | (w, some efuseIdx) => pure (.next (efuseIdx, w))).Inside phy 0 z.efuseSize := by
          rintro ⟨w, j | j⟩ <;> exact inside_pure _
        constructor
        · rintro ⟨h, -⟩ ⟨j, b', e', hhdr', -, -, hword⟩
          rw [hhdr] at hhdr'
          cases hhdr'
          exact h hword
        · intro h
          exact ⟨fun hword => h ⟨hdrEnd, b, e, hhdr, hblank, by omega, hword⟩, hrest _⟩

end Turns

section Runs

variable {z : Sizes} {phy : ByteMap} {i j : ℕ} {t u : ℕ × Writes}

/-- The loop goes from record to record, and writes inside the log map. -/
theorem nextRecord_of_nextState (hz : 2 ≤ z.usable) (heven : z.eepromSize % 2 = 0)
    (h : nextState (parserTurn z) phy t = some u) : nextRecord z phy t.1 = some u.1 ∧
      ((∀ x ∈ t.2, x.1 < z.eepromSize) → ∀ x ∈ u.2, x.1 < z.eepromSize) := by
  obtain ⟨i, w⟩ := t
  obtain ⟨ws, hws, hvalue⟩ := parserTurn_value phy i w hz heven
  rw [nextState, hvalue] at h
  dsimp only
  cases hnext : nextRecord z phy i with
  | none =>
    rw [hnext] at h
    cases h
  | some j =>
    rw [hnext] at h
    cases h
    refine ⟨rfl, fun hw x hx => ?_⟩
    rcases List.mem_append.mp hx with hx | hx
    · exact hw x hx
    · exact hws x hx

theorem passed_of_reaches (hz : 2 ≤ z.usable) (heven : z.eepromSize % 2 = 0)
    (h : Reaches (nextState (parserTurn z) phy) (0, []) t) :
    Passed z phy t.1 ∧ ∀ x ∈ t.2, x.1 < z.eepromSize := by
  induction h with
  | refl => exact ⟨.refl 0, nofun⟩
  | tail _ hstep ih =>
    obtain ⟨hpassed, hw⟩ := ih
    obtain ⟨hnext, hw'⟩ := nextRecord_of_nextState hz heven hstep
    exact ⟨.tail hpassed hnext, hw' hw⟩

theorem reaches_of_passed (hz : 2 ≤ z.usable) (heven : z.eepromSize % 2 = 0)
    (h : Passed z phy i) : ∃ w, Reaches (nextState (parserTurn z) phy) (0, []) (i, w) := by
  induction h with
  | refl => exact ⟨[], .refl (0, [])⟩
  | @tail i j _ hstep ih =>
    obtain ⟨w, hw⟩ := ih
    obtain ⟨ws, -, hvalue⟩ := parserTurn_value phy i w hz heven
    rw [hstep] at hvalue
    exact ⟨w ++ ws, .tail hw (nextState_next hvalue)⟩

/-- The record loop comes to its end. -/
theorem parser_halts (hz : 2 ≤ z.usable) (heven : z.eepromSize % 2 = 0) :
    Halts (parserTurn z) phy (0, []) := by
  refine halts_of_measure (fun t => z.usable - t.1) fun t u h => ?_
  have hlt := nextRecord_lt hz (nextRecord_of_nextState hz heven h).1
  omega

/-- With which end the parser leaves. -/
theorem leave_cases (hz : 2 ≤ z.usable) (heven : z.eepromSize % 2 = 0) {r : Parsed}
    (h : (parserTurn z t).value phy = .leave r) :
    (∃ ws, (∀ x ∈ ws, x.1 < z.eepromSize) ∧ r.writes = t.2 ++ ws) ∧ ∀ e ∈ r.efuseEnd,
      (e = t.1 + 1 ∧ Extended phy t.1 ∧ phy (t.1 + 1) = 0xff) ∨ e = t.1 := by
  obtain ⟨i, w⟩ := t
  obtain ⟨ws, hws, hvalue⟩ := parserTurn_value phy i w hz heven
  rw [h] at hvalue
  cases hnext : nextRecord z phy i with
  | some j =>
    rw [hnext] at hvalue
    cases hvalue
  | none =>
    rw [hnext] at hvalue
    cases hvalue
    refine ⟨⟨ws, hws, rfl⟩, fun e he => ?_⟩
    dsimp only at he ⊢
    split_ifs at he with hhdr hblank
    · cases he
      exact Or.inl ⟨rfl, parseHdr_eq_none.mp hhdr⟩
    · cases he
      exact Or.inr rfl
    · cases he

/-- A header whose second byte is blank ends the parsing behind it. -/
theorem leave_of_blank (hz : 2 ≤ z.usable) (heven : z.eepromSize % 2 = 0) {w : Writes}
    (hext : Extended phy i) (hblank : phy (i + 1) = 0xff) :
    ∃ r : Parsed, (parserTurn z (i, w)).value phy = .leave r ∧ r.efuseEnd = some (i + 1) := by
  obtain ⟨ws, -, hvalue⟩ := parserTurn_value phy i w hz heven
  have hhdr := parseHdr_eq_none.mpr ⟨hext, hblank⟩
  have hnext : nextRecord z phy i = none := by rw [nextRecord, hhdr]
  rw [hnext, if_pos hhdr] at hvalue
  exact ⟨_, hvalue, rfl⟩

/-- The parser is bounded exactly when the records do no harm at the end of the usable area. -/
theorem eepromParser88xx_bounded_iff (hroom : z.prtctEfuseSize + 2 ≤ z.efuseSize)
    (heven : z.eepromSize % 2 = 0) : Bounded z phy ↔ Harmless z phy := by
  have hus : z.usable = z.efuseSize - z.prtctEfuseSize := if_pos (by omega)
  have hz : 2 ≤ z.usable := by omega
  have hle : z.usable ≤ z.efuseSize := by omega
  constructor
  · rintro ⟨-, hreads, hresult⟩
    have hturn : ∀ i, Passed z phy i → i < z.efuseSize ∧ (Extended phy i → i + 1 < z.efuseSize) ∧
        (RecordWordAt z phy i z.usable → z.usable < z.efuseSize) := by
      intro i hi
      obtain ⟨w, hw⟩ := reaches_of_passed hz heven hi
      exact (parserTurn_inside hz hle).mp (forall_inside_iff.mp hreads _ hw)
    refine ⟨fun hend => ⟨?_, fun hext => ⟨?_, fun hblank => ?_⟩⟩, ?_, ?_⟩
    · have := (hturn _ hend).1
      omega
    · have := (hturn _ hend).2.1 hext
      omega
    · obtain ⟨w, hw⟩ := reaches_of_passed hz heven hend
      obtain ⟨r, hleave, he⟩ := leave_of_blank hz heven (w := w) hext hblank
      have := (forall_result_iff.mp hresult _ hw r hleave).2 _ he
      omega
    · intro i hi hlast hext
      have := (hturn i hi).2.1 hext
      omega
    · intro i hi hword
      have := (hturn i hi).2.2 hword
      omega
  · rintro ⟨hheader, hsecond, hword⟩
    refine ⟨parser_halts hz heven, forall_inside_iff.mpr fun t ht => ?_,
      forall_result_iff.mpr fun t ht r hr => ?_⟩
    · obtain ⟨hpassed, -⟩ := passed_of_reaches hz heven ht
      have hi := passed_le hz hpassed
      obtain ⟨i, w⟩ := t
      dsimp only at hi hpassed
      refine (parserTurn_inside hz hle).mpr ⟨?_, fun hext => ?_, fun h => ?_⟩
      · rcases Nat.lt_or_eq_of_le hi with hlt | rfl
        · omega
        · have := (hheader hpassed).1
          omega
      · rcases Nat.lt_or_eq_of_le hi with hlt | rfl
        · rcases Nat.lt_or_eq_of_le hlt with hlt' | hlast
          · omega
          · have := hsecond i hpassed hlast hext
            omega
        · have := ((hheader hpassed).2 hext).1
          omega
      · have := hword i hpassed h
        omega
    · obtain ⟨hpassed, hw⟩ := passed_of_reaches hz heven ht
      obtain ⟨⟨ws, hws, hwrites⟩, hend⟩ := leave_cases hz heven hr
      refine ⟨fun x hx => ?_, fun e he => ?_⟩
      · rw [hwrites] at hx
        rcases List.mem_append.mp hx with hx | hx
        · exact hw x hx
        · exact hws x hx
      · have hi := passed_le hz hpassed
        have hle' : e ≤ z.usable := by
          rcases hend e he with ⟨rfl, hext, hblank⟩ | rfl
          · rcases Nat.lt_or_eq_of_le hi with hlt | heq
            · omega
            · rw [heq] at hpassed hext hblank
              exact absurd hblank ((hheader hpassed).2 hext).2
          · exact hi
        rw [availableSize, sub32, if_pos hle']
        omega

/-- An efuse with one record, of one word. -/
def oneWordEfuse : ByteMap := fun i => [0x0E, 0x12, 0x34].getD i 0xFF

theorem oneWordEfuse_bounded : Bounded ⟨512, 512, 96⟩ oneWordEfuse := by
  have hwalk : ∀ i, Passed ⟨512, 512, 96⟩ oneWordEfuse i → i = 0 ∨ i = 3 := by
    intro i h
    rw [Passed, reaches_iff_of_some (show nextRecord ⟨512, 512, 96⟩ oneWordEfuse 0 = some 3 by rfl),
      reaches_iff_of_none (show nextRecord ⟨512, 512, 96⟩ oneWordEfuse 3 = none by rfl)] at h
    exact h
  refine (eepromParser88xx_bounded_iff (by decide) (by decide)).mpr ⟨fun h => ?_, ?_, ?_⟩
  · rcases hwalk _ h with h | h <;> cases h
  · intro _ _ _ _
    decide
  · intro _ _ _
    decide

/-- Headers without a word, up to a record that ends where the protected area starts, and there a
header of two bytes whose second one is blank. -/
def wornEfuse : ByteMap := fun i =>
  if i < 413 then 0x1F else [0x0E, 0x12, 0x34, 0x0F].getD (i - 413) 0xFF

theorem wornEfuse_passed : Passed ⟨512, 512, 96⟩ wornEfuse 416 := by
  have hstep : ∀ i < 413, nextRecord ⟨512, 512, 96⟩ wornEfuse i = some (i + 1) := by
    intro i hi
    have hbyte : wornEfuse i = 0x1F := if_pos hi
    have hhdr : parseHdr wornEfuse i = some (i, 1, 0x0F) := by
      rw [parseHdr, hbyte]
      rfl
    have hroom : ¬sub32 (Sizes.usable ⟨512, 512, 96⟩) 1 ≤ i + 1 := by
      rw [show sub32 (Sizes.usable ⟨512, 512, 96⟩) 1 = 415 from rfl]
      omega
    rw [nextRecord, hhdr]
    dsimp only
    rw [if_neg (not_or.mpr ⟨by rw [hbyte]; decide, hroom⟩)]
    rfl
  have hwalk : ∀ i ≤ 413, Passed ⟨512, 512, 96⟩ wornEfuse i := by
    intro i
    induction i with
    | zero => exact fun _ => .refl 0
    | succ i ih => exact fun hi => .tail (ih (by omega)) (hstep i hi)
  exact .tail (hwalk 413 le_rfl) rfl

theorem wornEfuse_not_bounded : ¬Bounded ⟨512, 512, 96⟩ wornEfuse := by
  intro h
  have hz : 2 ≤ Sizes.usable ⟨512, 512, 96⟩ := by decide
  obtain ⟨w, hw⟩ := reaches_of_passed hz rfl wornEfuse_passed
  obtain ⟨r, hleave, hend⟩ := leave_of_blank hz rfl (w := w) (show Extended wornEfuse 416 from rfl)
    (show wornEfuse 417 = 0xff from rfl)
  have hle : 417 ≤ 512 - 96 := ((forall_result_iff.mp h.result _ hw r hleave).2 _ hend).1
  omega

end Runs

section Refines

variable {cfg : HwCfgInfo} {phy : ByteMap}

/-- The sizes of a chip. -/
def sizesOf (cfg : HwCfgInfo) : Sizes where
  efuseSize := cfg.efuseSize
  eepromSize := cfg.eepromSize
  prtctEfuseSize := cfg.prtctEfuseSize

/-- The log map behind the writes. -/
def applyWrites (w : Writes) : ByteMap :=
  w.foldl (fun m x => Function.update m x.1 x.2) fun _ => 0xFF

theorem applyWrites_append (w : Writes) (x : ℕ × BitVec 8) :
    applyWrites (w ++ [x]) = Function.update (applyWrites w) x.1 x.2 := by
  rw [applyWrites, List.foldl_append]
  rfl

/-- What the adapter's parser has of a position and the writes in front of it. -/
def logged (r : Writes × Option ℕ) : Option (ℕ × ByteMap) := r.2.map fun e => (e, applyWrites r.1)

theorem parseWord_eq (cfg : HwCfgInfo) (phy : ByteMap) (b e : BitVec 8) (i idx : ℕ) (w : Writes) :
    parseWord cfg phy b e (idx, applyWrites w) i =
      logged ((readWord (sizesOf cfg) b e i idx w).value phy) := by
  rw [parseWord, readWord]
  by_cases hen : enabled e i
  · rw [if_pos (show ~~~(e >>> i) &&& 1 = 1 from hen), if_pos hen]
    dsimp only
    by_cases hmap : cfg.eepromSize < b.toNat * 8 + i * 2 + 1
    · rw [if_pos hmap, if_pos (show (sizesOf cfg).eepromSize < _ from hmap)]
      rfl
    · rw [if_neg hmap, if_neg (show ¬(sizesOf cfg).eepromSize < _ from hmap), value_cell_bind]
      by_cases hfirst : sub32 cfg.usable 1 < idx + 1
      · rw [if_pos hfirst, if_pos (show sub32 (sizesOf cfg).usable 1 < idx + 1 from hfirst)]
        rfl
      · rw [if_neg hfirst, if_neg (show ¬sub32 (sizesOf cfg).usable 1 < idx + 1 from hfirst),
          value_cell_bind]
        by_cases hlast : cfg.usable < idx + 2
        · rw [if_pos hlast, if_pos (show (sizesOf cfg).usable < idx + 2 from hlast)]
          rfl
        · rw [if_neg hlast, if_neg (show ¬(sizesOf cfg).usable < idx + 2 from hlast), value_pure,
            logged, Option.map_some, applyWrites_append, applyWrites_append]
  · rw [if_neg (show ¬(~~~(e >>> i) &&& 1 = 1) from hen), if_neg hen]
    rfl

theorem foldlM_parseWord_eq (cfg : HwCfgInfo) (phy : ByteMap) (b e : BitVec 8) (l : List ℕ)
    (idx : ℕ) (w : Writes) : l.foldlM (parseWord cfg phy b e) (idx, applyWrites w) =
      logged ((readWords (sizesOf cfg) b e l idx w).value phy) := by
  induction l generalizing idx w with
  | nil => rfl
  | cons i l ih =>
    rw [List.foldlM_cons, parseWord_eq, readWords, value_bind]
    rcases h : (readWord (sizesOf cfg) b e i idx w).value phy with ⟨w', _ | idx'⟩
    · rw [value_pure]
      rfl
    · exact ih idx' w'

/-- A turn of the loop that reads is a turn of the parser. -/
theorem parseStep_eq (cfg : HwCfgInfo) (phy : ByteMap) (i : ℕ) (w : Writes) :
    parseStep cfg phy i (applyWrites w) =
      match (parserTurn (sizesOf cfg) (i, w)).value phy with
      | .next t => .next t.1 (applyWrites t.2)
      | .leave r => r.efuseEnd.elim .fail .stop := by
  rw [parseStep, parserTurn, value_bind, readHdr_value]
  dsimp only
  cases parseHdr phy i with
  | none => rfl
  | some r =>
    obtain ⟨hdrEnd, b, e⟩ := r
    dsimp only
    by_cases hblank : phy i = 0xff
    · rw [if_pos hblank, if_pos hblank]
      rfl
    · by_cases hstop : sub32 cfg.usable 1 ≤ hdrEnd + 1
      · rw [if_neg hblank, if_neg hblank, if_pos hstop,
          if_pos (show sub32 (sizesOf cfg).usable 1 ≤ hdrEnd + 1 from hstop)]
        rfl
      · rw [if_neg hblank, if_neg hblank, if_neg hstop,
          if_neg (show ¬sub32 (sizesOf cfg).usable 1 ≤ hdrEnd + 1 from hstop), value_bind,
          foldlM_parseWord_eq]
        rcases h : (readWords (sizesOf cfg) b e [0, 1, 2, 3] (hdrEnd + 1) w).value phy with
          ⟨w', _ | j⟩ <;> rfl

theorem parserTurn_writes (cfg : HwCfgInfo) (phy : ByteMap) (i : ℕ) (w : Writes) {r : Parsed}
    {e : ℕ} (h : (parserTurn (sizesOf cfg) (i, w)).value phy = .leave r)
    (he : r.efuseEnd = some e) :
    r.writes = w := by
  rw [parserTurn, value_bind, readHdr_value] at h
  dsimp only at h
  cases hhdr : parseHdr phy i with
  | none =>
    rw [hhdr] at h
    cases h
    rfl
  | some q =>
    obtain ⟨hdrEnd, blk, en⟩ := q
    rw [hhdr] at h
    dsimp only at h
    split_ifs at h
    · cases h
      rfl
    · cases h
      cases he
    · rw [value_bind] at h
      rcases hw : (readWords (sizesOf cfg) blk en [0, 1, 2, 3] (hdrEnd + 1) w).value phy with
        ⟨w', _ | j⟩
      · rw [hw] at h
        cases h
        cases he
      · rw [hw] at h
        cases h

/-- The parser that reads, and the parser of the adapter. -/
theorem eepromParser_eq {n : ℕ} {r : Parsed}
    (h : (eepromParser88xx (sizesOf cfg) n).value phy = some r) :
    eepromParser cfg phy = r.efuseEnd.map fun e => (e, applyWrites r.writes) := by
  have hloop : ∀ n i w, (run (parserTurn (sizesOf cfg)) n (i, w)).value phy = some r →
      eepromParserLoop cfg phy i (applyWrites w) =
        r.efuseEnd.map fun e => (e, applyWrites r.writes) := by
    intro n
    induction n with
    | zero => exact nofun
    | succ n ih =>
      intro i w hrun
      have hstep := parseStep_eq cfg phy i w
      cases hturn : (parserTurn (sizesOf cfg) (i, w)).value phy with
      | next t =>
        rw [hturn] at hstep
        rw [value_run_next hturn] at hrun
        rw [eepromParserLoop_next hstep]
        exact ih t.1 t.2 hrun
      | leave r' =>
        rw [hturn] at hstep
        rw [value_run_leave hturn] at hrun
        cases hrun
        dsimp only at hstep
        cases hend : r.efuseEnd with
        | none =>
          rw [hend] at hstep
          rw [eepromParserLoop_fail hstep]
          rfl
        | some e =>
          rw [hend] at hstep
          rw [eepromParserLoop_stop hstep, parserTurn_writes cfg phy i w hturn hend]
          rfl
  exact hloop n 0 [] h

def getEfuseAvailableSize (cfg : HwCfgInfo) (flt : Faults) (s : HalmacAdapter) :
    Except HalmacRet ℕ × HalmacAdapter :=
  let r := dumpLogEfuseMap cfg flt s
  if r.1 = .success then (.ok (availableSize (sizesOf cfg) r.2.efuseEnd), r.2)
  else (.error r.1, r.2)

/-- The end that parsing a dump leaves is the parser's. -/
theorem parseDump_eq {parser : ByteMap → Option (ℕ × ByteMap)} {flt : Faults} {s : HalmacAdapter}
    {m : ByteMap} (hcache : s.cache = .valid m) (h : (parseDump flt parser s).1 = .success) :
    ∃ e log, parser m = some (e, log) ∧
      (parseDump flt parser s).2 = { s with procStatus := .done, efuseEnd := e } := by
  rw [parseDump, hcache] at h ⊢
  dsimp only at h ⊢
  by_cases hmalloc : (!flt.mallocMap) = true
  · rw [if_pos hmalloc] at h
    cases h
  · rw [if_neg hmalloc] at h ⊢
    cases hparse : parser m with
    | none =>
      rw [hparse] at h
      cases h
    | some p => exact ⟨p.1, p.2, rfl, rfl⟩

/-- A dump that succeeds has parsed the image of the efuse. -/
theorem dumpLogEfuse_efuseEnd {parser : ByteMap → Option (ℕ × ByteMap)} {flt : Faults}
    {s : HalmacAdapter} (h : (dumpLogEfuse flt parser s).1 = .success) :
    ∃ log, parser (efuseImage s) = some ((dumpLogEfuse flt parser s).2.efuseEnd, log) := by
  rw [dumpLogEfuse] at h ⊢
  by_cases hsend : s.procStatus = .sending
  · rw [if_pos hsend] at h
    cases h
  by_cases hidle : s.cmdCnstrState = .idle
  · rw [if_neg hsend, if_neg (not_not.mpr hidle)] at h ⊢
    dsimp only at h ⊢
    have hidle' : { s with procStatus := CmdProcessStatus.idle }.cmdCnstrState = .idle := hidle
    by_cases hbank : BankOk flt s
    · have hbank' : BankOk flt { s with procStatus := .idle } := hbank
      rw [switchEfuseBank_ok hidle' hbank'] at h ⊢
      have hin : andThen (HalmacRet.success, entered { s with procStatus := .idle })
          (procDumpEfuse flt) = dumpEfuseDrv flt (sending (entered s)) :=
        (if_pos rfl).trans (procDumpEfuse_eq rfl)
      rw [hin] at h ⊢
      by_cases himg : ImageOk flt s
      · have hdrv : dumpEfuseDrv flt (sending (entered s)) =
            (.success, { sending (entered s) with cache := .valid (efuseImage s) }) :=
          dumpEfuseDrv_of_imageOk himg
        have hpass : andThen (dumpEfuseDrv flt (sending (entered s))) (parseDump flt parser) =
            parseDump flt parser { sending (entered s) with cache := .valid (efuseImage s) } := by
          rw [hdrv]
          exact if_pos rfl
        rw [hpass] at h ⊢
        obtain ⟨hok, -⟩ := andThen_success_iff.mp h
        obtain ⟨e, log, hparse, hstate⟩ := parseDump_eq rfl hok
        refine ⟨log, ?_⟩
        rw [andThen, if_pos hok, hstate, cnvEfuseState_idle (Or.inr rfl)]
        exact hparse
      · have himg' : ¬ ImageOk flt (sending (entered s)) := himg
        obtain ⟨hne, -⟩ := dumpEfuseDrv_of_not_imageOk rfl himg'
        exact absurd (andThen_success_iff.mp (andThen_success_iff.mp h).1).1 hne
    · have hbank' : ¬ BankOk flt { s with procStatus := .idle } := hbank
      rw [switchEfuseBank_fail hidle' hbank'] at h
      cases h
  · rw [if_neg hsend, if_pos hidle] at h
    cases h

/-- The size that is reported is computed from the end that the parser sets. -/
theorem getEfuseAvailableSize_ok {flt : Faults} {s : HalmacAdapter} {n : ℕ}
    (h : (getEfuseAvailableSize cfg flt s).1 = .ok n) :
    ∃ e log, eepromParser cfg (efuseImage s) = some (e, log) ∧
      n = availableSize (sizesOf cfg) e := by
  rw [getEfuseAvailableSize] at h
  by_cases hok : (dumpLogEfuseMap cfg flt s).1 = .success
  · obtain ⟨log, hlog⟩ := dumpLogEfuse_efuseEnd hok
    rw [if_pos hok] at h
    cases h
    exact ⟨_, log, hlog, rfl⟩
  · rw [if_neg hok] at h
    cases h

/-- What bounds the parser bounds the size that is reported. -/
theorem getEfuseAvailableSize_le {flt : Faults} {s : HalmacAdapter} {n : ℕ}
    (hbounded : Bounded (sizesOf cfg) (efuseImage s))
    (h : (getEfuseAvailableSize cfg flt s).1 = .ok n) :
    n ≤ cfg.efuseSize - cfg.prtctEfuseSize := by
  obtain ⟨e, log, hparse, rfl⟩ := getEfuseAvailableSize_ok h
  obtain ⟨turns, hends⟩ := hbounded.halts
  obtain ⟨r, hr⟩ := Option.ne_none_iff_exists'.mp hends
  have hreads := eepromParser_eq hr
  rw [hparse] at hreads
  obtain ⟨e', he', heq⟩ := Option.map_eq_some_iff.mp hreads.symm
  cases heq
  exact ((hbounded.result turns r hr).2 _ he').2

end Refines

end Rtl8821cu.EfuseReads
