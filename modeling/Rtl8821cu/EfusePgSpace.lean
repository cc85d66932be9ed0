import Rtl8821cu.EfusePgMap

/-! The space check before programming against the bytes programming writes. -/
namespace Rtl8821cu.Efuse

section Trace
variable (hw : EfuseHw) (flt : Faults)

/-- The addresses `write_hw_efuse_88xx` is called on while the bytes of a record are written. -/
def writeHwAddrs (n offset : ℕ) : List (BitVec 8) → HalmacAdapter → List ℕ
  | [], _ => []
  | b :: bs, s =>
      offset ::
        if (writeHwEfuse hw (flt.write n) offset b s).1 = .success then
          writeHwAddrs (n + 1) (offset + 1) bs (writeHwEfuse hw (flt.write n) offset b s).2
        else []

variable (info : PgEfuseInfo) (superUsb : Bool) (updatedMask : ByteMap)

/-- The addresses the loop of `program_efuse_88xx` writes. -/
def programBlocksAddrs (n : ℕ) : List ℕ → HalmacAdapter → List ℕ
  | [], _ => []
  | i :: is, s =>
      let bytes := blockBytes superUsb info (programPreWordEn updatedMask i) i
      writeHwAddrs hw flt n s.efuseEnd bytes s ++
        if (pgBytes hw flt n bytes s).1 = .success then
          programBlocksAddrs (n + bytes.length) is (pgBytes hw flt n bytes s).2
        else []

def programAddrs (s : HalmacAdapter) : List ℕ :=
  programBlocksAddrs hw flt info superUsb updatedMask 0 (offsets info.efuseMapSize 8) s

/-- The end of `proc_pg_efuse_by_map_88xx`: the space check, then the writes. -/
def checkAndProgram (cfg : HwCfgInfo) (s : HalmacAdapter) : HalmacRet × HalmacAdapter :=
  let status := checkEfuseEnough cfg superUsb info updatedMask s
  if status ≠ .success then (status, s) else programEfuse hw flt info superUsb updatedMask s

end Trace

/-- The bytes of the records for `words` words of the block at `i`. -/
def recordSize (superUsb : Bool) (i words : ℕ) : ℕ :=
  if words = 0 then 0
  else if superUsb && superUsbZone i then 4 * words
  else (if 0x7f < i then 2 else 1) + 2 * words

/-- The second blocks of the rows. -/
def secondBlocks (size : ℕ) : List ℕ := (offsets size 8).filter fun i => i / 8 % 2 > 0

/-- Over the second blocks of all rows, the records for as many words as the first block's nibble
has come to the same size as those for the second block's own nibble. -/
def NibblesBalance (superUsb : Bool) (size : ℕ) (updatedMask : ByteMap) : Prop :=
  ((secondBlocks size).map fun i =>
      recordSize superUsb i (enabledWords (updatedMask (i / 16) >>> 4)).length).sum =
    ((secondBlocks size).map fun i =>
      recordSize superUsb i (enabledWords (updatedMask (i / 16) &&& 0x0F)).length).sum

instance (superUsb : Bool) (size : ℕ) (updatedMask : ByteMap) :
    Decidable (NibblesBalance superUsb size updatedMask) :=
  inferInstanceAs (Decidable (_ = _))

section Sizes

theorem sum_flatMap_const (ws : List ℕ) (c : ℕ) : (ws.flatMap fun _ => [c]).sum = c * ws.length := by
  induction ws with
  | nil => rfl
  | cons w ws ih =>
    rw [List.flatMap_cons, List.sum_append, ih, List.length_cons, List.sum_singleton]
    ring

theorem checkBlock_eq (superUsb : Bool) (i : ℕ) {b : BitVec 8} (hb : b.toNat < 16) :
    checkBlock superUsb i b = recordSize superUsb i (enabledWords b).length := by
  have hof : b = BitVec.ofNat 8 b.toNat := by simp
  rw [hof]
  unfold checkBlock recordSize
  rw [eachWord_eq hb, eachWord_eq hb, sum_flatMap_const, sum_flatMap_const]
  by_cases h0 : b.toNat = 0
  · rw [if_neg (not_not.mpr ((ofNat_eq_zero_iff _ hb).mpr h0)), if_pos (by rw [h0]; decide)]
  · have hlen : ¬ (enabledWords (BitVec.ofNat 8 b.toNat)).length = 0 :=
      List.length_eq_zero_iff.not.mpr (enabledWords_ne_nil _ hb h0)
    rw [if_pos ((ofNat_eq_zero_iff _ hb).not.mpr h0), if_neg hlen]

theorem length_blockBytes_recordSize (superUsb : Bool) (info : PgEfuseInfo) (i : ℕ) {b : BitVec 8}
    (hb : b.toNat < 16) :
    (blockBytes superUsb info b i).length = recordSize superUsb i (enabledWords b).length := by
  have hof : b = BitVec.ofNat 8 b.toNat := by simp
  rw [hof]
  by_cases h0 : b.toNat = 0
  · rw [h0]
    rfl
  · have hlen : ¬ (enabledWords (BitVec.ofNat 8 b.toNat)).length = 0 :=
      List.length_eq_zero_iff.not.mpr (enabledWords_ne_nil _ hb h0)
    unfold blockBytes recordSize
    rw [if_pos ((ofNat_eq_zero_iff _ hb).not.mpr h0), if_neg hlen]
    by_cases hzone : (superUsb && superUsbZone i) = true
    · rw [if_pos hzone, if_pos hzone]
      unfold superUsbBytes
      dsimp only
      rw [eachWord_eq hb, List.length_flatMap]
      simp [wordBytes, mul_comm]
    · rw [if_neg hzone, if_neg hzone]
      split_ifs
      · rw [extendBytes, eachWord_eq hb, List.length_append, length_flatMap_wordBytes]
        rfl
      · rw [procBytes, eachWord_eq hb, List.length_append, length_flatMap_wordBytes]
        rfl

/-- The check counts every block with its row's first nibble. -/
theorem pgNum_eq (superUsb : Bool) (info : PgEfuseInfo) (updatedMask : ByteMap) :
    pgNum superUsb info updatedMask = ((offsets info.efuseMapSize 8).map fun i =>
      recordSize superUsb i (enabledWords (updatedMask (i / 16) >>> 4)).length).sum := by
  unfold pgNum
  congr 1
  refine List.map_congr_left fun i hi => ?_
  obtain ⟨q, -, rfl⟩ := List.mem_map.mp hi
  rw [checkPreWordEn, if_neg (by omega)]
  exact checkBlock_eq superUsb _ (nibble_lt _).2

/-- Programming writes every block with its own nibble. -/
theorem length_recordBytes_eq (superUsb : Bool) (info : PgEfuseInfo) (updatedMask : ByteMap)
    (is : List ℕ) :
    (recordBytes superUsb info updatedMask is).length = (is.map fun i =>
      recordSize superUsb i (enabledWords (programPreWordEn updatedMask i)).length).sum := by
  unfold recordBytes
  rw [List.length_flatMap]
  congr 1
  refine List.map_congr_left fun i _ => ?_
  exact length_blockBytes_recordSize superUsb info i (programPreWordEn_lt updatedMask i)

/-- The count is that of the bytes written exactly when the nibbles balance. -/
theorem pgNum_eq_iff (superUsb : Bool) (info : PgEfuseInfo) (updatedMask : ByteMap) :
    (recordBytes superUsb info updatedMask (offsets info.efuseMapSize 8)).length =
        pgNum superUsb info updatedMask ↔
      NibblesBalance superUsb info.efuseMapSize updatedMask := by
  rw [length_recordBytes_eq, pgNum_eq]
  unfold NibblesBalance secondBlocks
  have hsplit := List.sum_map_filter_add_sum_map_filter_not (M := ℕ) (fun i => i / 8 % 2 > 0)
  rw [← hsplit, ← hsplit (fun i =>
    recordSize superUsb i (enabledWords (updatedMask (i / 16) >>> 4)).length)]
  have hsecond : (((offsets info.efuseMapSize 8).filter fun i => i / 8 % 2 > 0).map fun i =>
      recordSize superUsb i (enabledWords (programPreWordEn updatedMask i)).length) =
      ((offsets info.efuseMapSize 8).filter fun i => i / 8 % 2 > 0).map fun i =>
        recordSize superUsb i (enabledWords (updatedMask (i / 16) &&& 0x0F)).length := by
    refine List.map_congr_left fun i hi => ?_
    rw [programPreWordEn, if_pos (by simpa using (List.mem_filter.mp hi).2)]
  have hfirst : (((offsets info.efuseMapSize 8).filter fun i => ¬ i / 8 % 2 > 0).map fun i =>
      recordSize superUsb i (enabledWords (programPreWordEn updatedMask i)).length) =
      ((offsets info.efuseMapSize 8).filter fun i => ¬ i / 8 % 2 > 0).map fun i =>
        recordSize superUsb i (enabledWords (updatedMask (i / 16) >>> 4)).length := by
    refine List.map_congr_left fun i hi => ?_
    rw [programPreWordEn, if_neg (by simpa using (List.mem_filter.mp hi).2)]
  rw [hsecond, hfirst]
  constructor
  · intro h
    exact (Nat.add_right_cancel h).symm
  · intro h
    rw [h]

end Sizes

section Addresses
variable {hw : EfuseHw} {flt : Faults} {info : PgEfuseInfo} {superUsb : Bool}
  {updatedMask : ByteMap} {s : HalmacAdapter}

theorem mem_writeHwAddrs {n offset a : ℕ} {bs : List (BitVec 8)}
    (h : a ∈ writeHwAddrs hw flt n offset bs s) : a < offset + bs.length := by
  induction bs generalizing n offset s with
  | nil => cases h
  | cons b bs ih =>
    rw [List.length_cons]
    rw [writeHwAddrs] at h
    rcases List.mem_cons.mp h with rfl | h
    · omega
    · split_ifs at h
      · have := ih h
        omega
      · cases h

theorem length_writeHwAddrs {n offset : ℕ} {bs : List (BitVec 8)}
    (h : (writeHwBytes hw flt n offset bs s).1 = .success) :
    (writeHwAddrs hw flt n offset bs s).length = bs.length := by
  induction bs generalizing n offset s with
  | nil => rfl
  | cons b bs ih =>
    rw [writeHwBytes] at h
    obtain ⟨h1, h2, -⟩ := andThen_success h
    rw [writeHwAddrs, if_pos h1, List.length_cons, List.length_cons, ih h2]

theorem pgBytes_end {n : ℕ} {bytes : List (BitVec 8)}
    (h : (pgBytes hw flt n bytes s).1 = .success) :
    (writeHwBytes hw flt n s.efuseEnd bytes s).1 = .success ∧
      (pgBytes hw flt n bytes s).2.efuseEnd = s.efuseEnd + bytes.length := by
  unfold pgBytes at h ⊢
  obtain ⟨h1, -, heq⟩ := andThen_success h
  rw [heq]
  exact ⟨h1, rfl⟩

/-- No write goes behind the records of the pass. -/
theorem mem_programBlocksAddrs {n a : ℕ} {is : List ℕ}
    (h : a ∈ programBlocksAddrs hw flt info superUsb updatedMask n is s) :
    a < s.efuseEnd + (recordBytes superUsb info updatedMask is).length := by
  induction is generalizing n s with
  | nil => cases h
  | cons i is ih =>
    have hcons : recordBytes superUsb info updatedMask (i :: is) =
        blockBytes superUsb info (programPreWordEn updatedMask i) i ++
          recordBytes superUsb info updatedMask is := rfl
    rw [hcons, List.length_append]
    rw [programBlocksAddrs] at h
    rcases List.mem_append.mp h with h | h
    · have := mem_writeHwAddrs h
      omega
    · split_ifs at h with hok
      · have hlt := ih h
        rw [(pgBytes_end hok).2] at hlt
        omega
      · cases h

/-- A pass without a failure writes each byte of the records once. -/
theorem length_programBlocksAddrs {n : ℕ} {is : List ℕ}
    (h : (programBlocks hw flt info superUsb updatedMask n is s).1 = .success) :
    (programBlocksAddrs hw flt info superUsb updatedMask n is s).length =
      (recordBytes superUsb info updatedMask is).length := by
  induction is generalizing n s with
  | nil => rfl
  | cons i is ih =>
    have hcons : recordBytes superUsb info updatedMask (i :: is) =
        blockBytes superUsb info (programPreWordEn updatedMask i) i ++
          recordBytes superUsb info updatedMask is := rfl
    rw [programBlocks_cons] at h
    obtain ⟨h1, h2, -⟩ := andThen_success h
    rw [hcons, programBlocksAddrs, if_pos h1, List.length_append, List.length_append, ih h2,
      length_writeHwAddrs (pgBytes_end h1).1]

end Addresses

theorem checkEfuseEnough_success {cfg : HwCfgInfo} {superUsb : Bool} {info : PgEfuseInfo}
    {updatedMask : ByteMap} {s : HalmacAdapter}
    (h : checkEfuseEnough cfg superUsb info updatedMask s = .success) :
    pgNum superUsb info updatedMask + cfg.prtctEfuseSize + s.efuseEnd < cfg.efuseSize := by
  unfold checkEfuseEnough at h
  split_ifs at h
  omega

/-- The tail of the procedure as modelled for a chip without super-USB zones. -/
theorem procPgEfuseByMap_eq (hw : EfuseHw) (flt : Faults) (info : PgEfuseInfo) (cfg : HwCfgInfo)
    (mallocMask : Bool) (s : HalmacAdapter) :
    procPgEfuseByMap hw flt info cfg mallocMask s =
      if !mallocMask then (.mallocFail, s)
      else withLogMap cfg flt (fun map s =>
        checkAndProgram hw flt info false (updateMask info map) cfg s) s := rfl

/-- The space check is exact, and programming stays below the protected area, precisely for the
masks whose nibbles balance. -/
theorem pg_num_exact_iff (hw : EfuseHw) (cfg : HwCfgInfo) (superUsb : Bool) (info : PgEfuseInfo)
    (updatedMask : ByteMap) (s : HalmacAdapter) (flt : Faults)
    (hok : (programEfuse hw flt info superUsb updatedMask s).1 = .success) :
    (∀ flt : Faults,
        ((programEfuse hw flt info superUsb updatedMask s).1 = .success →
          (programAddrs hw flt info superUsb updatedMask s).length =
            pgNum superUsb info updatedMask) ∧
        (checkEfuseEnough cfg superUsb info updatedMask s = .success →
          ∀ a ∈ programAddrs hw flt info superUsb updatedMask s, a < cfg.usable) ∧
        (checkEfuseEnough cfg superUsb info updatedMask s = .efuseNotEnough →
          checkAndProgram hw flt info superUsb updatedMask cfg s = (.efuseNotEnough, s))) ↔
      NibblesBalance superUsb info.efuseMapSize updatedMask := by
  rw [← pgNum_eq_iff superUsb info updatedMask]
  constructor
  · intro h
    rw [← (h flt).1 hok]
    exact (length_programBlocksAddrs hok).symm
  · intro hexact flt
    refine ⟨fun hsucc => (length_programBlocksAddrs hsucc).trans hexact, fun hcheck a ha => ?_,
      fun hcheck => ?_⟩
    · have hroom := checkEfuseEnough_success hcheck
      have hlt := mem_programBlocksAddrs ha
      have hus : cfg.usable = cfg.efuseSize - cfg.prtctEfuseSize := if_pos (by omega)
      omega
    · unfold checkAndProgram
      rw [hcheck]
      rfl

/-- A map of zeros. -/
def balancedInfo : PgEfuseInfo where
  efuseMap := fun _ => 0x00
  efuseMapSize := 512
  efuseMask := fun _ => 0xFF
  efuseMaskSize := 32

theorem pg_num_exact_iff_balanced :
    (programAddrs clearingHw noFaults balancedInfo false (fun r => if r = 0 then 0x3C else 0)
      blankAdapter).length = 10 := by
  have h := (pg_num_exact_iff clearingHw cfg8821c false balancedInfo
    (fun r => if r = 0 then 0x3C else 0) blankAdapter noFaults (by decide)).mpr
    (by decide)
  exact ((h noFaults).1 (by decide)).trans (by decide)

/-- With four words of a second block to write and none of the first, the check counts nothing,
finds room and nine bytes are written, the last three into the protected area. -/
theorem pg_num_undercounts :
    ¬ ∀ (hw : EfuseHw) (cfg : HwCfgInfo) (superUsb : Bool) (info : PgEfuseInfo)
      (updatedMask : ByteMap) (s : HalmacAdapter) (flt : Faults),
      (programEfuse hw flt info superUsb updatedMask s).1 = .success →
      (programAddrs hw flt info superUsb updatedMask s).length =
          pgNum superUsb info updatedMask ∧
        (checkEfuseEnough cfg superUsb info updatedMask s = .success →
          ∀ a ∈ programAddrs hw flt info superUsb updatedMask s, a < cfg.usable) := by
  intro h
  have hwrong := (h clearingHw cfg8821c false balancedInfo (fun r => if r = 0 then 0x0F else 0)
    { blankAdapter with efuseEnd := 410 } noFaults (by decide)).2 (by decide) 418
    (by decide)
  revert hwrong
  decide

end Rtl8821cu.Efuse
