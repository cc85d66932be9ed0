import Rtl8821cu.EfuseWrite

/-! A logical efuse write that was interrupted behind the first byte of an extended header, and
what the next writes make of it. -/
namespace Rtl8821cu.Efuse
open Run Store

/-- A call of `write_log_efuse_88xx` with its environment. -/
structure ByteWrite where
  offset : ℕ
  value : BitVec 8
  faults : Faults

def byteWrite (hw : EfuseHw) (cfg : HwCfgInfo) (s : HalmacAdapter) (b : ByteWrite) :
    HalmacRet × HalmacAdapter :=
  writeLogEfuse hw cfg b.faults b.offset b.value s

def byteStep (hw : EfuseHw) (cfg : HwCfgInfo) (s : HalmacAdapter) (b : ByteWrite) :
    HalmacAdapter :=
  (byteWrite hw cfg s b).2

/-- The map with the bytes of the writes put in, in order. -/
def overwrite (m : ByteMap) (bs : List ByteWrite) : ByteMap :=
  bs.foldl (fun m b => Function.update m b.offset b.value) m

def LogWrite.offset : LogWrite → ℕ
  | .byte offset _ => offset
  | .word offset _ => offset

/-- The chip reads as the logical map `m`. -/
def ReadsAs (cfg : HwCfgInfo) (phy m : ByteMap) : Prop :=
  ∃ efuseEnd logMap, eepromParser cfg phy = some (efuseEnd, logMap) ∧
    ∀ o < cfg.eepromSize, logMap o = m o

/-- A write above offset `0x7F` failed when only the first byte of its header was stored. -/
structure TornWrite (hw : EfuseHw) (cfg : HwCfgInfo) (s : HalmacAdapter) (c : Call) : Prop where
  failed : (exec hw cfg s c).1 ≠ .success
  extended : 0x7f < c.write.offset
  stored : ∃ efuseEnd logMap, eepromParser cfg s.phy = some (efuseEnd, logMap) ∧
    ∀ i < cfg.efuseSize, (exec hw cfg s c).2.phy i =
      Function.update s.phy efuseEnd (extendedHdr (BitVec.ofNat 8 (c.write.offset / 8))) i

/-- The first of the writes that differs from the map goes to the first block, and the block of
the torn header is a multiple of eight. -/
def RepairsFirst (m : ByteMap) (blk : ℕ) : List ByteWrite → Prop
  | [] => True
  | b :: bs =>
      if m b.offset = b.value then RepairsFirst m blk bs else b.offset < 8 ∧ blk % 8 = 0

/-- A record log that ends at `e`, replays to `m` and is followed by the first byte of an
extended header for block `blk`. -/
structure TornAt (cfg : HwCfgInfo) (phy : ByteMap) (e blk : ℕ) (m : ByteMap) : Prop where
  walk : Walk cfg phy (0, fun _ => 0xFF) (e, m)
  room : 4 + cfg.prtctEfuseSize + e < cfg.efuseSize
  hdr : phy e = extendedHdr (BitVec.ofNat 8 blk)
  blank : ∀ i, e < i → i < cfg.efuseSize → phy i = 0xFF

section Torn
variable {hw : EfuseHw} {cfg : HwCfgInfo} {flt : Faults} {s : HalmacAdapter} {phy : ByteMap}
  {e blk : ℕ} {m : ByteMap}

theorem extendedHdr_torn : ∀ b : BitVec 8, extendedHdr b &&& 0x1f = 0x0f ∧ extendedHdr b ≠ 0xff := by
  decide

theorem TornAt.congr {phy' : ByteMap} (h : TornAt cfg phy e blk m)
    (hag : ∀ i < cfg.efuseSize, phy' i = phy i) : TornAt cfg phy' e blk m := by
  have hroom := h.room
  refine ⟨h.walk.congr fun k _ hk => (hag k (by dsimp only at hk; omega)).symm, h.room, ?_, ?_⟩
  · rw [hag e (by omega), h.hdr]
  · intro i hi hi'
    rw [hag i hi', h.blank i hi hi']

/-- The parser stops behind the torn header. -/
theorem TornAt.eepromParser_eq (h : TornAt cfg phy e blk m) :
    eepromParser cfg phy = some (e + 1, m) := by
  have hroom := h.room
  have hstop : parseStep cfg phy e m = .stop (e + 1) := by
    simp only [parseStep, parseHdr, h.hdr, (extendedHdr_torn _).1,
      h.blank (e + 1) (by omega) (by omega), if_true]
  unfold eepromParser
  rw [h.walk.loop_eq]
  exact eepromParserLoop_stop hstop

end Torn

section Next
variable {cfg : HwCfgInfo} {phy : ByteMap} {e blk offset : ℕ} {m : ByteMap}
  {byte1 byte2 : BitVec 8}

theorem recordHdr_high : ∀ blk < 16, ∀ i < 4,
    (recordHdr (BitVec.ofNat 8 blk) i &&& 0xF0) >>> 1 = BitVec.ofNat 8 (blk * 8) := by
  decide

theorem extendedHdr_low (b : BitVec 8) :
    extendedHdr b >>> 5 &&& 0x07 = BitVec.ofNat 8 (b.toNat % 8) := by
  revert b
  decide

theorem ofNat_or_low : ∀ blk < 16, ∀ r < 8,
    (BitVec.ofNat 8 (blk * 8) ||| BitVec.ofNat 8 r).toNat = blk * 8 + r := by
  decide

theorem recordHdr_as_second (b : BitVec 8) {blk i : ℕ} (hblk : blk < 16) (hi : i < 4) :
    ((recordHdr (BitVec.ofNat 8 blk) i &&& 0xF0) >>> 1 ||| extendedHdr b >>> 5 &&& 0x07).toNat =
      blk * 8 + b.toNat % 8 := by
  rw [recordHdr_high blk hblk i hi, extendedHdr_low]
  exact ofNat_or_low blk hblk _ (Nat.mod_lt _ (by decide))

theorem extendedHdr_as_second (b : BitVec 8) : extendedHdr b &&& 0x0F = 0x0F := by
  revert b
  decide

theorem extendedHdr2_as_hdr : ∀ blk < 128, ∀ i < 4,
    extendedHdr2 (BitVec.ofNat 8 blk) i &&& 0x1f ≠ 0x0f ∧
      ((extendedHdr2 (BitVec.ofNat 8 blk) i &&& 0xF0) >>> 4).toNat = blk / 8 ∧
      extendedHdr2 (BitVec.ofNat 8 blk) i &&& 0x0F = wordEnOf i := by
  decide +kernel

/-- Where the parser puts the word of a record that follows the torn header. -/
def tornIdx (blk offset : ℕ) : ℕ :=
  if 0x7f < offset then offset / 64 * 8 + offset % 8 / 2 * 2
  else (offset / 8 * 8 + blk % 8) * 8 + offset % 8 / 2 * 2

/-- What the parser makes of the torn header and the short record behind it. -/
theorem parseStep_torn_short (hoff : ¬ 0x7f < offset)
    (hroom : 3 + cfg.prtctEfuseSize + (e + 1) < cfg.efuseSize)
    (hhdr : phy e = extendedHdr (BitVec.ofNat 8 blk))
    (hphy : HoldsAt phy (e + 1) (recordHdrBytes offset ++ [byte1, byte2])) :
    parseStep cfg phy e m =
      if cfg.eepromSize < tornIdx blk offset + 1 then .fail
      else .next (e + 4) (Function.update (Function.update m (tornIdx blk offset) byte1)
        (tornIdx blk offset + 1) byte2) := by
  have hus : cfg.usable = cfg.efuseSize - cfg.prtctEfuseSize := if_pos (by omega)
  have hus1 : sub32 cfg.usable 1 = cfg.usable - 1 := if_pos (by omega)
  have hi : offset % 8 / 2 < 4 := by omega
  obtain ⟨-, hne, -, hen⟩ := recordHdr_decode (offset / 8) (by omega) _ hi
  have hblk := recordHdr_as_second (BitVec.ofNat 8 blk) (show offset / 8 < 16 by omega) hi
  have hmod : (BitVec.ofNat 8 blk).toNat % 8 = blk % 8 := by
    rw [BitVec.toNat_ofNat]
    omega
  rw [hmod] at hblk
  have hidx : tornIdx blk offset = (offset / 8 * 8 + blk % 8) * 8 + offset % 8 / 2 * 2 :=
    if_neg hoff
  simp only [recordHdrBytes, hoff, if_false, List.cons_append, List.nil_append, holdsAt_cons]
    at hphy
  obtain ⟨p0, p1, p2, -⟩ := hphy
  simp only [parseStep, parseHdr, hhdr, p0, (extendedHdr_torn _).1, (extendedHdr_torn _).2, hne,
    hen, if_true, if_false]
  rw [if_neg (by omega), hidx]
  by_cases hout : cfg.eepromSize < (offset / 8 * 8 + blk % 8) * 8 + offset % 8 / 2 * 2 + 1
  · rw [if_pos hout, foldlM_parseWord_outside hi m (by rw [hblk]; exact hout)]
  · rw [if_neg hout, foldlM_parseWord_one hi m (by rw [hblk]; omega) (by omega) (by omega)]
    simp only [hblk, p1, p2]

/-- Behind a torn header an extended record falls apart: its first byte ends the torn header with
no word enabled, and its second byte is read as the header of a short record. -/
theorem parseStep_torn_extended (hoff : 0x7f < offset) (hlt : offset < cfg.eepromSize)
    (h1024 : cfg.eepromSize ≤ 1024) (hroom : 4 + cfg.prtctEfuseSize + (e + 1) < cfg.efuseSize)
    (hhdr : phy e = extendedHdr (BitVec.ofNat 8 blk))
    (hphy : HoldsAt phy (e + 1) (recordHdrBytes offset ++ [byte1, byte2])) :
    parseStep cfg phy e m = .next (e + 2) m ∧
      parseStep cfg phy (e + 2) m = .next (e + 5) (Function.update
        (Function.update m (tornIdx blk offset) byte1) (tornIdx blk offset + 1) byte2) := by
  have hus : cfg.usable = cfg.efuseSize - cfg.prtctEfuseSize := if_pos (by omega)
  have hus1 : sub32 cfg.usable 1 = cfg.usable - 1 := if_pos (by omega)
  have hi : offset % 8 / 2 < 4 := by omega
  obtain ⟨-, -, hne, -, -⟩ := extendedHdr_decode (offset / 8) (by omega) _ hi
  obtain ⟨hshort, hblk, hen⟩ := extendedHdr2_as_hdr (offset / 8) (by omega) _ hi
  have hidx : tornIdx blk offset = offset / 8 / 8 * 8 + offset % 8 / 2 * 2 := by
    rw [tornIdx, if_pos hoff, Nat.div_div_eq_div_mul]
  simp only [recordHdrBytes, hoff, if_true, List.cons_append, List.nil_append, holdsAt_cons]
    at hphy
  obtain ⟨p0, p1, p2, p3, -⟩ := hphy
  constructor
  · simp only [parseStep, parseHdr, hhdr, p0, (extendedHdr_torn _).1, (extendedHdr_torn _).2,
      extendedHdr_as_second, if_true, if_false]
    rw [if_neg (by omega)]
    rfl
  · simp only [parseStep, parseHdr, p1, hshort, hne, hen, if_false]
    rw [if_neg (by omega), foldlM_parseWord_one hi m (by rw [hblk]; omega) (by omega) (by omega)]
    simp only [hblk, hidx, p2, p3]

/-- The parser's result once a record stands behind the torn header. -/
theorem TornAt.reparse (h : TornAt cfg phy e blk m) (h1024 : cfg.eepromSize ≤ 1024)
    (hlt : offset < cfg.eepromSize)
    (hroom : recordLen offset + cfg.prtctEfuseSize + (e + 1) < cfg.efuseSize) :
    eepromParser cfg (store phy (e + 1) (recordHdrBytes offset ++ [byte1, byte2])) =
      if cfg.eepromSize < tornIdx blk offset + 1 then none
      else some (e + 1 + recordLen offset, Function.update
        (Function.update m (tornIdx blk offset) byte1) (tornIdx blk offset + 1) byte2) := by
  have hlen : (recordHdrBytes offset ++ [byte1, byte2]).length = recordLen offset := by
    rw [List.length_append, ← length_recordHdrBytes]
    rfl
  set phy' := store phy (e + 1) (recordHdrBytes offset ++ [byte1, byte2]) with hphy'
  have hwalk : Walk cfg phy' (0, fun _ => 0xFF) (e, m) :=
    h.walk.congr fun k _ hk => (store_of_lt _ _ (by dsimp only at hk; omega)).symm
  have hhdr : phy' e = extendedHdr (BitVec.ofNat 8 blk) := by
    rw [hphy', store_of_lt _ _ (by omega), h.hdr]
  have hholds : HoldsAt phy' (e + 1) (recordHdrBytes offset ++ [byte1, byte2]) :=
    holdsAt_store _ _ _
  have hblank : phy' (e + 1 + recordLen offset) = 0xFF := by
    rw [hphy', store_of_ge _ _ (by omega)]
    exact h.blank _ (by omega) (by omega)
  unfold eepromParser
  rw [hwalk.loop_eq]
  by_cases hext : 0x7f < offset
  · have hin : ¬ cfg.eepromSize < tornIdx blk offset + 1 := by
      rw [tornIdx, if_pos hext]
      omega
    simp only [recordLen, hext, if_true] at hroom hblank ⊢
    obtain ⟨hstep1, hstep2⟩ := parseStep_torn_extended (m := m) hext hlt h1024 hroom hhdr hholds
    rw [if_neg hin, eepromParserLoop_next hstep1, eepromParserLoop_next hstep2]
    exact eepromParserLoop_stop (parseStep_blank _ hblank)
  · simp only [recordLen, hext, if_false] at hroom hblank ⊢
    have hstep := parseStep_torn_short (m := m) hext hroom hhdr hholds
    by_cases hout : cfg.eepromSize < tornIdx blk offset + 1
    · rw [if_pos hout] at hstep ⊢
      exact eepromParserLoop_fail hstep
    · rw [if_neg hout] at hstep ⊢
      rw [eepromParserLoop_next hstep]
      exact eepromParserLoop_stop (parseStep_blank _ hblank)

/-- The word goes to the place it was written for only in the first block, behind the torn header
of a block that is a multiple of eight. -/
theorem tornIdx_eq_iff (blk : ℕ) (hlt : offset < 1024) :
    tornIdx blk offset = offset / 2 * 2 ↔ offset < 8 ∧ blk % 8 = 0 := by
  unfold tornIdx
  split <;> omega

theorem TornAt.readsAs_iff (h : TornAt cfg phy e blk m) (h1024 : cfg.eepromSize ≤ 1024)
    (hlt : offset < cfg.eepromSize)
    (hroom : recordLen offset + cfg.prtctEfuseSize + (e + 1) < cfg.efuseSize) {value : BitVec 8}
    (hval : m offset ≠ value)
    (hmap : Function.update (Function.update m (offset / 2 * 2) byte1) (offset / 2 * 2 + 1) byte2 =
      Function.update m offset value) :
    ReadsAs cfg (store phy (e + 1) (recordHdrBytes offset ++ [byte1, byte2]))
        (Function.update m offset value) ↔ offset < 8 ∧ blk % 8 = 0 := by
  unfold ReadsAs
  rw [h.reparse h1024 hlt hroom, ← tornIdx_eq_iff blk (by omega)]
  constructor
  · rintro ⟨e', m', hparse, hag⟩
    by_contra hne
    split_ifs at hparse with hout
    obtain ⟨-, rfl⟩ := Prod.mk.inj (Option.some.inj hparse)
    have heven : tornIdx blk offset % 2 = 0 := by
      unfold tornIdx
      split <;> omega
    have hat := hag offset hlt
    rw [Function.update_self, Function.update_of_ne (by omega),
      Function.update_of_ne (by omega)] at hat
    exact hval hat
  · intro heq
    rw [heq, if_neg (by omega), hmap]
    exact ⟨_, _, rfl, fun _ _ => rfl⟩

/-- A record that repairs the torn header leaves a whole log. -/
theorem TornAt.logAt (h : TornAt cfg phy e blk m) (hoff : offset < 8) (hblk : blk % 8 = 0)
    (hlt : offset < cfg.eepromSize)
    (hroom : recordLen offset + cfg.prtctEfuseSize + (e + 1) < cfg.efuseSize) :
    LogAt cfg (store phy (e + 1) (recordHdrBytes offset ++ [byte1, byte2])) (e + 4)
      (Function.update (Function.update m (offset / 2 * 2) byte1) (offset / 2 * 2 + 1) byte2) := by
  have hext : ¬ 0x7f < offset := by omega
  have hlen : (recordHdrBytes offset ++ [byte1, byte2]).length = 3 := by
    rw [List.length_append]
    simp [recordHdrBytes, hext]
  have hidx := (tornIdx_eq_iff blk (show offset < 1024 by omega)).mpr ⟨hoff, hblk⟩
  simp only [recordLen, hext, if_false] at hroom
  refine ⟨?_, by omega, ?_⟩
  · have hhdr : store phy (e + 1) (recordHdrBytes offset ++ [byte1, byte2]) e =
        extendedHdr (BitVec.ofNat 8 blk) := by
      rw [store_of_lt _ _ (by omega), h.hdr]
    have hstep := parseStep_torn_short (m := m) hext hroom hhdr
      (holdsAt_store phy (e + 1) (recordHdrBytes offset ++ [byte1, byte2]))
    rw [hidx, if_neg (by omega)] at hstep
    exact .tail (h.walk.congr fun k _ hk => (store_of_lt _ _ (by dsimp only at hk; omega)).symm)
      hstep
  · intro i hi hi'
    rw [store_of_ge _ _ (by omega)]
    exact h.blank i (by omega) hi'

end Next

section Write
variable {hw : EfuseHw} {cfg : HwCfgInfo} {flt : Faults} {s : HalmacAdapter}
  {e blk offset : ℕ} {m : ByteMap} {value : BitVec 8}

/-- The bytes of the word at `offset` with `value` put in. -/
theorem update_word_eq (m : ByteMap) (offset : ℕ) (value : BitVec 8) :
    (offset % 2 = 0 → Function.update (Function.update m (offset / 2 * 2) value)
      (offset / 2 * 2 + 1) (m (offset + 1)) = Function.update m offset value) ∧
    (offset % 2 ≠ 0 → Function.update (Function.update m (offset / 2 * 2) (m (offset - 1)))
      (offset / 2 * 2 + 1) value = Function.update m offset value) := by
  constructor
  · intro heven
    rw [show offset / 2 * 2 = offset by omega, Function.update_comm (by omega),
      Function.update_eq_self]
  · intro hodd
    rw [show offset / 2 * 2 = offset - 1 by omega, Function.update_eq_self,
      show offset - 1 + 1 = offset by omega]

/-- A successful record write behind the torn header. -/
theorem TornAt.writeRecord_success {byte1 byte2 : BitVec 8} (h : TornAt cfg s.phy e blk m)
    (hend : s.efuseEnd = e + 1)
    (hok : (writeRecord hw cfg flt offset byte1 byte2 s).1 = .success) :
    recordLen offset + cfg.prtctEfuseSize + (e + 1) < cfg.efuseSize ∧
      (writeRecord hw cfg flt offset byte1 byte2 s).2.phy =
        store s.phy (e + 1) (recordHdrBytes offset ++ [byte1, byte2]) ∧
      CacheCoherent cfg (writeRecord hw cfg flt offset byte1 byte2 s).2 := by
  have hle := cfg.efuse_le
  have hlen : (recordHdrBytes offset ++ [byte1, byte2]).length = recordLen offset := by
    rw [List.length_append, ← length_recordHdrBytes]
    rfl
  have hroom : ¬ cfg.efuseSize ≤ recordLen offset + cfg.prtctEfuseSize + s.efuseEnd := by
    intro hfull
    unfold writeRecord at hok
    unfold recordLen at hfull
    simp [hfull] at hok
  have hwrite : writeRecord hw cfg flt offset byte1 byte2 s =
      writeHwBytes hw flt 0 s.efuseEnd (recordHdrBytes offset ++ [byte1, byte2]) s := by
    unfold writeRecord
    exact if_neg hroom
  rw [hwrite, hend] at hok ⊢
  rw [hend] at hroom
  obtain ⟨hphy, hcache⟩ := writeHwBytes_success hok (by omega) (by
    intro i hi hi'
    exact h.blank i (by omega) (by omega))
  obtain ⟨allocated, hcache⟩ := hcache (by simp)
  refine ⟨by omega, hphy, ?_⟩
  intro efuseMap hvalid
  rw [hcache] at hvalid
  cases hvalid

/-- A write behind the torn header found its byte in the map already or appended a record for
it. -/
structure Followed (cfg : HwCfgInfo) (phy : ByteMap) (e : ℕ) (m : ByteMap) (offset : ℕ)
    (value : BitVec 8) (t : HalmacAdapter) : Prop where
  coherent : CacheCoherent cfg t
  chip : (m offset = value ∧ t.phy = phy) ∨
    (m offset ≠ value ∧ ∃ byte1 byte2,
      recordLen offset + cfg.prtctEfuseSize + (e + 1) < cfg.efuseSize ∧
      t.phy = store phy (e + 1) (recordHdrBytes offset ++ [byte1, byte2]) ∧
      Function.update (Function.update m (offset / 2 * 2) byte1) (offset / 2 * 2 + 1) byte2 =
        Function.update m offset value)

theorem TornAt.procWriteLogEfuse_success (h : TornAt cfg s.phy e blk m)
    (hc : CacheCoherent cfg s)
    (hok : (procWriteLogEfuse hw cfg flt offset value s).1 = .success) :
    Followed cfg s.phy e m offset value (procWriteLogEfuse hw cfg flt offset value s).2 := by
  unfold procWriteLogEfuse at hok ⊢
  obtain ⟨map, t, hread, heq⟩ := withLogMap_success hok
  rw [heq] at hok ⊢
  obtain ⟨rfl, hphy, hend, hcoh⟩ := readLogEfuseMap_ok
    (fun _ hag => (h.congr hag).eepromParser_eq) hc hread
  have ht : TornAt cfg t.phy e blk map := by rwa [hphy]
  split_ifs at hok ⊢ with hsame heven
  · exact ⟨hcoh, Or.inl ⟨hsame, hphy⟩⟩
  · obtain ⟨hroom, hstore, hcoh'⟩ := ht.writeRecord_success hend hok
    rw [hphy] at hstore
    exact ⟨hcoh', Or.inr ⟨hsame, _, _, hroom, hstore, (update_word_eq map offset value).1 heven⟩⟩
  · obtain ⟨hroom, hstore, hcoh'⟩ := ht.writeRecord_success hend hok
    rw [hphy] at hstore
    exact ⟨hcoh', Or.inr ⟨hsame, _, _, hroom, hstore, (update_word_eq map offset value).2 heven⟩⟩

theorem TornAt.byteWrite_success {b : ByteWrite} (h : TornAt cfg s.phy e blk m)
    (hc : CacheCoherent cfg s) (hok : (byteWrite hw cfg s b).1 = .success) :
    b.offset < cfg.eepromSize ∧
      Followed cfg s.phy e m b.offset b.value (byteStep hw cfg s b) := by
  obtain ⟨hoff, t, hphy, hcache, hproc, hphy', hcache'⟩ := logEfuseEntry_success hok
  have ht : TornAt cfg t.phy e blk m := by rwa [hphy]
  have htc : CacheCoherent cfg t := by
    unfold CacheCoherent at hc ⊢
    rwa [hphy, hcache]
  obtain ⟨hcoh, hchip⟩ := ht.procWriteLogEfuse_success htc hproc
  refine ⟨hoff, ?_, ?_⟩
  · unfold CacheCoherent at hcoh ⊢
    intro efuseMap hvalid i hi
    exact (hcoh efuseMap (hcache'.symm.trans hvalid) i hi).trans (congrFun hphy' i).symm
  · rw [← hphy', hphy] at hchip
    exact hchip

/-- Once the log is whole, every write is read back. -/
theorem Appended.overwrite_run {bs : List ByteWrite} (h8 : cfg.eepromSize % 8 = 0)
    (h1024 : cfg.eepromSize ≤ 1024) (hs : Appended cfg m s)
    (hok : Along (byteStep hw cfg) (fun s b => (byteWrite hw cfg s b).1 = .success) s bs) :
    Appended cfg (overwrite m bs) (run (byteStep hw cfg) s bs) := by
  induction bs generalizing s m with
  | nil => exact hs
  | cons b bs ih => exact ih (hs.writeLogEfuse_success h8 h1024 hok.1) hok.2

theorem Appended.readsAs (hs : Appended cfg m s) : ReadsAs cfg s.phy m := by
  obtain ⟨⟨e', hlog⟩, -⟩ := hs
  exact ⟨e', m, hlog.eepromParser_eq, fun _ _ => rfl⟩

theorem TornAt.readsAs (h : TornAt cfg s.phy e blk m) : ReadsAs cfg s.phy m :=
  ⟨e + 1, m, h.eepromParser_eq, fun _ _ => rfl⟩

/-- In a run of successful writes behind a torn header all are read back exactly when the first
that burns anything repairs the header. -/
theorem TornAt.run_iff {bs : List ByteWrite} (h8 : cfg.eepromSize % 8 = 0)
    (h1024 : cfg.eepromSize ≤ 1024) (h : TornAt cfg s.phy e blk m) (hc : CacheCoherent cfg s)
    (hok : Along (byteStep hw cfg) (fun s b => (byteWrite hw cfg s b).1 = .success) s bs) :
    (∀ k, ReadsAs cfg (run (byteStep hw cfg) s (bs.take k)).phy (overwrite m (bs.take k))) ↔
      RepairsFirst m blk bs := by
  induction bs generalizing s with
  | nil => simpa [RepairsFirst, overwrite] using h.readsAs
  | cons b bs ih =>
    obtain ⟨hb, hbs⟩ := hok
    obtain ⟨hoff, hcoh, ⟨hsame, hphy⟩ | ⟨hval, byte1, byte2, hroom, hphy, hmap⟩⟩ :=
      h.byteWrite_success hc hb
    · have hkeep : Function.update m b.offset b.value = m := by
        rw [← hsame, Function.update_eq_self]
      rw [RepairsFirst, if_pos hsame, ← ih (by rwa [hphy]) hcoh hbs]
      constructor
      · intro hall k
        simpa [overwrite, hkeep] using hall (k + 1)
      · intro hall k
        cases k with
        | zero => simpa [overwrite] using h.readsAs
        | succ k => simpa [overwrite, hkeep] using hall k
    · have hiff := h.readsAs_iff h1024 hoff hroom hval hmap
      rw [RepairsFirst, if_neg hval, ← hiff, ← hphy]
      constructor
      · intro hall
        simpa [overwrite] using hall 1
      · intro hread k
        cases k with
        | zero => simpa [overwrite] using h.readsAs
        | succ k =>
          rw [hphy, hiff] at hread
          have hlog : LogAt cfg
              (store s.phy (e + 1) (recordHdrBytes b.offset ++ [byte1, byte2])) (e + 4) _ :=
            h.logAt hread.1 hread.2 hoff hroom
          rw [hmap, ← hphy] at hlog
          have hs : Appended cfg (Function.update m b.offset b.value) (byteStep hw cfg s b) :=
            ⟨⟨_, hlog⟩, hcoh⟩
          have htake : Along (byteStep hw cfg) (fun s b => (byteWrite hw cfg s b).1 = .success)
              (byteStep hw cfg s b) (bs.take k) := by
            rw [← List.take_append_drop k bs, along_append] at hbs
            exact hbs.1
          simpa [overwrite] using (hs.overwrite_run h8 h1024 htake).readsAs

end Write

section Interrupted
variable {hw : EfuseHw} {cfg : HwCfgInfo} {flt : Faults} {s : HalmacAdapter} {e : ℕ} {m : ByteMap}

theorem withLogMap_changed {k : ByteMap → HalmacAdapter → HalmacRet × HalmacAdapter}
    (h : (withLogMap cfg flt k s).2.phy ≠ s.phy) :
    ∃ map t, readLogEfuseMap cfg flt s = (.ok map, t) ∧ withLogMap cfg flt k s = k map t := by
  have hphy : (readLogEfuseMap cfg flt s).2.phy = s.phy := readLogEfuseMap_phy s
  unfold withLogMap at h ⊢
  split_ifs at h ⊢
  · exact absurd rfl h
  · rcases hread : readLogEfuseMap cfg flt s with ⟨err | map, t⟩
    · rw [hread] at h hphy
      exact absurd hphy h
    · exact ⟨map, t, rfl, rfl⟩

theorem writeRecord_changed {offset : ℕ} {byte1 byte2 : BitVec 8}
    (h : (writeRecord hw cfg flt offset byte1 byte2 s).2.phy ≠ s.phy) :
    recordLen offset + cfg.prtctEfuseSize + s.efuseEnd < cfg.efuseSize := by
  by_contra hfull
  refine h ?_
  unfold writeRecord
  unfold recordLen at hfull
  dsimp only
  rw [if_pos (by omega)]

/-- A write that changed the chip was made where the log ends and there was room for it. -/
theorem LogAt.exec_changed {c : Call} (hlog : LogAt cfg s.phy e m) (hc : CacheCoherent cfg s)
    (h : (exec hw cfg s c).2.phy ≠ s.phy) :
    c.write.offset < cfg.eepromSize ∧
      recordLen c.write.offset + cfg.prtctEfuseSize + e < cfg.efuseSize := by
  obtain ⟨w, flt⟩ := c
  have hentry : ∀ {offset : ℕ} {k : ByteMap → HalmacAdapter → HalmacRet × HalmacAdapter},
      (∀ map t, (k map t).2.phy ≠ t.phy →
        recordLen offset + cfg.prtctEfuseSize + t.efuseEnd < cfg.efuseSize) →
      (logEfuseEntry cfg flt offset (withLogMap cfg flt k) s).2.phy ≠ s.phy →
      offset < cfg.eepromSize ∧ recordLen offset + cfg.prtctEfuseSize + e < cfg.efuseSize := by
    intro offset k hk hne
    obtain ⟨hphy, -⟩ | ⟨hoff, t, hphy, hcache, hphy', -, -⟩ :=
      logEfuseEntry_cases cfg flt offset (withLogMap cfg flt k) s
    · exact absurd hphy hne
    · rw [hphy', ← hphy] at hne
      obtain ⟨map, u, hread, heq⟩ := withLogMap_changed hne
      have htc : CacheCoherent cfg t := by
        unfold CacheCoherent at hc ⊢
        rwa [hphy, hcache]
      have ht : LogAt cfg t.phy e m := by rwa [hphy]
      obtain ⟨-, huphy, huend, -⟩ := ht.readLogEfuseMap_ok htc hread
      rw [heq, ← huphy] at hne
      have := hk map u hne
      rw [huend] at this
      exact ⟨hoff, this⟩
  cases w with
  | byte offset value =>
    refine hentry ?_ h
    intro map t hne
    split_ifs at hne
    · exact absurd rfl hne
    · exact writeRecord_changed hne
    · exact writeRecord_changed hne
  | word offset value =>
    refine hentry ?_ h
    intro map t hne
    split_ifs at hne
    · exact writeRecord_changed hne
    · exact absurd rfl hne

theorem LogAt.torn {c : Call} (hlog : LogAt cfg s.phy e m) (hc : CacheCoherent cfg s)
    (h : TornWrite hw cfg s c) :
    TornAt cfg (exec hw cfg s c).2.phy e (c.write.offset / 8) m := by
  obtain ⟨e', m', hparse, hphy⟩ := h.stored
  obtain ⟨rfl, rfl⟩ := Prod.mk.inj (Option.some.inj (hlog.eepromParser_eq.symm.trans hparse))
  have hblank := hlog.blank e le_rfl hlog.end_lt
  have hne : (exec hw cfg s c).2.phy ≠ s.phy := by
    intro heq
    have hat := hphy e hlog.end_lt
    rw [heq, Function.update_self, hblank] at hat
    exact (extendedHdr_torn _).2 hat.symm
  have hroom := (hlog.exec_changed hc hne).2
  rw [recordLen, if_pos h.extended] at hroom
  refine ⟨?_, hroom, ?_, ?_⟩
  · refine hlog.walk.congr fun k _ hk => ?_
    dsimp only at hk
    rw [hphy k (by omega), Function.update_of_ne (by omega)]
  · rw [hphy e hlog.end_lt, Function.update_self]
  · intro i hi hi'
    rw [hphy i hi', Function.update_of_ne (by omega)]
    exact hlog.blank i (by omega) hi'

end Interrupted

/-- After an extended write that was interrupted behind its first header byte the parser still
returns the map of the earlier writes. The writes that follow, in any later session, are all read
back exactly when the first of them that burns anything goes to the first block while the torn
header is that of a block whose number is a multiple of eight. -/
theorem torn_efuse_write_iff (hw : EfuseHw) (cfg : HwCfgInfo) (h8 : cfg.eepromSize % 8 = 0)
    (h1024 : cfg.eepromSize ≤ 1024) (s : HalmacAdapter)
    (hblank : ∀ i < cfg.efuseSize, s.phy i = 0xFF) (hc : CacheCoherent cfg s) (calls : List Call)
    (hcalls : Along (execStep hw cfg) (fun s c => (exec hw cfg s c).1 = .success) s calls)
    (c : Call) (htorn : TornWrite hw cfg (run (execStep hw cfg) s calls) c) (t : HalmacAdapter)
    (ht : t.phy = (exec hw cfg (run (execStep hw cfg) s calls) c).2.phy)
    (htc : CacheCoherent cfg t) (bs : List ByteWrite)
    (hbs : Along (byteStep hw cfg) (fun s b => (byteWrite hw cfg s b).1 = .success) t bs) :
    ReadsAs cfg t.phy (lastWrite (calls.map Call.write)) ∧
      ((∀ k, ReadsAs cfg (run (byteStep hw cfg) t (bs.take k)).phy
          (overwrite (lastWrite (calls.map Call.write)) (bs.take k))) ↔
        RepairsFirst (lastWrite (calls.map Call.write)) (c.write.offset / 8) bs) := by
  obtain ⟨⟨e, hlog⟩, hcoh⟩ := appended_run h8 h1024 (appended_blank hblank hc) hcalls
  have htornAt : TornAt cfg t.phy e (c.write.offset / 8) (lastWrite (calls.map Call.write)) := by
    rw [ht]
    exact hlog.torn hcoh htorn
  exact ⟨htornAt.readsAs, htornAt.run_iff h8 h1024 htc hbs⟩

/-- The second write of a call times out with nothing stored. -/
def secondWriteFails : Faults :=
  { noFaults with write := fun n => if n = 1 then .timeout false else .none }

/-- The adapter after a restart, with the efuse as it stands. -/
def restarted (s : HalmacAdapter) : HalmacAdapter := { blankAdapter with phy := s.phy }

theorem blank_efuse_torn :
    TornWrite clearingHw cfg8821c blankAdapter ⟨.byte 0x80 0x00, secondWriteFails⟩ := by
  have hlog : LogAt cfg8821c blankAdapter.phy 0 (fun _ => 0xFF) :=
    ⟨.refl, by decide, fun _ _ _ => rfl⟩
  refine ⟨by decide +kernel, by decide, 0, _, hlog.eepromParser_eq, by decide +kernel⟩

theorem torn_efuse_write_iff_first_block :
    ReadsAs cfg8821c (run (byteStep clearingHw cfg8821c)
        (restarted (exec clearingHw cfg8821c blankAdapter
          ⟨.byte 0x80 0x00, secondWriteFails⟩).2)
        ([⟨0x05, 0x12, noFaults⟩, ⟨0x1f0, 0x34, noFaults⟩].take 2)).phy
      (overwrite (lastWrite []) [⟨0x05, 0x12, noFaults⟩, ⟨0x1f0, 0x34, noFaults⟩]) := by
  have h := torn_efuse_write_iff clearingHw cfg8821c (by decide) (by decide) blankAdapter
    (fun _ _ => rfl) (fun _ h => by cases h) [] trivial ⟨.byte 0x80 0x00, secondWriteFails⟩
    blank_efuse_torn
    (restarted (exec clearingHw cfg8821c blankAdapter ⟨.byte 0x80 0x00, secondWriteFails⟩).2) rfl
    (fun _ h => by cases h) [⟨0x05, 0x12, noFaults⟩, ⟨0x1f0, 0x34, noFaults⟩]
    ⟨by decide +kernel, by decide +kernel, trivial⟩
  exact h.2.mpr ⟨by decide, by decide⟩ 2

/-- With the write of offset `0x80` interrupted, the next write, of offset `0x10`, ends up at
offset `0x80`. -/
theorem torn_efuse_write_misplaced :
    ¬ ∀ (hw : EfuseHw) (cfg : HwCfgInfo), cfg.eepromSize % 8 = 0 → cfg.eepromSize ≤ 1024 →
      ∀ s : HalmacAdapter, (∀ i < cfg.efuseSize, s.phy i = 0xFF) → CacheCoherent cfg s →
      ∀ c : Call, TornWrite hw cfg s c → ∀ t : HalmacAdapter,
      t.phy = (exec hw cfg s c).2.phy → CacheCoherent cfg t → ∀ b : ByteWrite,
      (byteWrite hw cfg t b).1 = .success →
      ReadsAs cfg (byteStep hw cfg t b).phy (overwrite (lastWrite []) [b]) := by
  intro h
  obtain ⟨e, m, hparse, hag⟩ := h clearingHw cfg8821c (by decide) (by decide) blankAdapter
    (fun _ _ => rfl) (fun _ h => by cases h) ⟨.byte 0x80 0x00, secondWriteFails⟩ blank_efuse_torn
    (restarted (exec clearingHw cfg8821c blankAdapter ⟨.byte 0x80 0x00, secondWriteFails⟩).2) rfl
    (fun _ h => by cases h) ⟨0x10, 0x42, noFaults⟩ (by decide +kernel)
  have hwrong : (eepromParser cfg8821c (byteStep clearingHw cfg8821c
      (restarted (exec clearingHw cfg8821c blankAdapter ⟨.byte 0x80 0x00, secondWriteFails⟩).2)
      ⟨0x10, 0x42, noFaults⟩).phy).map (fun r => r.2 0x10) = some 0xFF := by
    decide +kernel
  rw [hparse] at hwrong
  have hold : m 0x10 = 0xFF := Option.some.inj hwrong
  have hat := hag 0x10 (by decide)
  rw [hold] at hat
  exact absurd hat (by decide)

end Rtl8821cu.Efuse
