import Rtl8821cu.LibRun

/-! The efuse of the chip and its logical map (`hal/halmac/halmac_88xx/halmac_efuse_88xx.c`): the
physical bytes, the parser of the record log and the two functions that append a record. -/
namespace Rtl8821cu.Efuse
open Run

/-- The members of `enum halmac_ret_status` the efuse functions return. -/
inductive HalmacRet
  | success
  | efuseSizeIncorrect
  | busyState
  | errorState
  | switchEfuseBankFail
  | mallocFail
  | efuseRFail
  | efuseWFail
  | eepromParsingFail
  | efuseNotEnough
  | adrNotAlign
  | nullPointer
  | noDlfw
  deriving DecidableEq, Repr

/-- `enum halmac_cmd_construct_state`. -/
inductive CmdCnstrState
  | idle
  | busy
  | h2cSent
  | cnstr
  | bufClr
  | undefined
  deriving DecidableEq, Repr

inductive CmdProcessStatus
  | idle
  | sending
  | rcvd
  | done
  | error
  | undefine
  deriving DecidableEq, Repr

/-- Bytes by address. -/
abbrev ByteMap := ℕ → BitVec 8

/-- The sizes of `hw_cfg_info`. The address field of the efuse control register has ten bits,
and the sums of the space checks stay below `2 ^ 32`. -/
structure HwCfgInfo where
  efuseSize : ℕ
  eepromSize : ℕ
  prtctEfuseSize : ℕ
  efuse_pos : 0 < efuseSize
  efuse_le : efuseSize ≤ 1024
  prtct_lt : 4 + prtctEfuseSize + efuseSize < 2 ^ 32

/-- Subtraction of 32-bit words. -/
def sub32 (a b : ℕ) : ℕ := if b ≤ a then a - b else a + 2 ^ 32 - b

/-- `efuse_size - prtct_efuse_size`. -/
def HwCfgInfo.usable (cfg : HwCfgInfo) : ℕ := sub32 cfg.efuseSize cfg.prtctEfuseSize

section Parser
variable (cfg : HwCfgInfo) (phyMap : ByteMap)

/-- The position of the last header byte, the block and the word enables of the record at
`efuseIdx`; `none` when an extended header lacks its second byte. -/
def parseHdr (efuseIdx : ℕ) : Option (ℕ × BitVec 8 × BitVec 8) :=
  let hdr := phyMap efuseIdx
  if hdr &&& 0x1f = 0x0f then
    let hdr2 := phyMap (efuseIdx + 1)
    if hdr2 = 0xff then none
    else some (efuseIdx + 1, (hdr2 &&& 0xF0) >>> 1 ||| hdr >>> 5 &&& 0x07, hdr2 &&& 0x0F)
  else some (efuseIdx, (hdr &&& 0xF0) >>> 4, hdr &&& 0x0F)

/-- One turn of the loop over the four words of a block; `none` is a parsing failure. -/
def parseWord (blkIdx wordEn : BitVec 8) (st : ℕ × ByteMap) (i : ℕ) : Option (ℕ × ByteMap) :=
  if ~~~(wordEn >>> i) &&& 1 = 1 then
    let eepromIdx := blkIdx.toNat * 8 + i * 2
    if cfg.eepromSize < eepromIdx + 1 then none
    else if sub32 cfg.usable 1 < st.1 + 1 then none
    else if cfg.usable < st.1 + 2 then none
    else some (st.1 + 2, Function.update (Function.update st.2 eepromIdx (phyMap st.1))
      (eepromIdx + 1) (phyMap (st.1 + 1)))
  else some st

/-- What one turn of the record loop comes to. -/
inductive ParseStep
  | stop (efuseEnd : ℕ)
  | fail
  | next (efuseIdx : ℕ) (logMap : ByteMap)

def parseStep (efuseIdx : ℕ) (logMap : ByteMap) : ParseStep :=
  match parseHdr phyMap efuseIdx with
  | none => .stop (efuseIdx + 1)
  | some (hdrEnd, blkIdx, wordEn) =>
      if phyMap efuseIdx = 0xff then .stop hdrEnd
      else if sub32 cfg.usable 1 ≤ hdrEnd + 1 then .fail
      else
        match [0, 1, 2, 3].foldlM (parseWord cfg phyMap blkIdx wordEn) (hdrEnd + 1, logMap) with
        | none => .fail
        | some (efuseIdx, logMap) => .next efuseIdx logMap

theorem parseHdr_le {i j : ℕ} {b w : BitVec 8} (h : parseHdr phyMap i = some (j, b, w)) :
    i ≤ j := by
  simp only [parseHdr] at h
  split_ifs at h <;> grind

theorem parseWord_le {b w : BitVec 8} {st st' : ℕ × ByteMap} {i : ℕ}
    (h : parseWord cfg phyMap b w st i = some st') : st.1 ≤ st'.1 := by
  unfold parseWord at h
  split_ifs at h <;> grind

theorem foldlM_parseWord_le {b w : BitVec 8} {l : List ℕ} {st st' : ℕ × ByteMap}
    (h : l.foldlM (parseWord cfg phyMap b w) st = some st') : st.1 ≤ st'.1 := by
  induction l generalizing st with
  | nil =>
    obtain rfl : st = st' := by simpa using h
    exact le_rfl
  | cons i l ih =>
    rw [List.foldlM_cons] at h
    obtain ⟨mid, hmid, hrest⟩ := Option.bind_eq_some_iff.mp h
    exact (parseWord_le cfg phyMap hmid).trans (ih hrest)

/-- A record is passed only below the protected area, and the walk moves on. -/
theorem parseStep_next_lt {i j : ℕ} {m m' : ByteMap}
    (h : parseStep cfg phyMap i m = .next j m') : i < j ∧ i < sub32 cfg.usable 1 := by
  unfold parseStep at h
  split at h
  · cases h
  · rename_i hdrEnd b w hhdr
    have hle := parseHdr_le phyMap hhdr
    split_ifs at h with h1 h2
    split at h
    · cases h
    · rename_i hfold
      cases h
      have := foldlM_parseWord_le cfg phyMap hfold
      dsimp only at this
      omega

/-- The record loop of `eeprom_parser_88xx`. -/
def eepromParserLoop (efuseIdx : ℕ) (logMap : ByteMap) : Option (ℕ × ByteMap) :=
  match _h : parseStep cfg phyMap efuseIdx logMap with
  | .stop efuseEnd => some (efuseEnd, logMap)
  | .fail => none
  | .next efuseIdx logMap => eepromParserLoop efuseIdx logMap
termination_by sub32 cfg.usable 1 - efuseIdx
decreasing_by
  have := parseStep_next_lt cfg phyMap _h
  omega

/-- `eeprom_parser_88xx`: `efuse_end` and the logical map, `none` on a parsing failure. -/
def eepromParser : Option (ℕ × ByteMap) := eepromParserLoop cfg phyMap 0 fun _ => 0xFF

end Parser

/-- `efuse_map_valid` with the buffer `efuse_map`. While the copy is invalid only the buffer's
existence is looked at. -/
inductive EfuseCache
  | invalid (allocated : Bool)
  | valid (efuseMap : ByteMap)

/-- The adapter as the efuse functions see it; `phy` is the WLAN bank. -/
structure HalmacAdapter where
  phy : ByteMap
  cache : EfuseCache
  efuseEnd : ℕ
  efuseAutoCheckEn : Bool
  cmdCnstrState : CmdCnstrState
  procStatus : CmdProcessStatus
  bank : BitVec 2

/-- What burning a byte over another one leaves; a blank byte takes every value. -/
structure EfuseHw where
  burn : BitVec 8 → BitVec 8 → BitVec 8
  burn_blank : ∀ v, burn 0xFF v = v

/-- How one `write_hw_efuse_88xx` goes: the controller may never report the end of the write,
with or without having stored the byte, and the read back of the automatic check may fail. -/
inductive WriteFault
  | none
  | timeout (stored : Bool)
  | readBack
  deriving DecidableEq

/-- The environment of one call: the bank register takes the value written, each allocation and
the read of the efuse succeed, and the outcome of the call's n-th write. -/
structure Faults where
  bankSwitch : Bool
  mallocMap : Bool
  mallocLocal : Bool
  readHw : Bool
  mallocAdapterMap : Bool
  write : ℕ → WriteFault

/-- `if (status != HALMAC_RET_SUCCESS) return status;` between two calls. -/
def andThen (r : HalmacRet × HalmacAdapter) (k : HalmacAdapter → HalmacRet × HalmacAdapter) :
    HalmacRet × HalmacAdapter :=
  if r.1 = .success then k r.2 else r

def cnvEfuseState (dest : CmdCnstrState) (s : HalmacAdapter) : HalmacRet × HalmacAdapter :=
  if s.cmdCnstrState ≠ .idle ∧ s.cmdCnstrState ≠ .busy ∧ s.cmdCnstrState ≠ .h2cSent then
    (.errorState, s)
  else if s.cmdCnstrState = dest then (.errorState, s)
  else if dest = .busy ∧ s.cmdCnstrState = .h2cSent then (.errorState, s)
  else if dest = .h2cSent ∧ s.cmdCnstrState = .idle then (.errorState, s)
  else (.success, { s with cmdCnstrState := dest })

/-- `HALMAC_EFUSE_BANK_WIFI`. -/
def bankWifi : BitVec 2 := 0

def switchEfuseBank (flt : Faults) (bank : BitVec 2) (s : HalmacAdapter) :
    HalmacRet × HalmacAdapter :=
  if (cnvEfuseState .busy s).1 ≠ .success then (.errorState, s)
  else
    let s := (cnvEfuseState .busy s).2
    if s.bank = bank then (.success, s)
    else if flt.bankSwitch then (.success, { s with bank := bank })
    else (.switchEfuseBankFail, s)

/-- The frame of the entry points around the state of the command. -/
def efuseEntry (flt : Faults) (proc : HalmacAdapter → HalmacRet × HalmacAdapter)
    (s : HalmacAdapter) : HalmacRet × HalmacAdapter :=
  if s.procStatus = .sending then (.busyState, s)
  else if s.cmdCnstrState ≠ .idle then (.errorState, s)
  else andThen (andThen (switchEfuseBank flt bankWifi s) proc) (cnvEfuseState .idle)

section Write
variable (hw : EfuseHw) (cfg : HwCfgInfo) (flt : Faults)

def HalmacAdapter.invalidate (s : HalmacAdapter) : HalmacAdapter :=
  match s.cache with
  | .invalid _ => s
  | .valid _ => { s with cache := .invalid true }

def HalmacAdapter.burn (s : HalmacAdapter) (offset : ℕ) (value : BitVec 8) : HalmacAdapter :=
  { s with phy := Function.update s.phy (offset % 1024) (hw.burn (s.phy (offset % 1024)) value) }

def writeHwEfuse (fault : WriteFault) (offset : ℕ) (value : BitVec 8) (s : HalmacAdapter) :
    HalmacRet × HalmacAdapter :=
  let s := s.invalidate
  match fault with
  | .timeout stored => (.efuseWFail, if stored then s.burn hw offset value else s)
  | fault =>
      let s := s.burn hw offset value
      if s.efuseAutoCheckEn then
        if fault = .readBack then (.efuseRFail, s)
        else if s.phy (offset % 1024) ≠ value then (.efuseWFail, s)
        else (.success, s)
      else (.success, s)

/-- The bytes of a record, one `write_hw_efuse_88xx` each; `n` counts the writes of the call. -/
def writeHwBytes (n offset : ℕ) : List (BitVec 8) → HalmacAdapter → HalmacRet × HalmacAdapter
  | [], s => (.success, s)
  | b :: bs, s =>
      andThen (writeHwEfuse hw (flt.write n) offset b s) (writeHwBytes (n + 1) (offset + 1) bs)

/-- `read_efuse_88xx` over the whole efuse and the copy into `efuse_map`. -/
def fillEfuseMap (s : HalmacAdapter) : Except HalmacRet ByteMap × HalmacAdapter :=
  match s.cache with
  | .valid efuseMap => (.ok efuseMap, s)
  | .invalid allocated =>
      if !flt.mallocLocal then (.error .mallocFail, s)
      else if !flt.readHw then (.error .efuseRFail, s)
      else if !allocated && !flt.mallocAdapterMap then (.error .mallocFail, s)
      else
        let map : ByteMap := fun addr => s.phy (addr % 1024)
        (.ok map, { s with cache := .valid map })

def readLogEfuseMap (s : HalmacAdapter) : Except HalmacRet ByteMap × HalmacAdapter :=
  match fillEfuseMap flt s with
  | (.error e, s) => (.error e, s)
  | (.ok efuseMap, s) =>
      match eepromParser cfg efuseMap with
      | none => (.error .eepromParsingFail, s)
      | some (efuseEnd, logMap) => (.ok logMap, { s with efuseEnd := efuseEnd })

/-- The word enables of a record with the one word `i`. -/
def wordEnOf (i : ℕ) : BitVec 8 := 1#8 <<< i ^^^ 0x0F

def recordHdr (blk : BitVec 8) (blkIdx : ℕ) : BitVec 8 := blk <<< 4 + wordEnOf blkIdx

def extendedHdr (blk : BitVec 8) : BitVec 8 := (blk &&& 0x07) <<< 5 &&& 0xE0 ||| 0x0F

def extendedHdr2 (blk : BitVec 8) (blkIdx : ℕ) : BitVec 8 :=
  (blk &&& 0x78) <<< 1 + wordEnOf blkIdx

/-- The header bytes for the word at `offset`. -/
def recordHdrBytes (offset : ℕ) : List (BitVec 8) :=
  let blk := BitVec.ofNat 8 (offset / 8)
  let blkIdx := offset % 8 / 2
  if 0x7f < offset then [extendedHdr blk, extendedHdr2 blk blkIdx] else [recordHdr blk blkIdx]

/-- The common tail of both writers: the space check and the writes of the record. -/
def writeRecord (offset : ℕ) (byte1 byte2 : BitVec 8) (s : HalmacAdapter) :
    HalmacRet × HalmacAdapter :=
  let need := if 0x7f < offset then 4 else 3
  if cfg.efuseSize ≤ need + cfg.prtctEfuseSize + s.efuseEnd then (.efuseNotEnough, s)
  else writeHwBytes hw flt 0 s.efuseEnd (recordHdrBytes offset ++ [byte1, byte2]) s

/-- The opening of both writers: the buffer for the map, and the map as it stands. -/
def withLogMap (k : ByteMap → HalmacAdapter → HalmacRet × HalmacAdapter) (s : HalmacAdapter) :
    HalmacRet × HalmacAdapter :=
  if !flt.mallocMap then (.mallocFail, s)
  else
    match readLogEfuseMap cfg flt s with
    | (.error e, s) => (e, s)
    | (.ok map, s) => k map s

def procWriteLogEfuse (offset : ℕ) (value : BitVec 8) (s : HalmacAdapter) :
    HalmacRet × HalmacAdapter :=
  withLogMap cfg flt (fun map s =>
    if map offset = value then (.success, s)
    else if offset % 2 = 0 then writeRecord hw cfg flt offset value (map (offset + 1)) s
    else writeRecord hw cfg flt offset (map (offset - 1)) value s) s

def procWriteLogEfuseWord (offset : ℕ) (value : BitVec 16) (s : HalmacAdapter) :
    HalmacRet × HalmacAdapter :=
  withLogMap cfg flt (fun _ s =>
    if offset % 2 = 0 then
      writeRecord hw cfg flt offset (value.setWidth 8) ((value >>> 8).setWidth 8) s
    else (.adrNotAlign, s)) s

/-- The frame both entry points put around their writer. -/
def logEfuseEntry (offset : ℕ) (proc : HalmacAdapter → HalmacRet × HalmacAdapter)
    (s : HalmacAdapter) : HalmacRet × HalmacAdapter :=
  if cfg.eepromSize ≤ offset then (.efuseSizeIncorrect, s)
  else if s.procStatus = .sending then (.busyState, s)
  else if s.cmdCnstrState ≠ .idle then (.errorState, s)
  else andThen (andThen (switchEfuseBank flt bankWifi s) proc) (cnvEfuseState .idle)

def writeLogEfuse (offset : ℕ) (value : BitVec 8) (s : HalmacAdapter) :
    HalmacRet × HalmacAdapter :=
  logEfuseEntry cfg flt offset (procWriteLogEfuse hw cfg flt offset value) s

def writeLogEfuseWord (offset : ℕ) (value : BitVec 16) (s : HalmacAdapter) :
    HalmacRet × HalmacAdapter :=
  logEfuseEntry cfg flt offset (procWriteLogEfuseWord hw cfg flt offset value) s

end Write

end Rtl8821cu.Efuse
