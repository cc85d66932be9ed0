import Rtl8821cu.EfusePgSpace

/-! The state of the efuse command over whole histories of calls: the dumps, the read, the two
writers and the programming from a map. -/
namespace Rtl8821cu.Efuse
open Run

section MaskParser
variable (cfg : HwCfgInfo) (phyMap : ByteMap)

/-- The walk of `eeprom_parser_88xx` with zeros stored for the bytes of a record. -/
def maskStep (efuseIdx : ℕ) (logMask : ByteMap) : ParseStep :=
  match parseHdr phyMap efuseIdx with
  | none => .stop (efuseIdx + 1)
  | some (hdrEnd, blkIdx, wordEn) =>
      if phyMap efuseIdx = 0xff then .stop hdrEnd
      else if sub32 cfg.usable 1 ≤ hdrEnd + 1 then .fail
      else
        match [0, 1, 2, 3].foldlM (parseWord cfg (fun _ => 0x00) blkIdx wordEn)
          (hdrEnd + 1, logMask) with
        | none => .fail
        | some (efuseIdx, logMask) => .next efuseIdx logMask

theorem maskStep_next_lt {i j : ℕ} {m m' : ByteMap} (h : maskStep cfg phyMap i m = .next j m') :
    i < j ∧ i < sub32 cfg.usable 1 := by
  unfold maskStep at h
  split at h
  · cases h
  · rename_i hdrEnd b w hhdr
    have hle := parseHdr_le phyMap hhdr
    split_ifs at h with h1 h2
    split at h
    · cases h
    · rename_i hfold
      cases h
      have := foldlM_parseWord_le cfg (fun _ => 0x00) hfold
      dsimp only at this
      omega

def eepromMaskParserLoop (efuseIdx : ℕ) (logMask : ByteMap) : Option (ℕ × ByteMap) :=
  match _h : maskStep cfg phyMap efuseIdx logMask with
  | .stop efuseEnd => some (efuseEnd, logMask)
  | .fail => none
  | .next efuseIdx logMask => eepromMaskParserLoop efuseIdx logMask
termination_by sub32 cfg.usable 1 - efuseIdx
decreasing_by
  have := maskStep_next_lt cfg phyMap _h
  omega

def eepromMaskParser : Option (ℕ × ByteMap) := eepromMaskParserLoop cfg phyMap 0 fun _ => 0xFF

end MaskParser

section Dump
variable (cfg : HwCfgInfo) (flt : Faults)

/-- `reset_ofld_feature_88xx` for the efuse features. -/
def resetOfldFeature (s : HalmacAdapter) : HalmacAdapter :=
  { s with procStatus := .idle, cmdCnstrState := .idle }

def dumpEfuseDrv (s : HalmacAdapter) : HalmacRet × HalmacAdapter :=
  match s.cache with
  | .valid _ => (.success, s)
  | .invalid allocated =>
      if !allocated && !flt.mallocAdapterMap then (.mallocFail, resetOfldFeature s)
      else
        let s := { s with cache := .invalid true }
        if !flt.mallocLocal then (.mallocFail, s)
        else if !flt.readHw then (.efuseRFail, s)
        else (.success, { s with cache := .valid fun addr => s.phy (addr % 1024) })

/-- `proc_dump_efuse_88xx` with `HALMAC_EFUSE_R_DRV`. -/
def procDumpEfuse (s : HalmacAdapter) : HalmacRet × HalmacAdapter :=
  let s := { s with procStatus := .sending }
  if (cnvEfuseState .h2cSent s).1 ≠ .success then (.errorState, s)
  else dumpEfuseDrv flt (cnvEfuseState .h2cSent s).2

/-- The part of both dumps behind `proc_dump_efuse_88xx`. -/
def parseDump (parser : ByteMap → Option (ℕ × ByteMap)) (s : HalmacAdapter) :
    HalmacRet × HalmacAdapter :=
  match s.cache with
  | .invalid _ => (.success, s)
  | .valid efuseMap =>
      let s := { s with procStatus := .done }
      if !flt.mallocMap then (.mallocFail, s)
      else
        match parser efuseMap with
        | none => (.eepromParsingFail, s)
        | some (efuseEnd, _) => (.success, { s with efuseEnd := efuseEnd })

def dumpLogEfuse (parser : ByteMap → Option (ℕ × ByteMap)) (s : HalmacAdapter) :
    HalmacRet × HalmacAdapter :=
  if s.procStatus = .sending then (.busyState, s)
  else if s.cmdCnstrState ≠ .idle then (.errorState, s)
  else
    let s := { s with procStatus := .idle }
    andThen (andThen (andThen (switchEfuseBank flt bankWifi s) (procDumpEfuse flt))
      (parseDump flt parser)) (cnvEfuseState .idle)

def dumpLogEfuseMap (s : HalmacAdapter) : HalmacRet × HalmacAdapter :=
  dumpLogEfuse flt (eepromParser cfg) s

def dumpLogEfuseMask (s : HalmacAdapter) : HalmacRet × HalmacAdapter :=
  dumpLogEfuse flt (eepromMaskParser cfg) s

def readLogicalEfuse (offset : ℕ) (s : HalmacAdapter) : Except HalmacRet (BitVec 8) × HalmacAdapter :=
  if cfg.eepromSize ≤ offset then (.error .efuseSizeIncorrect, s)
  else if s.procStatus = .sending then (.error .busyState, s)
  else if s.cmdCnstrState ≠ .idle then (.error .errorState, s)
  else
    match switchEfuseBank flt bankWifi s with
    | (.success, s) =>
        if !flt.mallocMap then (.error .mallocFail, s)
        else
          match readLogEfuseMap cfg flt s with
          | (.error e, s) => (.error e, s)
          | (.ok map, s) =>
              match cnvEfuseState .idle s with
              | (.success, s) => (.ok (map offset), s)
              | (_, s) => (.error .errorState, s)
    | (e, s) => (.error e, s)

end Dump

/-- The six entry points with their arguments. -/
inductive EfuseApi
  | dumpLogEfuseMap
  | dumpLogEfuseMask
  | readLogicalEfuse (offset : ℕ)
  | writeLogEfuse (offset : ℕ) (value : BitVec 8)
  | writeLogEfuseWord (offset : ℕ) (value : BitVec 16)
  | pgEfuseByMap (arg : PgEfuseArg) (mallocMask : Bool)

/-- A call with the environment it meets. -/
structure ApiCall where
  api : EfuseApi
  faults : Faults

/-- The status a call returns and the adapter it leaves. -/
def apiCall (hw : EfuseHw) (cfg : HwCfgInfo) (s : HalmacAdapter) (c : ApiCall) :
    HalmacRet × HalmacAdapter :=
  match c.api with
  | .dumpLogEfuseMap => dumpLogEfuseMap cfg c.faults s
  | .dumpLogEfuseMask => dumpLogEfuseMask cfg c.faults s
  | .readLogicalEfuse offset =>
      match readLogicalEfuse cfg c.faults offset s with
      | (.ok _, s) => (.success, s)
      | (.error e, s) => (e, s)
  | .writeLogEfuse offset value => writeLogEfuse hw cfg c.faults offset value s
  | .writeLogEfuseWord offset value => writeLogEfuseWord hw cfg c.faults offset value s
  | .pgEfuseByMap arg mallocMask => pgEfuseByMap hw cfg c.faults mallocMask arg s

def apiStep (hw : EfuseHw) (cfg : HwCfgInfo) (s : HalmacAdapter) (c : ApiCall) : HalmacAdapter :=
  (apiCall hw cfg s c).2

/-- The next call is not turned away for the state of the command. -/
def Ready (s : HalmacAdapter) : Prop := s.cmdCnstrState = .idle ∧ s.procStatus ≠ .sending

section Condition
variable (hw : EfuseHw) (cfg : HwCfgInfo) (flt : Faults) (s : HalmacAdapter)

/-- The bytes the parsers get once the efuse is read. -/
def efuseImage : ByteMap :=
  match s.cache with
  | .valid efuseMap => efuseMap
  | .invalid _ => fun addr => s.phy (addr % 1024)

/-- The bank register holds the WLAN bank or takes it. -/
def BankOk : Prop := s.bank = bankWifi ∨ flt.bankSwitch = true

/-- The copy of the efuse is there, or can be made. -/
def ImageOk : Prop :=
  match s.cache with
  | .valid _ => True
  | .invalid allocated =>
      flt.mallocLocal = true ∧ flt.readHw = true ∧ (allocated = true ∨ flt.mallocAdapterMap = true)

/-- The efuse is read and parsed, and what the parser returns meets `Q`. -/
def MapOk (Q : ℕ → ByteMap → Prop) : Prop :=
  flt.mallocMap = true ∧ ImageOk flt s ∧
    ∃ e m, eepromParser cfg (efuseImage s) = some (e, m) ∧ Q e m

/-- The controller reports the end of the write, and the automatic check can read it back. -/
def WriteFault.Ends (autoCheck : Bool) : WriteFault → Prop
  | .none => True
  | .timeout _ => False
  | .readBack => autoCheck = false

/-- Every byte is written and, with the automatic check on, is what was asked for. -/
def WritesOk (autoCheck : Bool) (phy : ByteMap) (n offset : ℕ) : List (BitVec 8) → Prop
  | [] => True
  | b :: bs =>
      (flt.write n).Ends autoCheck ∧
        (autoCheck = true → hw.burn (phy (offset % 1024)) b = b) ∧
        WritesOk autoCheck
          (Function.update phy (offset % 1024) (hw.burn (phy (offset % 1024)) b)) (n + 1)
          (offset + 1) bs

/-- There is room for the record and all of it is written. -/
def RecordOk (e offset : ℕ) (byte1 byte2 : BitVec 8) : Prop :=
  recordLen offset + cfg.prtctEfuseSize + e < cfg.efuseSize ∧
    WritesOk hw flt s.efuseAutoCheckEn s.phy 0 e (recordHdrBytes offset ++ [byte1, byte2])

/-- A dump reaches its end, or the buffer `efuse_map` cannot be allocated. -/
def DumpOk (parser : ByteMap → Option (ℕ × ByteMap)) : Prop :=
  BankOk flt s ∧
    (s.cache matches .invalid false ∧ flt.mallocAdapterMap = false ∨
      ImageOk flt s ∧ flt.mallocMap = true ∧ ∃ r, parser (efuseImage s) = some r)

/-- The arguments of `pg_efuse_by_map_88xx` are turned away. -/
def PgEfuseArg.Refused (arg : PgEfuseArg) : Prop :=
  arg.efuseMapSize ≠ cfg.eepromSize ∨ arg.efuseMapSize % 16 > 0 ∨
    arg.efuseMaskSize ≠ arg.efuseMapSize / 16 ∨ arg.efuseMap = none ∨ arg.efuseMask = none

end Condition

/-- The call is turned away for its arguments, or everything it needs from its environment goes
well; of the failures only the one of the allocation of `efuse_map` in a dump is allowed. -/
def Finishes (hw : EfuseHw) (cfg : HwCfgInfo) (s : HalmacAdapter) (c : ApiCall) : Prop :=
  match c.api with
  | .dumpLogEfuseMap => DumpOk c.faults s (eepromParser cfg)
  | .dumpLogEfuseMask => DumpOk c.faults s (eepromMaskParser cfg)
  | .readLogicalEfuse offset =>
      cfg.eepromSize ≤ offset ∨ BankOk c.faults s ∧ MapOk cfg c.faults s fun _ _ => True
  | .writeLogEfuse offset value =>
      cfg.eepromSize ≤ offset ∨ BankOk c.faults s ∧ MapOk cfg c.faults s fun e m =>
        m offset = value ∨
          if offset % 2 = 0 then RecordOk hw cfg c.faults s e offset value (m (offset + 1))
          else RecordOk hw cfg c.faults s e offset (m (offset - 1)) value
  | .writeLogEfuseWord offset value =>
      cfg.eepromSize ≤ offset ∨ BankOk c.faults s ∧ MapOk cfg c.faults s fun e _ =>
        offset % 2 = 0 ∧
          RecordOk hw cfg c.faults s e offset (value.setWidth 8) ((value >>> 8).setWidth 8)
  | .pgEfuseByMap arg mallocMask =>
      arg.Refused cfg ∨ ∃ map mask, arg.efuseMap = some map ∧ arg.efuseMask = some mask ∧
        BankOk c.faults s ∧ mallocMask = true ∧ MapOk cfg c.faults s fun e m =>
          let info : PgEfuseInfo := ⟨map, arg.efuseMapSize, mask, arg.efuseMaskSize⟩
          pgNum false info (updateMask info m) + cfg.prtctEfuseSize + e < cfg.efuseSize ∧
            WritesOk hw c.faults s.efuseAutoCheckEn s.phy 0 e
              (recordBytes false info (updateMask info m) (offsets arg.efuseMapSize 8))

section SameCmd
variable {hw : EfuseHw} {cfg : HwCfgInfo} {flt : Faults} {s : HalmacAdapter}

/-- The state of the command is as it was. -/
def SameCmd (s t : HalmacAdapter) : Prop :=
  t.cmdCnstrState = s.cmdCnstrState ∧ t.procStatus = s.procStatus

theorem SameCmd.refl (s : HalmacAdapter) : SameCmd s s := ⟨rfl, rfl⟩

theorem SameCmd.trans {s t u : HalmacAdapter} (h : SameCmd s t) (h' : SameCmd t u) : SameCmd s u :=
  ⟨h'.1.trans h.1, h'.2.trans h.2⟩

theorem SameCmd.andThen {r : HalmacRet × HalmacAdapter}
    {k : HalmacAdapter → HalmacRet × HalmacAdapter} (hr : SameCmd s r.2)
    (hk : ∀ t, SameCmd t (k t).2) : SameCmd s (andThen r k).2 := by
  obtain ⟨-, heq⟩ | ⟨-, heq⟩ := andThen_cases r k
  · rw [heq]
    exact hr
  · rw [heq]
    exact hr.trans (hk _)

theorem writeHwEfuse_sameCmd (fault : WriteFault) (offset : ℕ) (value : BitVec 8)
    (s : HalmacAdapter) : SameCmd s (writeHwEfuse hw fault offset value s).2 := by
  have hinv : SameCmd s s.invalidate := by
    unfold HalmacAdapter.invalidate
    split <;> exact ⟨rfl, rfl⟩
  have hburn : SameCmd s (s.invalidate.burn hw offset value) := hinv.trans ⟨rfl, rfl⟩
  unfold writeHwEfuse
  cases fault with
  | timeout stored =>
    dsimp only
    split_ifs
    · exact hburn
    · exact hinv
  | none => dsimp only; split_ifs <;> exact hburn
  | readBack => dsimp only; split_ifs <;> exact hburn

theorem writeHwBytes_sameCmd (n offset : ℕ) (bs : List (BitVec 8)) (s : HalmacAdapter) :
    SameCmd s (writeHwBytes hw flt n offset bs s).2 := by
  induction bs generalizing n offset s with
  | nil => exact .refl s
  | cons b bs ih =>
    rw [writeHwBytes]
    exact (writeHwEfuse_sameCmd _ _ _ s).andThen fun t => ih _ _ t

theorem readLogEfuseMap_sameCmd (s : HalmacAdapter) : SameCmd s (readLogEfuseMap cfg flt s).2 := by
  have hfill : SameCmd s (fillEfuseMap flt s).2 := by
    unfold fillEfuseMap
    split
    · exact .refl s
    · split_ifs <;> exact ⟨rfl, rfl⟩
  unfold readLogEfuseMap
  rcases hf : fillEfuseMap flt s with ⟨_ | map, t⟩
  · rwa [hf] at hfill
  · rw [hf] at hfill
    dsimp only
    split
    · exact hfill
    · exact hfill.trans ⟨rfl, rfl⟩

theorem withLogMap_sameCmd {k : ByteMap → HalmacAdapter → HalmacRet × HalmacAdapter}
    (hk : ∀ map t, SameCmd t (k map t).2) (s : HalmacAdapter) :
    SameCmd s (withLogMap cfg flt k s).2 := by
  have hread : SameCmd s (readLogEfuseMap cfg flt s).2 := readLogEfuseMap_sameCmd s
  unfold withLogMap
  split_ifs
  · exact .refl s
  · rcases hr : readLogEfuseMap cfg flt s with ⟨_ | map, t⟩
    · rwa [hr] at hread
    · rw [hr] at hread
      exact hread.trans (hk map t)

theorem writeRecord_sameCmd (offset : ℕ) (byte1 byte2 : BitVec 8) (s : HalmacAdapter) :
    SameCmd s (writeRecord hw cfg flt offset byte1 byte2 s).2 := by
  unfold writeRecord
  dsimp only
  by_cases hfull : cfg.efuseSize ≤ (if 0x7f < offset then 4 else 3) + cfg.prtctEfuseSize + s.efuseEnd
  · rw [if_pos hfull]
    exact .refl s
  · rw [if_neg hfull]
    exact writeHwBytes_sameCmd _ _ _ s

theorem programBlocks_sameCmd (superUsb : Bool) (info : PgEfuseInfo) (updatedMask : ByteMap)
    (n : ℕ) (is : List ℕ) (s : HalmacAdapter) :
    SameCmd s (programBlocks hw flt info superUsb updatedMask n is s).2 := by
  induction is generalizing n s with
  | nil => exact .refl s
  | cons i is ih =>
    rw [programBlocks_cons]
    refine SameCmd.andThen ?_ fun t => ih _ t
    exact (writeHwBytes_sameCmd _ _ _ s).andThen fun t => ⟨rfl, rfl⟩

end SameCmd

section Success
variable {hw : EfuseHw} {cfg : HwCfgInfo} {flt : Faults} {s : HalmacAdapter}

theorem andThen_success_iff {r : HalmacRet × HalmacAdapter}
    {k : HalmacAdapter → HalmacRet × HalmacAdapter} :
    (andThen r k).1 = .success ↔ r.1 = .success ∧ (k r.2).1 = .success := by
  obtain ⟨hne, heq⟩ | ⟨hok, heq⟩ := andThen_cases r k
  · rw [heq]
    tauto
  · rw [heq]
    tauto

theorem writeHwEfuse_success_iff {fault : WriteFault} {offset : ℕ} {value : BitVec 8} :
    (writeHwEfuse hw fault offset value s).1 = .success ↔
      fault.Ends s.efuseAutoCheckEn ∧
        (s.efuseAutoCheckEn = true → hw.burn (s.phy (offset % 1024)) value = value) := by
  have hauto : s.invalidate.efuseAutoCheckEn = s.efuseAutoCheckEn := by
    unfold HalmacAdapter.invalidate
    split <;> rfl
  unfold writeHwEfuse WriteFault.Ends
  cases fault with
  | timeout stored => simp
  | none =>
    simp only [HalmacAdapter.burn, hauto, invalidate_phy, Function.update_self]
    split_ifs <;> simp_all
  | readBack =>
    simp only [HalmacAdapter.burn, hauto, invalidate_phy, Function.update_self]
    split_ifs <;> simp_all

theorem writeHwEfuse_burns {fault : WriteFault} {offset : ℕ} {value : BitVec 8}
    (h : (writeHwEfuse hw fault offset value s).1 = .success) :
    (writeHwEfuse hw fault offset value s).2.phy =
        Function.update s.phy (offset % 1024) (hw.burn (s.phy (offset % 1024)) value) ∧
      (writeHwEfuse hw fault offset value s).2.efuseAutoCheckEn = s.efuseAutoCheckEn := by
  have hauto : s.invalidate.efuseAutoCheckEn = s.efuseAutoCheckEn := by
    unfold HalmacAdapter.invalidate
    split <;> rfl
  have hstate : (writeHwEfuse hw fault offset value s).2 = s.invalidate.burn hw offset value := by
    unfold writeHwEfuse at h ⊢
    cases fault with
    | timeout stored => simp at h
    | none => dsimp only; split_ifs <;> rfl
    | readBack => dsimp only; split_ifs <;> rfl
  rw [hstate]
  exact ⟨by simp only [HalmacAdapter.burn, invalidate_phy], hauto⟩

theorem writeHwBytes_success_iff {n offset : ℕ} {bs : List (BitVec 8)} :
    (writeHwBytes hw flt n offset bs s).1 = .success ↔
      WritesOk hw flt s.efuseAutoCheckEn s.phy n offset bs := by
  induction bs generalizing n offset s with
  | nil => simp [writeHwBytes, WritesOk]
  | cons b bs ih =>
    rw [writeHwBytes, andThen_success_iff, WritesOk, ← and_assoc, ← writeHwEfuse_success_iff]
    refine and_congr_right fun hok => ?_
    obtain ⟨hphy, hauto⟩ := writeHwEfuse_burns hok
    rw [ih, hphy, hauto]

theorem writeHwBytes_append (n offset : ℕ) (l l' : List (BitVec 8)) (s : HalmacAdapter) :
    writeHwBytes hw flt n offset (l ++ l') s =
      andThen (writeHwBytes hw flt n offset l s)
        (writeHwBytes hw flt (n + l.length) (offset + l.length) l') := by
  induction l generalizing n offset s with
  | nil => rfl
  | cons b l ih =>
    rw [List.cons_append, writeHwBytes, writeHwBytes, List.length_cons,
      show n + (l.length + 1) = n + 1 + l.length by omega,
      show offset + (l.length + 1) = offset + 1 + l.length by omega]
    obtain ⟨hne, heq⟩ | ⟨hok, heq⟩ := andThen_cases (writeHwEfuse hw (flt.write n) offset b s)
      (writeHwBytes hw flt (n + 1) (offset + 1) l)
    · rw [heq]
      unfold andThen
      rw [if_neg hne, if_neg hne]
    · rw [heq, ← ih]
      exact if_pos hok

theorem programBlocks_success_iff {superUsb : Bool} {info : PgEfuseInfo} {updatedMask : ByteMap}
    {n : ℕ} {is : List ℕ} :
    (programBlocks hw flt info superUsb updatedMask n is s).1 = .success ↔
      WritesOk hw flt s.efuseAutoCheckEn s.phy n s.efuseEnd
        (recordBytes superUsb info updatedMask is) := by
  induction is generalizing n s with
  | nil => simp [programBlocks, recordBytes, WritesOk]
  | cons i is ih =>
    have hcons : recordBytes superUsb info updatedMask (i :: is) =
        blockBytes superUsb info (programPreWordEn updatedMask i) i ++
          recordBytes superUsb info updatedMask is := rfl
    rw [programBlocks_cons, andThen_success_iff, hcons, ← writeHwBytes_success_iff,
      writeHwBytes_append, andThen_success_iff]
    have hpg : (pgBytes hw flt n (blockBytes superUsb info (programPreWordEn updatedMask i) i)
        s).1 = .success ↔ (writeHwBytes hw flt n s.efuseEnd
          (blockBytes superUsb info (programPreWordEn updatedMask i) i) s).1 = .success := by
      unfold pgBytes
      rw [andThen_success_iff]
      exact and_iff_left rfl
    rw [hpg]
    refine and_congr_right fun hok => ?_
    have hstate := (andThen_success (hpg.mpr hok)).2.2
    rw [ih, writeHwBytes_success_iff]
    unfold pgBytes
    rw [hstate]

theorem writeRecord_success_iff {offset : ℕ} {byte1 byte2 : BitVec 8} :
    (writeRecord hw cfg flt offset byte1 byte2 s).1 = .success ↔
      RecordOk hw cfg flt s s.efuseEnd offset byte1 byte2 := by
  unfold writeRecord RecordOk
  rw [← writeHwBytes_success_iff, recordLen]
  dsimp only
  by_cases hfull : cfg.efuseSize ≤ (if 0x7f < offset then 4 else 3) + cfg.prtctEfuseSize + s.efuseEnd
  · rw [if_pos hfull]
    simp only [reduceCtorEq, false_iff, not_and]
    intro hlt
    omega
  · rw [if_neg hfull]
    exact (and_iff_right (by omega)).symm

/-- The adapter once the efuse is read and parsed. -/
def parsed (s : HalmacAdapter) (e : ℕ) : HalmacAdapter :=
  { s with cache := .valid (efuseImage s), efuseEnd := e }

theorem fillEfuseMap_of_imageOk (h : ImageOk flt s) :
    fillEfuseMap flt s = (.ok (efuseImage s), { s with cache := .valid (efuseImage s) }) := by
  unfold ImageOk at h
  unfold fillEfuseMap efuseImage
  rcases hc : s.cache with allocated | efuseMap
  · rw [hc] at h
    obtain ⟨h1, h2, h3⟩ := h
    rcases h3 with rfl | h3
    · simp [h1, h2]
    · simp [h1, h2, h3]
  · simp [← hc]

theorem fillEfuseMap_of_not_imageOk (h : ¬ ImageOk flt s) :
    ∃ e, fillEfuseMap flt s = (.error e, s) := by
  unfold ImageOk at h
  unfold fillEfuseMap
  rcases hc : s.cache with allocated | efuseMap
  · simp only [hc] at h
    dsimp only
    split_ifs with h1 h2 h3
    · exact ⟨_, rfl⟩
    · exact ⟨_, rfl⟩
    · exact ⟨_, rfl⟩
    · simp only [Bool.not_eq_true, Bool.not_eq_false', Bool.and_eq_true] at h1 h2 h3
      refine absurd ⟨h1, h2, ?_⟩ h
      cases allocated <;> simp_all
  · rw [hc] at h
    exact absurd trivial h

theorem withLogMap_success_iff {k : ByteMap → HalmacAdapter → HalmacRet × HalmacAdapter} :
    (withLogMap cfg flt k s).1 = .success ↔
      MapOk cfg flt s fun e m => (k m (parsed s e)).1 = .success := by
  unfold MapOk
  constructor
  · intro h
    have hmalloc : flt.mallocMap = true := by
      by_contra hfalse
      rw [withLogMap, if_pos (by simpa using hfalse)] at h
      cases h
    obtain ⟨map, t, hread, heq⟩ := withLogMap_success h
    rw [heq] at h
    by_cases himg : ImageOk flt s
    · unfold readLogEfuseMap at hread
      rw [fillEfuseMap_of_imageOk himg] at hread
      dsimp only at hread
      split at hread
      · cases hread
      · rename_i e m hparse
        cases hread
        exact ⟨hmalloc, himg, e, map, hparse, h⟩
    · obtain ⟨e, hfill⟩ := fillEfuseMap_of_not_imageOk himg
      unfold readLogEfuseMap at hread
      rw [hfill] at hread
      cases hread
  · rintro ⟨hmalloc, himg, e, m, hparse, hk⟩
    have hread : readLogEfuseMap cfg flt s = (.ok m, parsed s e) := by
      unfold readLogEfuseMap
      rw [fillEfuseMap_of_imageOk himg]
      simp [hparse, parsed]
    rw [withLogMap, if_neg (by simp [hmalloc]), hread]
    exact hk

end Success

section Step
variable {hw : EfuseHw} {cfg : HwCfgInfo} {flt : Faults} {s : HalmacAdapter}

/-- The adapter inside a call. -/
def entered (s : HalmacAdapter) : HalmacAdapter :=
  { s with cmdCnstrState := .busy, bank := bankWifi }

theorem cnvEfuseState_busy (h : s.cmdCnstrState = .idle) :
    cnvEfuseState .busy s = (.success, { s with cmdCnstrState := .busy }) := by
  unfold cnvEfuseState
  simp [h]

theorem switchEfuseBank_ok (h : s.cmdCnstrState = .idle) (hbank : BankOk flt s) :
    switchEfuseBank flt bankWifi s = (.success, entered s) := by
  unfold switchEfuseBank
  rw [cnvEfuseState_busy h]
  dsimp only
  by_cases hb : s.bank = bankWifi
  · rw [if_neg (by simp), if_pos hb, entered, ← hb]
  · rw [if_neg (by simp), if_neg hb, if_pos (hbank.resolve_left hb), entered]

theorem switchEfuseBank_fail (h : s.cmdCnstrState = .idle) (hbank : ¬ BankOk flt s) :
    switchEfuseBank flt bankWifi s =
      (.switchEfuseBankFail, { s with cmdCnstrState := .busy }) := by
  unfold BankOk at hbank
  unfold switchEfuseBank
  rw [cnvEfuseState_busy h]
  dsimp only
  rw [if_neg (by simp), if_neg (by tauto), if_neg (by tauto)]

theorem cnvEfuseState_idle (h : s.cmdCnstrState = .busy ∨ s.cmdCnstrState = .h2cSent) :
    cnvEfuseState .idle s = (.success, { s with cmdCnstrState := .idle }) := by
  unfold cnvEfuseState
  rcases h with h | h <;> simp [h]

/-- A call that got past its checks leaves the command ready exactly if the bank switch and the
procedure inside it succeed. -/
theorem efuseEntry_ready_iff {proc : HalmacAdapter → HalmacRet × HalmacAdapter}
    (hproc : ∀ t, SameCmd t (proc t).2) (hs : Ready s) :
    Ready (efuseEntry flt proc s).2 ↔ BankOk flt s ∧ (proc (entered s)).1 = .success := by
  obtain ⟨hidle, hsend⟩ := hs
  unfold efuseEntry
  rw [if_neg hsend, if_neg (not_not.mpr hidle)]
  by_cases hbank : BankOk flt s
  · rw [switchEfuseBank_ok hidle hbank]
    obtain ⟨hcmd, hstat⟩ := hproc (entered s)
    have hin : andThen (HalmacRet.success, entered s) proc = proc (entered s) := if_pos rfl
    rw [hin]
    obtain ⟨hne, heq⟩ | ⟨hok, heq⟩ := andThen_cases (proc (entered s)) (cnvEfuseState .idle)
    · rw [heq]
      refine iff_of_false (fun hready => ?_) fun h => hne h.2
      have hbusy : (proc (entered s)).2.cmdCnstrState = .busy := hcmd
      rw [hready.1] at hbusy
      cases hbusy
    · rw [heq, cnvEfuseState_idle (Or.inl hcmd)]
      refine iff_of_true ⟨rfl, ?_⟩ ⟨hbank, hok⟩
      rw [show (proc (entered s)).2.procStatus = s.procStatus from hstat]
      exact hsend
  · rw [switchEfuseBank_fail hidle hbank]
    refine iff_of_false (fun hready => ?_) fun h => hbank h.1
    cases hready.1

/-- The adapter while a dump is under way. -/
def sending (s : HalmacAdapter) : HalmacAdapter :=
  { s with cmdCnstrState := .h2cSent, procStatus := .sending }

theorem procDumpEfuse_eq (h : s.cmdCnstrState = .busy) :
    procDumpEfuse flt s = dumpEfuseDrv flt (sending s) := by
  unfold procDumpEfuse cnvEfuseState
  simp [h, sending]

theorem dumpEfuseDrv_of_imageOk (h : ImageOk flt s) :
    dumpEfuseDrv flt s = (.success, { s with cache := .valid (efuseImage s) }) := by
  unfold ImageOk at h
  unfold dumpEfuseDrv efuseImage
  rcases hc : s.cache with allocated | efuseMap
  · rw [hc] at h
    obtain ⟨h1, h2, h3⟩ := h
    rcases h3 with rfl | h3
    · simp [h1, h2]
    · simp [h1, h2, h3]
  · simp [← hc]

/-- A failing read leaves the state of the command alone but where the buffer is missing. -/
theorem dumpEfuseDrv_of_not_imageOk (hcmd : s.cmdCnstrState = .h2cSent) (h : ¬ ImageOk flt s) :
    (dumpEfuseDrv flt s).1 ≠ .success ∧
      (Ready (dumpEfuseDrv flt s).2 ↔
        s.cache matches .invalid false ∧ flt.mallocAdapterMap = false) := by
  unfold ImageOk at h
  unfold dumpEfuseDrv Ready
  rcases hc : s.cache with allocated | efuseMap
  · simp only [hc] at h
    cases allocated <;> cases hm : flt.mallocAdapterMap <;> cases hl : flt.mallocLocal <;>
      cases hr : flt.readHw <;> simp_all [resetOfldFeature]
  · rw [hc] at h
    exact absurd trivial h

theorem parseDump_ready_iff {parser : ByteMap → Option (ℕ × ByteMap)} {efuseMap : ByteMap}
    (hcmd : s.cmdCnstrState = .h2cSent) (hc : s.cache = .valid efuseMap) :
    Ready (andThen (parseDump flt parser s) (cnvEfuseState .idle)).2 ↔
      flt.mallocMap = true ∧ ∃ r, parser efuseMap = some r := by
  unfold parseDump
  rw [hc]
  dsimp only
  cases hm : flt.mallocMap with
  | false => simp [andThen, Ready, hcmd]
  | true =>
    cases hp : parser efuseMap with
    | none => simp [andThen, Ready, hcmd]
    | some r => simp [andThen, Ready, cnvEfuseState, hcmd]

theorem dumpLogEfuse_ready_iff {parser : ByteMap → Option (ℕ × ByteMap)} (hs : Ready s) :
    Ready (dumpLogEfuse flt parser s).2 ↔ DumpOk flt s parser := by
  obtain ⟨hidle, hsend⟩ := hs
  unfold dumpLogEfuse DumpOk
  rw [if_neg hsend, if_neg (not_not.mpr hidle)]
  dsimp only
  have hidle' : { s with procStatus := CmdProcessStatus.idle }.cmdCnstrState = .idle := hidle
  by_cases hbank : BankOk flt s
  · have hbank' : BankOk flt { s with procStatus := .idle } := hbank
    rw [switchEfuseBank_ok hidle' hbank']
    have hin : andThen (HalmacRet.success, entered { s with procStatus := .idle })
        (procDumpEfuse flt) = dumpEfuseDrv flt (sending (entered s)) :=
      (if_pos rfl).trans (procDumpEfuse_eq rfl)
    rw [hin, and_iff_right hbank]
    by_cases himg : ImageOk flt s
    · have hdrv : dumpEfuseDrv flt (sending (entered s)) =
          (.success, { sending (entered s) with cache := .valid (efuseImage s) }) :=
        dumpEfuseDrv_of_imageOk himg
      have hpass : andThen (dumpEfuseDrv flt (sending (entered s))) (parseDump flt parser) =
          parseDump flt parser { sending (entered s) with cache := .valid (efuseImage s) } := by
        rw [hdrv]
        exact if_pos rfl
      rw [hpass, parseDump_ready_iff rfl rfl, and_iff_right himg]
      refine (or_iff_right ?_).symm
      rintro ⟨hcache, hmalloc⟩
      unfold ImageOk at himg
      rcases hc : s.cache with (_ | _) | efuseMap <;> simp_all
    · have himg' : ¬ ImageOk flt (sending (entered s)) := himg
      obtain ⟨hne, hready⟩ := dumpEfuseDrv_of_not_imageOk rfl himg'
      have hstop : andThen (andThen (dumpEfuseDrv flt (sending (entered s))) (parseDump flt parser))
          (cnvEfuseState .idle) = dumpEfuseDrv flt (sending (entered s)) := by
        unfold andThen
        rw [if_neg hne, if_neg hne]
      rw [hstop, or_iff_left fun h => himg h.1, hready]
      rfl
  · have hbank' : ¬ BankOk flt { s with procStatus := .idle } := hbank
    rw [switchEfuseBank_fail hidle' hbank']
    refine iff_of_false (fun hready => ?_) fun h => hbank h.1
    cases hready.1

/-- `read_logical_efuse_88xx` moves the state of the command like the writers. -/
theorem readLogicalEfuse_state (cfg : HwCfgInfo) (flt : Faults) (offset : ℕ) (s : HalmacAdapter) :
    (readLogicalEfuse cfg flt offset s).2 =
      (logEfuseEntry cfg flt offset (withLogMap cfg flt fun _ s => (.success, s)) s).2 := by
  unfold readLogicalEfuse logEfuseEntry
  by_cases h1 : cfg.eepromSize ≤ offset
  · rw [if_pos h1, if_pos h1]
  by_cases h2 : s.procStatus = .sending
  · rw [if_neg h1, if_neg h1, if_pos h2, if_pos h2]
  by_cases h3 : s.cmdCnstrState ≠ .idle
  · rw [if_neg h1, if_neg h1, if_neg h2, if_neg h2, if_pos h3, if_pos h3]
  · rw [if_neg h1, if_neg h1, if_neg h2, if_neg h2, if_neg h3, if_neg h3]
    rcases hsw : switchEfuseBank flt bankWifi s with ⟨ret, t⟩
    obtain ⟨-, -, hret⟩ := switchEfuseBank_keeps flt bankWifi s
    rw [hsw] at hret
    rcases hret with hret | hret | hret
    · obtain rfl : ret = .success := hret
      unfold andThen withLogMap
      dsimp only
      rw [if_pos rfl]
      cases flt.mallocMap with
      | false => rfl
      | true =>
        rcases hr : readLogEfuseMap cfg flt t with ⟨e | map, u⟩
        · have he := readLogEfuseMap_error hr
          rcases he with rfl | rfl | rfl <;> rfl
        · rcases hcnv : cnvEfuseState .idle u with ⟨ret', v⟩
          cases ret' <;> simp [hcnv]
    · obtain rfl : ret = .errorState := hret
      rfl
    · obtain rfl : ret = .switchEfuseBankFail := hret
      rfl

theorem logEfuseEntry_ready_iff {offset : ℕ}
    {k : ByteMap → HalmacAdapter → HalmacRet × HalmacAdapter}
    (hk : ∀ map t, SameCmd t (k map t).2) (hs : Ready s) :
    Ready (logEfuseEntry cfg flt offset (withLogMap cfg flt k) s).2 ↔
      cfg.eepromSize ≤ offset ∨ BankOk flt s ∧
        MapOk cfg flt s fun e m => (k m (parsed (entered s) e)).1 = .success := by
  rw [logEfuseEntry_eq]
  split_ifs with hoff
  · exact iff_of_true hs (Or.inl hoff)
  · rw [efuseEntry_ready_iff (withLogMap_sameCmd hk) hs, withLogMap_success_iff, or_iff_right hoff]
    rfl

theorem MapOk.congr {Q Q' : ℕ → ByteMap → Prop} (h : ∀ e m, Q e m ↔ Q' e m) :
    MapOk cfg flt s Q ↔ MapOk cfg flt s Q' := by
  unfold MapOk
  simp only [h]

theorem pgEfuseByMap_ready_iff {arg : PgEfuseArg} {mallocMask : Bool} (hs : Ready s) :
    Ready (pgEfuseByMap hw cfg flt mallocMask arg s).2 ↔
      Finishes hw cfg s ⟨.pgEfuseByMap arg mallocMask, flt⟩ := by
  obtain ⟨argMap, mapSize, argMask, maskSize⟩ := arg
  unfold pgEfuseByMap Finishes PgEfuseArg.Refused
  dsimp only
  split_ifs with h1 h2 h3
  · exact iff_of_true hs (Or.inl (Or.inl h1))
  · exact iff_of_true hs (Or.inl (Or.inr (Or.inl h2)))
  · exact iff_of_true hs (Or.inl (Or.inr (Or.inr (Or.inl h3))))
  · cases argMap with
    | none => exact iff_of_true hs (by simp)
    | some map =>
      cases argMask with
      | none => exact iff_of_true hs (by simp)
      | some mask =>
        have hproc : ∀ t, SameCmd t (procPgEfuseByMap hw flt ⟨map, mapSize, mask, maskSize⟩ cfg
            mallocMask t).2 := by
          intro t
          rw [procPgEfuseByMap_eq]
          split_ifs
          · exact .refl t
          · refine withLogMap_sameCmd (fun map' t => ?_) t
            unfold checkAndProgram
            dsimp only
            split_ifs
            · exact .refl t
            · exact programBlocks_sameCmd _ _ _ _ _ t
        rw [efuseEntry_ready_iff hproc hs, procPgEfuseByMap_eq]
        cases mallocMask with
        | false => simp [h1, h2, h3]
        | true =>
          have hk : ∀ e m, (checkAndProgram hw flt ⟨map, mapSize, mask, maskSize⟩ false
              (updateMask ⟨map, mapSize, mask, maskSize⟩ m) cfg (parsed (entered s) e)).1 =
              .success ↔
              pgNum false ⟨map, mapSize, mask, maskSize⟩
                (updateMask ⟨map, mapSize, mask, maskSize⟩ m) + cfg.prtctEfuseSize + e <
                  cfg.efuseSize ∧
              WritesOk hw flt s.efuseAutoCheckEn s.phy 0 e
                (recordBytes false ⟨map, mapSize, mask, maskSize⟩
                  (updateMask ⟨map, mapSize, mask, maskSize⟩ m) (offsets mapSize 8)) := by
            intro e m
            unfold checkAndProgram checkEfuseEnough
            dsimp only
            by_cases hfull : cfg.efuseSize ≤ pgNum false ⟨map, mapSize, mask, maskSize⟩
                (updateMask ⟨map, mapSize, mask, maskSize⟩ m) + cfg.prtctEfuseSize + e
            · rw [if_pos (show cfg.efuseSize ≤ _ + cfg.prtctEfuseSize +
                (parsed (entered s) e).efuseEnd from hfull)]
              simp [hfull]
            · rw [if_neg (show ¬ cfg.efuseSize ≤ _ + cfg.prtctEfuseSize +
                (parsed (entered s) e).efuseEnd from hfull)]
              simp only [ne_eq, not_true_eq_false, if_false]
              rw [and_iff_right (by omega)]
              exact programBlocks_success_iff
          simp only [Bool.not_true, Bool.false_eq_true, if_false, withLogMap_success_iff, hk]
          simp only [h1, h2, h3, false_or, Option.some.injEq, exists_and_left, exists_eq_left',
            reduceCtorEq, or_false, true_and]
          rfl

end Step

/-- From a ready adapter a call leaves it ready exactly if it finishes. -/
theorem apiStep_ready_iff (hw : EfuseHw) (cfg : HwCfgInfo) (s : HalmacAdapter) (c : ApiCall)
    (hs : Ready s) : Ready (apiStep hw cfg s c) ↔ Finishes hw cfg s c := by
  obtain ⟨api, flt⟩ := c
  cases api with
  | dumpLogEfuseMap => exact dumpLogEfuse_ready_iff hs
  | dumpLogEfuseMask => exact dumpLogEfuse_ready_iff hs
  | readLogicalEfuse offset =>
    have hstate : apiStep hw cfg s ⟨.readLogicalEfuse offset, flt⟩ =
        (readLogicalEfuse cfg flt offset s).2 := by
      unfold apiStep apiCall
      dsimp only
      split
      · rename_i heq
        rw [heq]
      · rename_i heq
        rw [heq]
    rw [hstate, readLogicalEfuse_state, logEfuseEntry_ready_iff (fun _ t => .refl t) hs]
    unfold Finishes
    simp
  | writeLogEfuse offset value =>
    refine (logEfuseEntry_ready_iff (fun map t => ?_) hs).trans ?_
    · split_ifs
      · exact .refl t
      · exact writeRecord_sameCmd _ _ _ t
      · exact writeRecord_sameCmd _ _ _ t
    · refine or_congr_right (and_congr_right fun _ => MapOk.congr fun e m => ?_)
      by_cases hsame : m offset = value
      · simp [hsame]
      · rw [if_neg hsame, or_iff_right hsame]
        split_ifs
        · exact writeRecord_success_iff
        · exact writeRecord_success_iff
  | writeLogEfuseWord offset value =>
    refine (logEfuseEntry_ready_iff (fun map t => ?_) hs).trans ?_
    · split_ifs
      · exact writeRecord_sameCmd _ _ _ t
      · exact .refl t
    · refine or_congr_right (and_congr_right fun _ => MapOk.congr fun e m => ?_)
      split_ifs with heven
      · rw [and_iff_right heven]
        exact writeRecord_success_iff
      · simp [heven]
  | pgEfuseByMap arg mallocMask => exact pgEfuseByMap_ready_iff hs

/-- Over every history of calls the command is ready after each of them exactly if each of them
finishes. -/
theorem efuse_cmd_ready_iff (hw : EfuseHw) (cfg : HwCfgInfo) (s : HalmacAdapter) (hs : Ready s)
    (calls : List ApiCall) :
    (∀ k, Ready (run (apiStep hw cfg) s (calls.take k))) ↔
      Along (apiStep hw cfg) (Finishes hw cfg) s calls :=
  forall_take_iff_along (fun s c _ h => apiStep_ready_iff hw cfg s c h) hs

theorem efuse_cmd_ready_iff_dump_write :
    Ready (run (apiStep clearingHw cfg8821c) blankAdapter
      [⟨.dumpLogEfuseMap, { noFaults with mallocAdapterMap := false }⟩,
        ⟨.readLogicalEfuse 0x200, { noFaults with bankSwitch := false }⟩]) := by
  have h := (efuse_cmd_ready_iff clearingHw cfg8821c blankAdapter ⟨rfl, by decide⟩
    [⟨.dumpLogEfuseMap, { noFaults with mallocAdapterMap := false }⟩,
      ⟨.readLogicalEfuse 0x200, { noFaults with bankSwitch := false }⟩]).mpr
    ⟨⟨Or.inl rfl, Or.inl ⟨rfl, rfl⟩⟩, Or.inl (by decide), trivial⟩
  exact h 2

/-- A read whose buffer cannot be allocated locks the command, and the next read, with nothing
failing, is turned away. -/
theorem failed_efuse_read_locks_out :
    ¬ ∀ (hw : EfuseHw) (cfg : HwCfgInfo) (s : HalmacAdapter), Ready s → ∀ calls : List ApiCall,
      (∀ k, Ready (run (apiStep hw cfg) s (calls.take k))) ∧
        ∀ c, (apiCall hw cfg (run (apiStep hw cfg) s calls) c).1 ≠ .errorState := by
  intro h
  exact (h clearingHw cfg8821c blankAdapter ⟨rfl, by decide⟩
    [⟨.readLogicalEfuse 0, { noFaults with mallocMap := false }⟩]).2
    ⟨.readLogicalEfuse 0, noFaults⟩ (by decide)

end Rtl8821cu.Efuse
