import Rtl8821cu.EfuseWrite

/-! Programming the efuse from a map and a mask (`pg_efuse_by_map_88xx`): the mask of what
differs, the space check and the record writers. The chips of the driver have no super-USB zones;
the two functions that treat the zones take the result of `super_usb_chk_88xx`. -/
namespace Rtl8821cu.Efuse

/-- `struct halmac_pg_efuse_info`; each mask byte holds the words of two blocks, the first block in
its high nibble. -/
structure PgEfuseInfo where
  efuseMap : ByteMap
  efuseMapSize : ℕ
  efuseMask : ByteMap
  efuseMaskSize : ℕ

/-- The offsets `0, k, 2k, …` below `size`, as a `for` loop visits them. -/
def offsets (size k : ℕ) : List ℕ := (List.range ((size + k - 1) / k)).map (· * k)

/-- `clr_bit` for the word at `j` of a row of sixteen bytes. -/
def clrBit : ℕ → BitVec 8
  | 0 => 0x10
  | 2 => 0x20
  | 4 => 0x40
  | 6 => 0x80
  | 8 => 0x01
  | 10 => 0x02
  | 12 => 0x04
  | 14 => 0x08
  | _ => 0

/-- The inner loop of `update_eeprom_mask_88xx` for the row at `i`. -/
def updateRow (mapPg map : ByteMap) (i : ℕ) (mask : ByteMap) : ByteMap :=
  (offsets 16 2).foldl (fun mask j =>
    if mapPg (i + j) = map (i + j) ∧ mapPg (i + j + 1) = map (i + j + 1) then
      Function.update mask (i / 16) (mask (i / 16) &&& ~~~clrBit j)
    else mask) mask

def updateMask (info : PgEfuseInfo) (map : ByteMap) : ByteMap :=
  (offsets info.efuseMapSize 16).foldl (fun mask i => updateRow info.efuseMap map i mask)
    fun i => if i < info.efuseMaskSize then info.efuseMask i else 0

/-- The offset lies in one of the super-USB zones. -/
def superUsbZone (eepromOffset : ℕ) : Bool :=
  decide (0x150 ≤ eepromOffset ∧ eepromOffset ≤ 0x199 ∨
    0x200 ≤ eepromOffset ∧ eepromOffset ≤ 0x217)

/-- The words `i` of a block with their bit set, `f` of each one after the other. -/
def eachWord {α : Type*} (preWordEn : BitVec 8) (f : ℕ → List α) : List α :=
  [0, 1, 2, 3].flatMap fun i => if preWordEn >>> i &&& 1 ≠ 0 then f i else []

/-- The nibble `check_efuse_enough_88xx` takes for the block at `i`. -/
def checkPreWordEn (updatedMask : ByteMap) (i : ℕ) : BitVec 8 :=
  if i % 8 > 0 then updatedMask (i / 16) &&& 0x0F else updatedMask (i / 16) >>> 4

/-- The bytes `check_efuse_enough_88xx` counts for a block. -/
def checkBlock (superUsb : Bool) (i : ℕ) (preWordEn : BitVec 8) : ℕ :=
  if preWordEn ≠ 0 then
    if superUsb && superUsbZone i then (eachWord preWordEn fun _ => [4]).sum
    else (if 0x7f < i then 2 else 1) + (eachWord preWordEn fun _ => [2]).sum
  else 0

def pgNum (superUsb : Bool) (info : PgEfuseInfo) (updatedMask : ByteMap) : ℕ :=
  ((offsets info.efuseMapSize 8).map fun i => checkBlock superUsb i (checkPreWordEn updatedMask i)).sum

def checkEfuseEnough (cfg : HwCfgInfo) (superUsb : Bool) (info : PgEfuseInfo)
    (updatedMask : ByteMap) (s : HalmacAdapter) : HalmacRet :=
  if cfg.efuseSize ≤ pgNum superUsb info updatedMask + cfg.prtctEfuseSize + s.efuseEnd then
    .efuseNotEnough
  else .success

/-- The two bytes of word `i` of the block at `eepromOffset`. -/
def wordBytes (info : PgEfuseInfo) (eepromOffset i : ℕ) : List (BitVec 8) :=
  [info.efuseMap (eepromOffset + i * 2), info.efuseMap (eepromOffset + i * 2 + 1)]

section Program
variable (hw : EfuseHw) (flt : Faults) (info : PgEfuseInfo)

/-- The writes of a record from `efuse_end` on, and `efuse_end` behind it. -/
def pgBytes (n : ℕ) (bytes : List (BitVec 8)) (s : HalmacAdapter) : HalmacRet × HalmacAdapter :=
  andThen (writeHwBytes hw flt n s.efuseEnd bytes s) fun t =>
    (.success, { t with efuseEnd := s.efuseEnd + bytes.length })

def extendBytes (wordEn preWordEn : BitVec 8) (eepromOffset : ℕ) : List (BitVec 8) :=
  let blk := BitVec.ofNat 8 (eepromOffset / 8)
  [extendedHdr blk, (blk &&& 0x78) <<< 1 + wordEn] ++
    eachWord preWordEn (wordBytes info eepromOffset)

def pgExtendEfuse (n : ℕ) (wordEn preWordEn : BitVec 8) (eepromOffset : ℕ) (s : HalmacAdapter) :
    HalmacRet × HalmacAdapter :=
  pgBytes hw flt n (extendBytes info wordEn preWordEn eepromOffset) s

def procBytes (wordEn preWordEn : BitVec 8) (eepromOffset : ℕ) : List (BitVec 8) :=
  let blk := BitVec.ofNat 8 (eepromOffset / 8)
  [blk <<< 4 + wordEn] ++ eachWord preWordEn (wordBytes info eepromOffset)

def procPgEfuse (n : ℕ) (wordEn preWordEn : BitVec 8) (eepromOffset : ℕ) (s : HalmacAdapter) :
    HalmacRet × HalmacAdapter :=
  pgBytes hw flt n (procBytes info wordEn preWordEn eepromOffset) s

/-- One extended record for each word. -/
def superUsbBytes (preWordEn : BitVec 8) (eepromOffset : ℕ) : List (BitVec 8) :=
  let blk := BitVec.ofNat 8 (eepromOffset / 8)
  eachWord preWordEn fun i =>
    [extendedHdr blk, (blk &&& 0x78) <<< 1 + (preWordEn &&& 1#8 <<< i ^^^ 0x0F)] ++
      wordBytes info eepromOffset i

def pgSuperUsbEfuse (n : ℕ) (preWordEn : BitVec 8) (eepromOffset : ℕ) (s : HalmacAdapter) :
    HalmacRet × HalmacAdapter :=
  pgBytes hw flt n (superUsbBytes info preWordEn eepromOffset) s

/-- The nibble `program_efuse_88xx` takes for the block at `i`. -/
def programPreWordEn (updatedMask : ByteMap) (i : ℕ) : BitVec 8 :=
  if i / 8 % 2 > 0 then updatedMask (i / 16) &&& 0x0F else updatedMask (i / 16) >>> 4

/-- The loop of `program_efuse_88xx`; `n` counts the writes of the call. -/
def programBlocks (superUsb : Bool) (updatedMask : ByteMap) (n : ℕ) :
    List ℕ → HalmacAdapter → HalmacRet × HalmacAdapter
  | [], s => (.success, s)
  | i :: is, s =>
      let preWordEn := programPreWordEn updatedMask i
      let wordEn := preWordEn ^^^ 0x0F
      if preWordEn ≠ 0 then
        if superUsb && superUsbZone i then
          andThen (pgSuperUsbEfuse hw flt info n preWordEn i s)
            (programBlocks superUsb updatedMask (n + (superUsbBytes info preWordEn i).length) is)
        else if 0x7f < i then
          andThen (pgExtendEfuse hw flt info n wordEn preWordEn i s)
            (programBlocks superUsb updatedMask
              (n + (extendBytes info wordEn preWordEn i).length) is)
        else
          andThen (procPgEfuse hw flt info n wordEn preWordEn i s)
            (programBlocks superUsb updatedMask
              (n + (procBytes info wordEn preWordEn i).length) is)
      else programBlocks superUsb updatedMask n is s

def programEfuse (superUsb : Bool) (updatedMask : ByteMap) (s : HalmacAdapter) :
    HalmacRet × HalmacAdapter :=
  programBlocks hw flt info superUsb updatedMask 0 (offsets info.efuseMapSize 8) s

/-- `proc_pg_efuse_by_map_88xx` for a chip without super-USB zones; `mallocMask` is the allocation
of `updated_mask`. -/
def procPgEfuseByMap (cfg : HwCfgInfo) (mallocMask : Bool) (s : HalmacAdapter) :
    HalmacRet × HalmacAdapter :=
  if !mallocMask then (.mallocFail, s)
  else
    withLogMap cfg flt (fun map s =>
      let updatedMask := updateMask info map
      let status := checkEfuseEnough cfg false info updatedMask s
      if status ≠ .success then (status, s)
      else programEfuse hw flt info false updatedMask s) s

end Program

/-- `info` with the pointers as they come. -/
structure PgEfuseArg where
  efuseMap : Option ByteMap
  efuseMapSize : ℕ
  efuseMask : Option ByteMap
  efuseMaskSize : ℕ

def pgEfuseByMap (hw : EfuseHw) (cfg : HwCfgInfo) (flt : Faults) (mallocMask : Bool)
    (arg : PgEfuseArg) (s : HalmacAdapter) : HalmacRet × HalmacAdapter :=
  if arg.efuseMapSize ≠ cfg.eepromSize then (.efuseSizeIncorrect, s)
  else if arg.efuseMapSize % 16 > 0 then (.efuseSizeIncorrect, s)
  else if arg.efuseMaskSize ≠ arg.efuseMapSize / 16 then (.efuseSizeIncorrect, s)
  else
    match arg.efuseMap, arg.efuseMask with
    | none, _ => (.nullPointer, s)
    | some _, none => (.nullPointer, s)
    | some map, some mask =>
        efuseEntry flt (procPgEfuseByMap hw flt
          ⟨map, arg.efuseMapSize, mask, arg.efuseMaskSize⟩ cfg mallocMask) s

end Rtl8821cu.Efuse
