import Rtl8821cu.EfusePgMap

/-! The Bluetooth efuse of the chip (`core/efuse/rtw_efuse.c`): one bank of 128 bytes with a record
log, its reader, the finder of its end and the writer of a stretch of the logical map. -/
namespace Rtl8821cu.BtEfuse
open Efuse

/-- `EFUSE_BT_REAL_BANK_CONTENT_LEN`; there is one bank. -/
def bankContentLen : ℕ := 128

def protectBytesBank : ℕ := 16

/-- `EFUSE_BT_MAP_LEN`. -/
def mapLen : ℕ := 1024

def availableEfuseAddr (addr : ℕ) : Bool := addr < bankContentLen - protectBytesBank

/-- `Efuse_CalculateWordCnts`; a cleared bit enables its word. -/
def calculateWordCnts (wordEn : BitVec 8) : ℕ :=
  ([0, 1, 2, 3].filter fun i => !wordEn.getLsbD i).length

/-- How a read access goes: it reads, it fails, or its buffer cannot be allocated, which is
reported as success with nothing read. -/
inductive BtRead
  | ok
  | fail
  | noBuffer
  deriving DecidableEq

/-- The environment of a call: the allocations of the writer and of the reader, the outcome of the
n-th read access, and what an uninitialised byte holds. -/
structure BtEnv where
  mallocMap : Bool
  mallocTbl : Bool
  read : ℕ → BtRead
  uninit : BitVec 8

/-- The bank, `fakeBTEfuseUsedBytes`, the number of read accesses of the call so far, and the
addresses written since the start, latest first. -/
structure BtState where
  phy : ByteMap
  used : ℕ
  tick : ℕ
  written : List ℕ

/-- The masks of the registry: `boffefusemask`, `bBTFileMaskEfuse` and the loaded mask file. -/
structure BtMask where
  offEfuseMask : Bool
  fileMask : Bool
  maskbuf : ByteMap

/-- `rtw_file_efuse_IsMasked`. -/
def BtMask.fileIsMasked (mask : BtMask) (offset : ℕ) : Bool :=
  let c := offset % 16 / 2
  if mask.offEfuseMask then false
  else if c < 4 then decide (mask.maskbuf (offset / 16) &&& 0x10#8 <<< c = 0)
  else decide (mask.maskbuf (offset / 16) &&& 0x01#8 <<< (c - 4) = 0)

/-- The chip has no built-in mask of its Bluetooth map, so only a loaded mask file masks. -/
def BtMask.masked (mask : BtMask) (offset : ℕ) : Bool :=
  !mask.offEfuseMask && mask.fileMask && mask.fileIsMasked offset

section Access
variable (hw : EfuseHw) (env : BtEnv)

/-- `rtw_efuse_bt_access` for the read of a byte into `data`. -/
def btRead (addr : ℕ) (data : BitVec 8) (s : BtState) : Bool × BitVec 8 × BtState :=
  if bankContentLen < addr + 1 then (false, data, s)
  else
    let t := { s with tick := s.tick + 1 }
    match env.read s.tick with
    | .ok => (true, s.phy addr, t)
    | .fail => (false, data, t)
    | .noBuffer => (true, data, t)

/-- `rtw_efuse_bt_access` for the write of a byte; no caller looks at what it returns. -/
def btWrite (addr : ℕ) (value : BitVec 8) (s : BtState) : BtState :=
  if bankContentLen < addr + 1 then s
  else { s with
    phy := Function.update s.phy addr (hw.burn (s.phy addr) value), written := addr :: s.written }

/-- The header walk of `hal_EfuseGetCurrentSize_BT` over one bank. -/
def sizeLoop (addr : ℕ) (data : BitVec 8) (s : BtState) : ℕ × BitVec 8 × BtState :=
  if _h : availableEfuseAddr addr then
    match btRead env addr data s with
    | (false, data, s) => (addr, data, s)
    | (true, data, s) =>
        if data = 0xFF then (addr, data, s)
        else if data &&& 0x1F = 0x0F then
          match btRead env (addr + 1) data s with
          | (_, data, s) =>
              if data &&& 0x0F = 0x0F then sizeLoop (addr + 2) data s
              else sizeLoop (addr + 2 + calculateWordCnts (data &&& 0x0F) * 2) data s
        else sizeLoop (addr + 1 + calculateWordCnts (data &&& 0x0F) * 2) data s
  else (addr, data, s)
termination_by bankContentLen - addr
decreasing_by all_goals (simp only [availableEfuseAddr, decide_eq_true_eq] at _h; omega)

/-- The loop over the banks; `n` counts those left. -/
def sizeBanks : ℕ → ℕ → ℕ → BitVec 8 → BtState → ℕ × BtState
  | 0, bank, addr, _, s => ((bank - 1) * bankContentLen + addr, s)
  | n + 1, bank, addr, data, s =>
      match sizeLoop env addr data s with
      | (addr, data, s) =>
          if addr < bankContentLen - protectBytesBank then ((bank - 1) * bankContentLen + addr, s)
          else sizeBanks n (bank + 1) (if n = 0 then addr else 0) data s

def efuseGetCurrentSizeBt (s : BtState) : ℕ × BtState :=
  let startBank := 1 + s.used / bankContentLen
  match sizeBanks env (3 - startBank) startBank (s.used % bankContentLen) env.uninit s with
  | (size, s) => (size, { s with used := size })

end Access

section Reader
variable (phyefuse : ByteMap)

/-- The words of a record, from `addr` on, into section `offset` of the table. -/
def readWords (offset : ℕ) (wden : BitVec 8) (addr : ℕ) (tbl : ByteMap) : ℕ × ByteMap :=
  [0, 1, 2, 3].foldl (fun st i =>
    if wden &&& 0x01 <<< i = 0 then
      (st.1 + 2, Function.update (Function.update st.2 (offset * 8 + i * 2) (phyefuse st.1))
        (offset * 8 + i * 2 + 1) (phyefuse (st.1 + 1)))
    else st) (addr, tbl)

/-- What the reader does with the record whose header bytes end before `addr`. -/
def readRecord (offset wden : BitVec 8) (addr : ℕ) (tbl : ByteMap) : ℕ × ByteMap :=
  if offset.toNat < mapLen / 8 then readWords phyefuse offset.toNat wden addr tbl
  else (addr + calculateWordCnts wden * 2, tbl)

theorem readRecord_le (offset wden : BitVec 8) (addr : ℕ) (tbl : ByteMap) :
    addr ≤ (readRecord phyefuse offset wden addr tbl).1 := by
  unfold readRecord
  split_ifs
  · unfold readWords
    simp only [List.foldl_cons, List.foldl_nil]
    split_ifs <;> dsimp only <;> omega
  · dsimp only
    omega

/-- The loop of `hal_ReadEFuse_BT_logic_map` over the bank. -/
def readLoop (addr : ℕ) (tbl : ByteMap) : ℕ × ByteMap :=
  if h : availableEfuseAddr addr then
    let efuseHeader := phyefuse addr
    if efuseHeader = 0xFF then (addr + 1, tbl)
    else if efuseHeader &&& 0x1F = 0x0F then
      let efuseExtHdr := phyefuse (addr + 1)
      if efuseExtHdr &&& 0x0F = 0x0F then readLoop (addr + 2) tbl
      else
        let r := readRecord phyefuse
          ((efuseHeader &&& 0xE0) >>> 5 ||| (efuseExtHdr &&& 0xF0) >>> 1) (efuseExtHdr &&& 0x0F)
          (addr + 2) tbl
        readLoop r.1 r.2
    else
      let r := readRecord phyefuse (efuseHeader >>> 4 &&& 0x0F) (efuseHeader &&& 0x0F) (addr + 1)
        tbl
      readLoop r.1 r.2
  else (addr, tbl)
termination_by bankContentLen - addr
decreasing_by
  all_goals simp only [availableEfuseAddr, decide_eq_true_eq] at h
  · omega
  · have hle := readRecord_le phyefuse ((phyefuse addr &&& 0xE0) >>> 5 |||
      (phyefuse (addr + 1) &&& 0xF0) >>> 1) (phyefuse (addr + 1) &&& 0x0F) (addr + 2) tbl
    omega
  · have hle := readRecord_le phyefuse (phyefuse addr >>> 4 &&& 0x0F) (phyefuse addr &&& 0x0F)
      (addr + 1) tbl
    omega

end Reader

/-- `hal_ReadEFuse_BT_logic_map` over the whole map, into `pbuf`. -/
def readEFuseBtLogicMap (env : BtEnv) (pbuf : ByteMap) (s : BtState) : ByteMap × BtState :=
  if !env.mallocTbl then (pbuf, s)
  else
    let phyefuse : ByteMap :=
      if env.read s.tick = .ok then fun a => if a < bankContentLen then s.phy a else 0xFF
      else fun _ => 0xFF
    let r := readLoop phyefuse 0 fun _ => 0xFF
    (r.2, { s with tick := s.tick + 1, used := r.1 - 1 })

/-- `rtw_BT_efuse_map_read` over the whole map; it always reports success. -/
def btEfuseMapRead (env : BtEnv) (mask : BtMask) (pbuf : ByteMap) (s : BtState) :
    ByteMap × BtState :=
  let r := readEFuseBtLogicMap env pbuf s
  (fun o => if mask.masked o then 0xFF else r.1 o, r.2)

section Packet
variable (hw : EfuseHw) (env : BtEnv)

/-- `PGPKT_STRUCT`. -/
structure PgPkt where
  offset : BitVec 8
  wordEn : BitVec 8
  data : ByteMap

def wordEnableDataRead (wordEn : BitVec 8) (sourdata targetdata : ByteMap) : ByteMap :=
  fun i => if i < 8 ∧ !wordEn.getLsbD (i / 2) then sourdata i else targetdata i

/-- `hal_EfuseConstructPGPkt`. -/
def constructPGPkt (offset wordEn : BitVec 8) (pData : ByteMap) : PgPkt where
  offset := offset
  wordEn := wordEn
  data := wordEnableDataRead wordEn pData fun _ => 0xFF

/-- `hal_EfusePartialWriteCheck`: the address to write at. -/
def partialWriteCheck (s : BtState) : Option ℕ × BtState :=
  let startAddr := s.used % bankContentLen
  match btRead env startAddr 0 s with
  | (ret, data, s) => if ret && data ≠ 0xFF then (none, s) else (some startAddr, s)

/-- The loop that writes a header byte until it no longer reads as blank; `n` is how often it may
still be repeated, `tmp` what was read last. -/
def writeHeaderByte (addr : ℕ) (pgHeader : BitVec 8) :
    ℕ → BitVec 8 → BtState → Option (ℕ × BitVec 8) × BtState
  | n, tmp, s =>
      match btRead env addr tmp (btWrite hw addr pgHeader s) with
      | (_, tmp, s) =>
          if tmp ≠ 0xFF then (some (n, tmp), s)
          else
            match n with
            | 0 => (none, s)
            | n + 1 => writeHeaderByte addr pgHeader n tmp s

/-- `hal_EfusePgPacketWrite1ByteHeader`; `EFUSE_REPEAT_THRESHOLD_` is 3. -/
def pgPacketWrite1ByteHeader (pkt : PgPkt) (addr : ℕ) (s : BtState) : Option ℕ × BtState :=
  let pgHeader := pkt.offset <<< 4 &&& 0xf0 ||| pkt.wordEn
  match writeHeaderByte hw env addr pgHeader 4 0 s with
  | (none, s) => (none, s)
  | (some (_, tmp), s) => if tmp ≠ pgHeader then (none, s) else (some addr, s)

/-- `hal_EfusePgPacketWrite2ByteHeader`. -/
def pgPacketWrite2ByteHeader (pkt : PgPkt) (addr : ℕ) (s : BtState) : Option ℕ × BtState :=
  if bankContentLen ≤ addr then (none, s)
  else
    let pgHeader := (pkt.offset &&& 0x07) <<< 5 ||| 0x0F
    match writeHeaderByte hw env addr pgHeader 4 0 s with
    | (none, s) => (none, s)
    | (some (n, tmp), s) =>
        if tmp ≠ pgHeader then (none, s)
        else
          let pgHeader := (pkt.offset &&& 0x78) <<< 1 ||| pkt.wordEn
          match writeHeaderByte hw env (addr + 1) pgHeader n tmp s with
          | (none, s) => (none, s)
          | (some (_, tmp), s) => if tmp ≠ pgHeader then (none, s) else (some (addr + 1), s)

/-- `hal_EfusePgPacketWriteHeader`: the address of the last header byte. -/
def pgPacketWriteHeader (pkt : PgPkt) (addr : ℕ) (s : BtState) : Option ℕ × BtState :=
  if 16 ≤ pkt.offset.toNat then pgPacketWrite2ByteHeader hw env pkt addr s
  else pgPacketWrite1ByteHeader hw env pkt addr s

/-- One word of `Hal_EfuseWordEnableDataWrite`: the two writes, and whether they read back. -/
def writeWord (data : ByteMap) (i addr : ℕ) (s : BtState) : Bool × BtState :=
  let s := btWrite hw (addr + 1) (data (i * 2 + 1)) (btWrite hw addr (data (i * 2)) s)
  match btRead env addr 0xFF s with
  | (_, tmp0, s) =>
      match btRead env (addr + 1) 0xFF s with
      | (_, tmp1, s) => (data (i * 2) = tmp0 && data (i * 2 + 1) = tmp1, s)

/-- `Hal_EfuseWordEnableDataWrite` with the words `is`; the result says that no word is bad. -/
def wordEnableDataWrite (wordEn : BitVec 8) (data : ByteMap) :
    List ℕ → ℕ → BtState → Bool × BtState
  | [], _, s => (true, s)
  | i :: is, addr, s =>
      if !wordEn.getLsbD i then
        match writeWord hw env data i addr s with
        | (good, s) =>
            match wordEnableDataWrite wordEn data is (addr + 2) s with
            | (rest, s) => (good && rest, s)
      else wordEnableDataWrite wordEn data is addr s

/-- `EfusePgPacketWrite_BT`. -/
def pgPacketWriteBt (offset wordEn : BitVec 8) (pData : ByteMap) (s : BtState) : Bool × BtState :=
  match efuseGetCurrentSizeBt env s with
  | (size, s) =>
      if bankContentLen - protectBytesBank ≤ size then (false, s)
      else
        let pkt := constructPGPkt offset wordEn pData
        match partialWriteCheck env s with
        | (none, s) => (false, s)
        | (some addr, s) =>
            match pgPacketWriteHeader hw env pkt addr s with
            | (none, s) => (false, s)
            | (some addr, s) => wordEnableDataWrite hw env pkt.wordEn pkt.data [0, 1, 2, 3] (addr + 1) s

end Packet

section Write
variable (efuse map : ByteMap) (addr cnts : ℕ)

/-- The inner loop over the bytes `i` to 7 of a section; `n` is `8 - i`. It returns the word
enables, the section's new data and `idx`. -/
def scanSection : ℕ → ℕ → ℕ → BitVec 8 → ByteMap → BitVec 8 × ByteMap × ℕ
  | 0, _, idx, wordEn, newdata => (wordEn, newdata, idx)
  | n + 1, i, idx, wordEn, newdata =>
      if idx < cnts then
        if efuse (addr + idx) ≠ map (addr + idx) then
          scanSection n (i + 1) (idx + 1) (wordEn &&& ~~~(1#8 <<< (i / 2)))
            (Function.update newdata i (efuse (addr + idx)))
        else scanSection n (i + 1) (idx + 1) wordEn newdata
      else (wordEn, newdata, idx)

/-- The turn of the outer loops for section `offset`, from the byte `addr + idx` on. -/
def scanFrom (offset idx : ℕ) : BitVec 8 × ByteMap × ℕ :=
  scanSection efuse map addr cnts (8 - (addr + idx) % 8) ((addr + idx) % 8) idx 0xF fun i =>
    map (offset * 8 + i)

theorem scanSection_idx (n i idx : ℕ) (wordEn : BitVec 8) (newdata : ByteMap) :
    (scanSection efuse map addr cnts n i idx wordEn newdata).2.2 = idx + min n (cnts - idx) := by
  induction n generalizing i idx wordEn newdata with
  | zero => simp [scanSection]
  | succ n ih =>
    unfold scanSection
    split_ifs
    · rw [ih]
      omega
    · rw [ih]
      omega
    · dsimp only
      omega

theorem scanFrom_idx (offset idx : ℕ) :
    (scanFrom efuse map addr cnts offset idx).2.2 =
      idx + min (8 - (addr + idx) % 8) (cnts - idx) :=
  scanSection_idx efuse map addr cnts _ _ _ _ _

/-- The bytes a record for `wordEn` of section `offset` takes. -/
def recordCnt (offset : ℕ) (wordEn : BitVec 8) : ℕ :=
  calculateWordCnts wordEn * 2 + if 16 ≤ offset then 2 else 1

/-- `chk_total_byte` of the sections from `offset` on. -/
def chkTotalByte (offset idx : ℕ) : ℕ :=
  if _h : idx < cnts then
    let r := scanFrom efuse map addr cnts offset idx
    (if r.1 ≠ 0xF then recordCnt offset r.1 else 0) + chkTotalByte (offset + 1) r.2.2
  else 0
termination_by cnts - idx
decreasing_by
  rw [scanFrom_idx]
  omega

/-- The loop that writes the changed sections. -/
def writeSections (hw : EfuseHw) (env : BtEnv) (offset idx : ℕ) (s : BtState) : Bool × BtState :=
  if _h : idx < cnts then
    let r := scanFrom efuse map addr cnts offset idx
    if r.1 ≠ 0xF then
      match pgPacketWriteBt hw env (BitVec.ofNat 8 offset) r.1 r.2.1 s with
      | (false, s) => (false, s)
      | (true, s) => writeSections hw env (offset + 1) r.2.2 s
    else writeSections hw env (offset + 1) r.2.2 s
  else (true, s)
termination_by cnts - idx
decreasing_by
  all_goals
    rw [scanFrom_idx]
    omega

end Write

/-- A call of `rtw_BT_efuse_map_write` with the masks and the environment it meets. -/
structure BtCall where
  addr : ℕ
  cnts : ℕ
  data : ByteMap
  mask : BtMask
  env : BtEnv

/-- The map as the call wants it, over the map as it was read. -/
def BtCall.wanted (c : BtCall) (map : ByteMap) : ByteMap := fun o =>
  if c.addr ≤ o ∧ o < c.addr + c.cnts ∧ !c.mask.masked o then c.data (o - c.addr) else map o

/-- The map as the call reads it, and the state behind the read. -/
def BtCall.readMap (c : BtCall) (s : BtState) : ByteMap × BtState :=
  btEfuseMapRead c.env c.mask (fun _ => 0xFF) { s with tick := 0 }

/-- The bytes the call needs, and the address it will start to write at. -/
def BtCall.precheck (c : BtCall) (s : BtState) : ℕ × ℕ × BtState :=
  let r := c.readMap s
  let total := chkTotalByte (c.wanted r.1) r.1 c.addr c.cnts (c.addr / 8) 0
  match efuseGetCurrentSizeBt c.env r.2 with
  | (startAddr, s) => (total, startAddr, s)

def btEfuseMapWrite (hw : EfuseHw) (c : BtCall) (s : BtState) : Bool × BtState :=
  if mapLen < c.addr + c.cnts then (false, s)
  else if !c.env.mallocMap then (false, s)
  else
    let map := (c.readMap s).1
    match c.precheck s with
    | (total, startAddr, s) =>
        if !availableEfuseAddr (startAddr + total) then (false, s)
        else writeSections (c.wanted map) map c.addr c.cnts hw c.env (c.addr / 8) 0 s

end Rtl8821cu.BtEfuse
