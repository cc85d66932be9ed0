import Rtl8821cu.LibLeWord
import Rtl8821cu.LibRun

/-! The commands that are offloaded to the firmware
(`hal/halmac/halmac_88xx/halmac_common_88xx.c`): packets, batches of parameters and the list of
channels to scan, with the firmware's acknowledgements. -/
namespace Rtl8821cu.Halmac
open LeWord Store

def cfgParamH2cInfoSize : ℕ := 12

def cfgParamRsvdpgSize : BitVec 32 := 2048

def updatePktRsvdpgSize : ℕ := 2048

def scanInfoRsvdpgSize : ℕ := 256

def txdescSize : BitVec 32 := 48

/-- The features whose commands are modelled. -/
inductive Feature
  | cfgParam
  | updatePkt
  | scanPkt
  | dropPkt
  | scan
  deriving DecidableEq

/-- `enum halmac_cmd_process_status`. -/
inductive ProcStatus
  | idle
  | sending
  | rcvd
  | done
  | error
  deriving DecidableEq

/-- `enum halmac_cmd_construct_state`. -/
inductive CnstrState
  | idle
  | busy
  | h2cSent
  | cnstr
  | bufClr
  | undefined
  deriving DecidableEq

/-- The values of `enum halmac_ret_status` that the commands return. -/
inductive Ret
  | success
  | noDlfw
  | fwNoSupport
  | rsvdPgOverflowFail
  | busyState
  | errorState
  | zeroLenRsvdPacket
  | dlRsvdPageFail
  | sendH2cFail
  | mallocFail
  | nullPointer
  | paraSending
  | genInfoNotSent
  | chSwSeqWrong
  | chSwNoBuf
  | c2hNotHandled
  deriving DecidableEq

/-- A call that did what it was called for. -/
def Ret.accepted (r : Ret) : Bool := r == .success || r == .paraSending

inductive DlfwState
  | none
  | dlfwDone
  | genInfoSent
  deriving DecidableEq

/-- What the commands use of the adapter's set-up, with the sizes given to `ofld_func_cfg_88xx`. -/
structure Cfg where
  dlfwState : DlfwState
  h2cVersion : ℕ
  mallocSize : BitVec 32
  rsvdPgSize : BitVec 32
  rsvdPgNum : ℕ
  rsvdH2cInfoAddr : BitVec 16
  rsvdBoundary : BitVec 16

def Cfg.fwValidate (cfg : Cfg) : Bool :=
  cfg.dlfwState == .dlfwDone || cfg.dlfwState == .genInfoSent

/-- What the platform answers in a call: the page download, the H2C transmission, an allocation,
the tries of `smart_malloc_88xx`, and what fresh memory holds. -/
structure Env where
  dl : Bool
  h2c : Bool
  malloc : Bool
  mallocs : ℕ → Bool
  mem : ℕ → BitVec 8

/-- `enum halmac_parameter_cmd`; `other` is any value that is not listed. -/
inductive ParamCmd
  | macW8
  | macW16
  | macW32
  | rfW
  | bbW8
  | bbW16
  | bbW32
  | delayUs
  | delayMs
  | finish
  | other (id : BitVec 32) (unlisted : id ∉ [0x4#32, 0x5, 0x6, 0x7, 0x8, 0x9, 0xA, 0x10, 0x11, 0xFF])
  deriving DecidableEq

def ParamCmd.id : ParamCmd → BitVec 32
  | .macW8 => 0x4
  | .macW16 => 0x5
  | .macW32 => 0x6
  | .rfW => 0x7
  | .bbW8 => 0x8
  | .bbW16 => 0x9
  | .bbW32 => 0xA
  | .delayUs => 0x10
  | .delayMs => 0x11
  | .finish => 0xFF
  | .other id _ => id

/-- `struct halmac_phy_parameter_info`, with the fields of the union: `offset` is that of a register
write, of which an RF register has the low byte, or the time of a delay. -/
structure Param where
  cmd : ParamCmd
  value : BitVec 32
  msk : BitVec 32
  offset : BitVec 16
  mskEn : BitVec 8
  rfPath : BitVec 8

/-- `struct halmac_cfg_param_info`; the pointer into the buffer is its offset. -/
structure CfgParamInfo where
  buf : Option (ℕ → BitVec 8)
  bufSize : BitVec 32
  bufWptr : ℕ
  num : ℕ
  avlBufSize : BitVec 32
  offsetAccum : BitVec 32
  valueAccum : BitVec 32
  fullFifoMode : Bool

/-- `struct halmac_ch_sw_info`; the pointer into the buffer is its offset. -/
structure ChSwInfo where
  buf : Option (ℕ → BitVec 8)
  bufWptr : ℕ
  scanMode : Bool
  extraInfoEn : BitVec 8
  bufSize : ℕ
  avlBufSize : ℕ
  totalSize : ℕ
  chNum : ℕ

structure ChInfo where
  actionId : BitVec 32
  bw : BitVec 32
  priChIdx : BitVec 32
  channel : BitVec 8
  timeout : BitVec 8
  extraInfo : BitVec 8

/-- `struct halmac_ch_extra_info`, with its `extra_info_size` bytes of data. -/
structure ChExtraInfo where
  extraInfo : BitVec 8
  extraActionId : BitVec 32
  extraInfoSize : BitVec 8
  extraInfoData : ℕ → BitVec 8

structure ChSwitchOption where
  periodicOption : BitVec 8
  destPriChIdx : BitVec 8
  tsfLow : BitVec 32
  switchEn : BitVec 8
  destChEn : BitVec 8
  absoluteTimeEn : BitVec 8
  destCh : BitVec 8
  scanModeEn : BitVec 8
  normalPeriod : BitVec 8
  normalPeriodSel : BitVec 8
  normalCycle : BitVec 8
  phase2Period : BitVec 8
  phase2PeriodSel : BitVec 8
  nloEn : BitVec 8

structure DropPktOption where
  dropAll : Bool
  dropSingle : Bool
  dropIndex : BitVec 8

/-- The contents of an H2C command. -/
inductive H2cCmd
  | cfgParam (num : BitVec 16) (initCase : Bool) (loc : BitVec 8)
  | updatePkt (size : BitVec 16) (id loc : BitVec 8)
  | sendScanPkt (size : BitVec 16) (index loc : BitVec 8)
  | dropScanPkt (option : DropPktOption)
  | chSwitch (opt : ChSwitchOption) (chNum loc : BitVec 8) (infoSize : BitVec 16)

/-- What went to or came from the firmware: a page, a command with its sequence number, whether it
asks for an acknowledgement and whether it is an NLO command, or an acknowledgement. -/
inductive Log
  | page (f : Feature) (addr : BitVec 16) (data : List (BitVec 8))
  | h2c (f : Feature) (seq : BitVec 8) (ack nlo : Bool) (cmd : H2cCmd)
  | acked (f : Feature) (seq : BitVec 8)

/-- What the commands use of `struct halmac_adapter`, the log of the firmware's side with the last
entry first, and whether a write has left the buffer of the parameters. -/
structure Adapter where
  proc : Feature → ProcStatus
  seqNum : Feature → BitVec 8
  cfgCnstr : CnstrState
  scanCnstr : CnstrState
  usedPage : BitVec 8
  nloFlag : Bool
  h2cSeq : BitVec 8
  param : CfgParamInfo
  chSw : ChSwInfo
  scanRptBuf : Bool
  log : List Log
  overrun : Bool

namespace Adapter

def setProc (s : Adapter) (f : Feature) (p : ProcStatus) : Adapter :=
  { s with proc := Function.update s.proc f p }

@[simp] theorem setProc_proc_self (s : Adapter) (f : Feature) (p : ProcStatus) :
    (s.setProc f p).proc f = p := by
  simp [setProc]

theorem setProc_proc_ne (s : Adapter) {f g : Feature} (h : g ≠ f) (p : ProcStatus) :
    (s.setProc f p).proc g = s.proc g := by
  simp [setProc, h]

def resetOfldFeature (s : Adapter) (f : Feature) : Adapter :=
  { s.setProc f .idle with
    cfgCnstr := if f = .cfgParam then .idle else s.cfgCnstr
    scanCnstr := if f = .scan then .idle else s.scanCnstr }

def dlRsvdPage (s : Adapter) (env : Env) (f : Feature) (addr : BitVec 16)
    (data : List (BitVec 8)) : Adapter × Ret :=
  if data.length == 0 then (s, .zeroLenRsvdPacket)
  else if !env.dl then (s, .dlRsvdPageFail)
  else ({ s with log := .page f addr data :: s.log }, .success)

/-- `set_h2c_pkt_hdr_88xx` and `send_h2c_pkt_88xx`, with the reset after a failed transmission. -/
def sendH2c (s : Adapter) (env : Env) (f : Feature) (ack nlo : Bool) (cmd : H2cCmd) :
    Adapter × Ret :=
  let seq := s.h2cSeq
  let s := { s with h2cSeq := seq + 1, seqNum := Function.update s.seqNum f seq }
  if !env.h2c then (s.resetOfldFeature f, .sendH2cFail)
  else ({ s with log := .h2c f seq ack nlo cmd :: s.log }, .success)

end Adapter

/-- The low byte of a page offset. -/
def pgLoc (cfg : Cfg) (pgAddr : BitVec 16) : BitVec 8 := (pgAddr - cfg.rsvdBoundary).setWidth 8

section Packets

variable (cfg : Cfg) (env : Env) (s : Adapter)

def packetInNlo (pktId : BitVec 32) : Bool := decide ((0xF0 : BitVec 32) ≤ pktId)

def getRealPktId (pktId : BitVec 32) : BitVec 32 :=
  if pktId == 0xF0 then 0
  else if pktId == 0xF1 then 1
  else if pktId == 0xF2 then 2
  else pktId

def getUpdatePacketPageSize (size : ℕ) : ℕ :=
  let total := size + txdescSize.toNat
  if 0 < total % 128 then total / 128 + 1 else total / 128

def updatePacket (pktId : BitVec 32) (pkt : List (BitVec 8)) : Adapter × Ret :=
  if !cfg.fwValidate then (s, .noDlfw)
  else if cfg.h2cVersion < 4 then (s, .fwNoSupport)
  else if updatePktRsvdpgSize < pkt.length then (s, .rsvdPgOverflowFail)
  else if s.proc .updatePkt == .sending then (s, .busyState)
  else
    let s := s.setProc .updatePkt .sending
    match s.dlRsvdPage env .updatePkt cfg.rsvdH2cInfoAddr pkt with
    | (s, .success) =>
      let cmd := .updatePkt (BitVec.ofNat 16 (pkt.length + txdescSize.toNat))
        ((getRealPktId pktId).setWidth 8) (pgLoc cfg cfg.rsvdH2cInfoAddr)
      match s.sendH2c env .updatePkt (!packetInNlo pktId) (packetInNlo pktId) cmd with
      | (s, .success) =>
        let s := { s with usedPage := BitVec.ofNat 8 (getUpdatePacketPageSize pkt.length) }
        if packetInNlo pktId then ({ s.setProc .updatePkt .done with nloFlag := true }, .success)
        else (s, .success)
      | (s, status) => (s, status)
    | (s, status) => (s, status)

def sendScanPacket (index : BitVec 8) (pkt : List (BitVec 8)) : Adapter × Ret :=
  if !cfg.fwValidate then (s, .noDlfw)
  else if cfg.h2cVersion < 13 then (s, .fwNoSupport)
  else if updatePktRsvdpgSize < pkt.length then (s, .rsvdPgOverflowFail)
  else if s.proc .scanPkt == .sending then (s, .busyState)
  else
    let s := s.setProc .scanPkt .sending
    match s.dlRsvdPage env .scanPkt cfg.rsvdH2cInfoAddr pkt with
    | (s, .success) =>
      s.sendH2c env .scanPkt true false
        (.sendScanPkt (BitVec.ofNat 16 (pkt.length + txdescSize.toNat)) index
          (pgLoc cfg cfg.rsvdH2cInfoAddr))
    | (s, status) => (s, status)

def dropScanPacket (option : DropPktOption) : Adapter × Ret :=
  if !cfg.fwValidate then (s, .noDlfw)
  else if cfg.h2cVersion < 13 then (s, .fwNoSupport)
  else if s.proc .dropPkt == .sending then (s, .busyState)
  else (s.setProc .dropPkt .sending).sendH2c env .dropPkt true false (.dropScanPkt option)

end Packets

section Parameters

variable (cfg : Cfg) (env : Env) (s : Adapter)

/-- `smart_malloc_88xx` with `n` tries left, the next one the try `k`. -/
def smartMallocFrom (mallocs : ℕ → Bool) : ℕ → ℕ → BitVec 32 → Option (BitVec 32)
  | 0, _, _ => none
  | n + 1, k, size =>
    if mallocs k then some size
    else if size >>> 1 == 0 then none
    else smartMallocFrom mallocs n (k + 1) (size >>> 1)

def smartMalloc (mallocs : ℕ → Bool) (size : BitVec 32) : Option (BitVec 32) :=
  smartMallocFrom mallocs 5 0 size

/-- The size that `malloc_cfg_param_buf_88xx` asks for. -/
def cfgParamBufSize (fullFifo : BitVec 8) : BitVec 32 :=
  let size := if fullFifo == 1 then cfg.mallocSize else cfgParamRsvdpgSize
  if cfg.rsvdPgSize < size then cfg.rsvdPgSize else size

/-- A fresh buffer for parameters: `size` zero bytes. -/
def CfgParamInfo.fresh (size : BitVec 32) (fullFifo : BitVec 8) (mem : ℕ → BitVec 8) :
    CfgParamInfo where
  buf := some fun i => if i < size.toNat then 0 else mem i
  bufSize := size
  bufWptr := 0
  num := 0
  avlBufSize := size
  offsetAccum := 0
  valueAccum := 0
  fullFifoMode := fullFifo == 1

def mallocCfgParamBuf (fullFifo : BitVec 8) : Adapter × Ret :=
  if s.param.buf.isSome then (s, .success)
  else
    match smartMalloc env.mallocs (cfgParamBufSize cfg fullFifo) with
    | none =>
      ({ s with param := { s.param with bufSize := cfgParamBufSize cfg fullFifo } }, .mallocFail)
    | some size => ({ s with param := CfgParamInfo.fresh size fullFifo env.mem }, .success)

/-- `cnv_cfg_param_state_88xx`, `none` for `HALMAC_RET_ERROR_STATE`. -/
def cnvCfgParamState (state dest : CnstrState) : Option CnstrState :=
  if !(state == .idle || state == .cnstr || state == .h2cSent) then none
  else if dest == .idle && state == .cnstr then none
  else if dest == .cnstr && state == .h2cSent then none
  else if dest == .h2cSent && (state == .idle || state == .h2cSent) then none
  else some dest

/-- The buffer is freed. -/
def CfgParamInfo.free (info : CfgParamInfo) : CfgParamInfo := { info with buf := none, bufWptr := 0 }

/-- The first word of a record, over what the word held. -/
def Param.head (param : Param) (w : BitVec 32) : BitVec 32 :=
  let w := setBits w 0 8 (BitVec.ofNat 32 cfgParamH2cInfoSize)
  let w := setBits w 8 7 param.cmd.id
  match param.cmd with
  | .bbW8 | .bbW16 | .bbW32 | .macW8 | .macW16 | .macW32 =>
    setBits (setBits w 16 16 (param.offset.setWidth 32)) 15 1 (param.mskEn.setWidth 32)
  | .rfW =>
    let w := setBits w 16 8 (param.offset.setWidth 32)
    let w := setBits w 24 8 (param.rfPath.setWidth 32)
    setBits w 15 1 (param.mskEn.setWidth 32)
  | .delayUs | .delayMs => setBits w 16 16 (param.offset.setWidth 32)
  | .finish | .other _ _ => w

/-- The commands whose records have data and a mask. -/
def ParamCmd.isWrite : ParamCmd → Bool
  | .bbW8 | .bbW16 | .bbW32 | .macW8 | .macW16 | .macW32 | .rfW => true
  | _ => false

/-- What a parameter adds to `value_accum`. -/
def Param.valueTerm (param : Param) : BitVec 32 := if param.cmd.isWrite then param.value else 0

/-- What a parameter adds to `offset_accum`. -/
def Param.offsetTerm (param : Param) : BitVec 32 :=
  if param.cmd == .rfW then
    (param.offset.setWidth 8).setWidth 32 + (param.rfPath.setWidth 32 <<< 8)
  else if param.cmd.isWrite then param.offset.setWidth 32
  else 0

/-- The bytes that `add_param_buf_88xx` writes: the three words of a register write, else one. -/
def Param.written (param : Param) (buf : ℕ → BitVec 8) (wptr : ℕ) : List (BitVec 8) :=
  if param.cmd.isWrite then
    bytes (param.head (wordAt buf wptr)) ++ bytes param.value ++ bytes param.msk
  else bytes (param.head (wordAt buf wptr))

def addParamBuf (param : Param) : Adapter :=
  match s.param.buf with
  | none => s
  | some buf =>
    let data := param.written buf s.param.bufWptr
    { s with
      param := { s.param with
        buf := some (store buf s.param.bufWptr data)
        valueAccum := s.param.valueAccum + param.valueTerm
        offsetAccum := s.param.offsetAccum + param.offsetTerm }
      overrun := s.overrun || decide (s.param.bufSize.toNat < s.param.bufWptr + data.length) }

/-- The step of the buffer past a record. -/
def CfgParamInfo.next (info : CfgParamInfo) : CfgParamInfo :=
  { info with
    num := info.num + 1
    bufWptr := info.bufWptr + cfgParamH2cInfoSize
    avlBufSize := info.avlBufSize - BitVec.ofNat 32 cfgParamH2cInfoSize }

/-- The records in the buffer. -/
def CfgParamInfo.records (info : CfgParamInfo) : List (BitVec 8) :=
  match info.buf with
  | none => []
  | some buf => load buf 0 (info.num * cfgParamH2cInfoSize)

def genCfgParamH2c (info : CfgParamInfo) : H2cCmd :=
  .cfgParam (BitVec.ofNat 16 info.num) info.fullFifoMode
    (if info.fullFifoMode then 0 else pgLoc cfg cfg.rsvdH2cInfoAddr)

/-- The end of `send_cfg_param_h2c_88xx`: the buffer is freed, and the state goes back to idle. -/
def cfgParamH2cEnd (status : Ret) : Adapter × Ret :=
  let s := { s with param := s.param.free }
  match cnvCfgParamState s.cfgCnstr .idle with
  | none => (s, .errorState)
  | some state => ({ s with cfgCnstr := state }, status)

def sendCfgParamH2c : Adapter × Ret :=
  match cnvCfgParamState s.cfgCnstr .h2cSent with
  | none => (s, .errorState)
  | some state =>
    let s := { s with cfgCnstr := state }.setProc .cfgParam .sending
    let pgAddr := if s.param.fullFifoMode then 0 else cfg.rsvdH2cInfoAddr
    match s.dlRsvdPage env .cfgParam pgAddr s.param.records with
    | (s, .success) =>
      let r := s.sendH2c env .cfgParam true false (genCfgParamH2c cfg s.param)
      cfgParamH2cEnd r.1 r.2
    | (s, status) => cfgParamH2cEnd s status

def procCfgParam (param : Param) (fullFifo : BitVec 8) : Adapter × Ret :=
  match mallocCfgParamBuf cfg env s fullFifo with
  | (s, .success) =>
    match cnvCfgParamState s.cfgCnstr .cnstr with
    | none => ({ s with param := s.param.free }, .errorState)
    | some state =>
      let endCmd := param.cmd == .finish
      let s := addParamBuf { s with cfgCnstr := state } param
      let s := if endCmd then s else { s with param := s.param.next }
      let rsvdSize := s.param.avlBufSize - txdescSize
      if BitVec.ofNat 32 cfgParamH2cInfoSize < rsvdSize && !endCmd then (s, .success)
      else if s.param.num == 0 then
        let s := { s with param := s.param.free }.setProc .cfgParam .done
        (s.resetOfldFeature .cfgParam, .success)
      else
        match sendCfgParamH2c cfg env s with
        | (s, .success) => (s, if endCmd then .success else .paraSending)
        | (s, status) => ({ s with param := s.param.free }, status)
  | (s, status) => (s, status)

def cfgParameter (param : Param) (fullFifo : BitVec 8) : Adapter × Ret :=
  if !cfg.fwValidate then (s, .noDlfw)
  else if cfg.h2cVersion < 4 then (s, .fwNoSupport)
  else if s.proc .cfgParam == .sending then (s, .busyState)
  else if !(s.cfgCnstr == .idle || s.cfgCnstr == .cnstr) then (s, .busyState)
  else procCfgParam cfg env (s.setProc .cfgParam .idle) param fullFifo

end Parameters

section Scan

variable (cfg : Cfg) (env : Env) (s : Adapter)

/-- `cnv_scan_state_88xx`, `none` for `HALMAC_RET_ERROR_STATE`. -/
def cnvScanState (state dest : CnstrState) : Option CnstrState :=
  if dest == .idle && (state == .bufClr || state == .cnstr) then none
  else if dest == .bufClr && state == .h2cSent then none
  else if dest == .cnstr && (state == .idle || state == .h2cSent) then none
  else if dest == .h2cSent && !(state == .cnstr || state == .bufClr) then none
  else some dest

/-- No list of channels. -/
def ChSwInfo.clear (info : ChSwInfo) : ChSwInfo :=
  { info with
    buf := none
    bufWptr := 0
    extraInfoEn := 0
    bufSize := 0
    avlBufSize := 0
    totalSize := 0
    chNum := 0 }

/-- A fresh buffer for the list. -/
def ChSwInfo.fresh (info : ChSwInfo) (mem : ℕ → BitVec 8) : ChSwInfo :=
  { info with
    buf := some mem
    bufWptr := 0
    bufSize := scanInfoRsvdpgSize
    avlBufSize := scanInfoRsvdpgSize
    totalSize := 0
    extraInfoEn := 0
    chNum := 0 }

def clearChInfo : Adapter × Ret :=
  if s.scanCnstr == .h2cSent then (s, .errorState)
  else
    match cnvScanState s.scanCnstr .bufClr with
    | none => (s, .errorState)
    | some state => ({ s with scanCnstr := state, chSw := s.chSw.clear }, .success)

/-- The record of a channel, over what its word held. -/
def ChInfo.word (info : ChInfo) (w : BitVec 32) : BitVec 32 :=
  let w := setBits w 0 8 (info.channel.setWidth 32)
  let w := setBits w 8 4 info.priChIdx
  let w := setBits w 12 4 info.bw
  let w := setBits w 16 8 (info.timeout.setWidth 32)
  let w := setBits w 24 7 info.actionId
  setBits w 31 1 (info.extraInfo.setWidth 32)

/-- A channel is put at the end of the list. -/
def ChSwInfo.addCh (c : ChSwInfo) (buf : ℕ → BitVec 8) (info : ChInfo) : ChSwInfo :=
  { c with
    buf := some (store buf c.bufWptr (bytes (info.word (wordAt buf c.bufWptr))))
    avlBufSize := c.avlBufSize - 4
    totalSize := c.totalSize + 4
    chNum := c.chNum + 1
    extraInfoEn := info.extraInfo
    bufWptr := c.bufWptr + 4 }

/-- The end of `add_ch_info_88xx`, with a buffer. -/
def addChInfoBuf (s : Adapter) (buf : ℕ → BitVec 8) (info : ChInfo) : Adapter × Ret :=
  if s.chSw.extraInfoEn == 1 then (s, .chSwSeqWrong)
  else if s.chSw.avlBufSize < 4 then (s, .chSwNoBuf)
  else
    match cnvScanState s.scanCnstr .cnstr with
    | none => (s, .errorState)
    | some state => ({ s with scanCnstr := state, chSw := s.chSw.addCh buf info }, .success)

def addChInfo (info : ChInfo) : Adapter × Ret :=
  if !(cfg.dlfwState == .genInfoSent) then (s, .genInfoNotSent)
  else if !(s.scanCnstr == .bufClr || s.scanCnstr == .cnstr) then (s, .errorState)
  else
    match s.chSw.buf with
    | some buf => addChInfoBuf s buf info
    | none =>
      if !env.malloc then (s, .nullPointer)
      else addChInfoBuf { s with chSw := s.chSw.fresh env.mem } env.mem info

/-- The first word of an extra record, over what the word held. -/
def ChExtraInfo.word (info : ChExtraInfo) (w : BitVec 32) : BitVec 32 :=
  let w := setBits w 0 7 info.extraActionId
  let w := setBits w 7 1 (info.extraInfo.setWidth 32)
  setBits w 8 8 (info.extraInfoSize.setWidth 32)

/-- The data of an extra record. -/
def ChExtraInfo.data (info : ChExtraInfo) : List (BitVec 8) :=
  load info.extraInfoData 0 info.extraInfoSize.toNat

/-- An extra record is put at the end of the list. -/
def ChSwInfo.addExtra (c : ChSwInfo) (buf : ℕ → BitVec 8) (info : ChExtraInfo) : ChSwInfo :=
  { c with
    buf := some (store
      (store buf c.bufWptr (bytes (info.word (wordAt buf c.bufWptr)))) (c.bufWptr + 2) info.data)
    avlBufSize := c.avlBufSize - (2 + info.extraInfoSize.toNat)
    totalSize := c.totalSize + (2 + info.extraInfoSize.toNat)
    extraInfoEn := info.extraInfo
    bufWptr := c.bufWptr + (2 + info.extraInfoSize.toNat) }

def addExtraChInfo (info : ChExtraInfo) : Adapter × Ret :=
  match s.chSw.buf with
  | none => (s, .chSwSeqWrong)
  | some buf =>
    if s.chSw.extraInfoEn == 0 then (s, .chSwSeqWrong)
    else if s.chSw.avlBufSize < info.extraInfoSize.toNat + 2 then (s, .chSwNoBuf)
    else if !(s.scanCnstr == .cnstr) then (s, .errorState)
    else
      match cnvScanState s.scanCnstr .cnstr with
      | none => (s, .errorState)
      | some state => ({ s with scanCnstr := state, chSw := s.chSw.addExtra buf info }, .success)

/-- The list that is downloaded. -/
def ChSwInfo.list (c : ChSwInfo) : List (BitVec 8) :=
  match c.buf with
  | none => []
  | some buf => load buf 0 c.totalSize

/-- The end of `proc_ctrl_ch_switch_88xx`: the command is sent, the list freed, and the state goes
back to idle. -/
def sendChSwitch (opt : ChSwitchOption) (pgAddr : BitVec 16) : Adapter × Ret :=
  let cmd := .chSwitch opt (BitVec.ofNat 8 s.chSw.chNum) (pgLoc cfg pgAddr)
    (BitVec.ofNat 16 s.chSw.totalSize)
  let r := s.sendH2c env .scan (!(opt.nloEn == 1)) (opt.nloEn == 1) cmd
  let s := { r.1 with chSw := r.1.chSw.clear }
  match cnvScanState s.scanCnstr .idle with
  | none => (s, .errorState)
  | some state => ({ s with scanCnstr := state, nloFlag := false }, r.2)

/-- The scan report's buffer in `proc_ctrl_ch_switch_88xx`, then the rest of it. -/
def scanRptAndSend (opt : ChSwitchOption) (pgAddr : BitVec 16) : Adapter × Ret :=
  if opt.scanModeEn == 1 then
    let s := { s with chSw := { s.chSw with scanMode := true } }
    if !s.scanRptBuf && !env.malloc then (s, .nullPointer)
    else sendChSwitch cfg env { s with scanRptBuf := true } opt pgAddr
  else sendChSwitch cfg env { s with chSw := { s.chSw with scanMode := false } } opt pgAddr

def procCtrlChSwitch (opt : ChSwitchOption) : Adapter × Ret :=
  match cnvScanState s.scanCnstr .h2cSent with
  | none => (s, .errorState)
  | some state =>
    let s := { s with scanCnstr := state }.setProc .scan .sending
    if opt.switchEn == 0 then scanRptAndSend cfg env s opt cfg.rsvdH2cInfoAddr
    else
      let pgAddr := cfg.rsvdH2cInfoAddr + s.usedPage.setWidth 16
      match s.dlRsvdPage env .scan pgAddr s.chSw.list with
      | (s, .success) => scanRptAndSend cfg env { s with usedPage := 0 } opt pgAddr
      | (s, status) => (s, status)

def ctrlChSwitch (opt : ChSwitchOption) : Adapter × Ret :=
  if !cfg.fwValidate then (s, .noDlfw)
  else if cfg.h2cVersion < 4 then (s, .fwNoSupport)
  else if cfg.rsvdPgNum * 128 < s.chSw.totalSize + s.usedPage.toNat * 128 then
    (s, .rsvdPgOverflowFail)
  else
    let s := if opt.switchEn == 0 then s.setProc .scan .idle else s
    if s.proc .scan == .sending || s.proc .scan == .rcvd then (s, .busyState)
    else if !(s.scanCnstr == if opt.switchEn == 1 then .cnstr else .bufClr) then (s, .errorState)
    else procCtrlChSwitch cfg env s opt

end Scan

/-- The acknowledgement of a command: `get_h2c_ack_88xx` and its handlers; `good` is what the
handlers make of the return code, and of the sums for parameters. -/
def getH2cAck (s : Adapter) (f : Feature) (seq : BitVec 8) (rc : BitVec 8)
    (offsetAccum valueAccum : BitVec 32) : Adapter × Ret :=
  let good := rc == 0 && (f != .cfgParam ||
    (offsetAccum == s.param.offsetAccum && valueAccum == s.param.valueAccum))
  let s := { s with log := .acked f seq :: s.log }
  if seq != s.seqNum f then (s, .success)
  else if s.proc f != .sending then (s, .success)
  else
    let status := if good then if f = .scan then .rcvd else .done else .error
    (s.setProc f status, .success)

def getScanRpt (s : Adapter) (rc : BitVec 8) : Adapter × Ret :=
  (s.setProc .scan (if rc == 0 then .done else .error), .success)

/-- A call, an acknowledgement or a scan report. -/
inductive Ev
  | updatePacket (env : Env) (pktId : BitVec 32) (pkt : List (BitVec 8))
  | sendScanPacket (env : Env) (index : BitVec 8) (pkt : List (BitVec 8))
  | dropScanPacket (env : Env) (option : DropPktOption)
  | cfgParameter (env : Env) (param : Param) (fullFifo : BitVec 8)
  | clearChInfo
  | addChInfo (env : Env) (info : ChInfo)
  | addExtraChInfo (info : ChExtraInfo)
  | ctrlChSwitch (env : Env) (opt : ChSwitchOption)
  | h2cAck (f : Feature) (seq rc : BitVec 8) (offsetAccum valueAccum : BitVec 32)
  | scanRpt (rc : BitVec 8)

/-- What one event does, and what it returns. -/
def handle (cfg : Cfg) (s : Adapter) : Ev → Adapter × Ret
  | .updatePacket env pktId pkt => updatePacket cfg env s pktId pkt
  | .sendScanPacket env index pkt => sendScanPacket cfg env s index pkt
  | .dropScanPacket env option => dropScanPacket cfg env s option
  | .cfgParameter env param fullFifo => cfgParameter cfg env s param fullFifo
  | .clearChInfo => clearChInfo s
  | .addChInfo env info => addChInfo cfg env s info
  | .addExtraChInfo info => addExtraChInfo s info
  | .ctrlChSwitch env opt => ctrlChSwitch cfg env s opt
  | .h2cAck f seq rc offsetAccum valueAccum => getH2cAck s f seq rc offsetAccum valueAccum
  | .scanRpt rc => getScanRpt s rc

def step (cfg : Cfg) (s : Adapter) (ev : Ev) : Adapter := (handle cfg s ev).1

end Rtl8821cu.Halmac
