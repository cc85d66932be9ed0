import Rtl8821cu.LibHistory
import Rtl8821cu.LibRun

/-! The queue of commands and the thread that runs them (`core/rtw_cmd.c`). -/
namespace Rtl8821cu.Cmd
open History Run

def maxCmdsz : BitVec 32 := 1536

def cmdSetDrvExtra : BitVec 16 := 12

def cmdSetChanplan : BitVec 16 := 13

def h2cSuccess : BitVec 8 := 0x00

def h2cDropped : BitVec 8 := 0x03

def h2cParametersError : BitVec 8 := 0x04

/-- An entry of `wlancmds`: whether the command has a handler, and a callback. -/
structure RtwCmd where
  cmdHdl : Bool
  callback : Bool

/-- `wlancmds`, from `CMD_JOINBSS` to `CMD_GET_CHANPLAN`. -/
def wlancmds : List RtwCmd :=
  [⟨true, true⟩, ⟨true, true⟩, ⟨true, false⟩, ⟨true, false⟩, ⟨true, true⟩, ⟨true, false⟩,
    ⟨true, false⟩, ⟨true, true⟩] ++ List.replicate 16 ⟨true, false⟩

/-- The buffers of a command: the object, its parameters, its response, and the buffer that the
parameters of `CMD_SET_DRV_EXTRA` point to. -/
inductive Buf
  | obj
  | parm
  | rsp
  | extra
  deriving DecidableEq

/-- `struct cmd_obj`: pointers are whether they are set, `extraBuf` is whether the parameters of
`CMD_SET_DRV_EXTRA` have a buffer with a size. -/
structure CmdObj where
  cmdcode : BitVec 16
  cmdsz : BitVec 32
  parmbuf : Bool
  rsp : Bool
  rspsz : BitVec 32
  sctx : Bool
  noIo : Bool
  extraBuf : Bool

/-- How a waiter is signalled. -/
inductive SctxStatus
  | done
  | cmdError
  | cmdDrop
  deriving DecidableEq

/-- What happens to a command. -/
inductive Act
  | queued
  | called (res : Bool)
  | taken
  | handled
  | signalled (status : SctxStatus)
  | freed (b : Buf)
  | passed
  deriving DecidableEq

/-- The buffers that a command owns. -/
def CmdObj.owns (c : CmdObj) : Buf → Bool
  | .obj => true
  | .parm => c.parmbuf
  | .rsp => c.rsp && c.rspsz != 0
  | .extra => c.cmdcode == cmdSetDrvExtra && c.extraBuf

/-- The buffer `b` is freed, if the command owns it. -/
def CmdObj.free (c : CmdObj) (b : Buf) : List Act := if c.owns b then [.freed b] else []

def CmdObj.rtwFreeCmdObj (c : CmdObj) : List Act := c.free .parm ++ c.free .rsp ++ c.free .obj

/-- `rtw_sctx_done` and `rtw_sctx_done_err`, for a command with a waiter. -/
def CmdObj.signal (c : CmdObj) (status : SctxStatus) : List Act :=
  if c.sctx then [.signalled status] else []

/-- Where the thread is: at its start, at the semaphore, at `_next`, with a command at its handler
or at `post_process`, behind its loop, at the drain, or ended. -/
inductive Pc
  | start
  | wait
  | next
  | hdl (id : ℕ) (c : CmdObj)
  | post (id : ℕ) (c : CmdObj) (res : BitVec 8)
  | leave
  | drain
  | exited

/-- `struct cmd_priv` with what it reads of the adapter, the commands that calls were made with (a
command's identity is its place among them), and what happened to them. -/
structure CmdPriv where
  queue : List (ℕ × CmdObj)
  sema : ℕ
  cmdthdRunning : Bool
  hwInitCompleted : Bool
  cannotRun : Bool
  pc : Pc
  cmds : List CmdObj
  log : List (ℕ × Act)

namespace CmdPriv

def note (s : CmdPriv) (id : ℕ) (as : List Act) : CmdPriv :=
  { s with log := History.note s.log id as }

def rtwCmdFilter (s : CmdPriv) (c : CmdObj) : Bool :=
  let bAllow := c.cmdcode == cmdSetChanplan || c.noIo
  !(!s.hwInitCompleted && !bAllow || !s.cmdthdRunning)

def rtwEnqueueCmd (s : CmdPriv) (c : CmdObj) : CmdPriv × Bool :=
  let id := s.cmds.length
  let s := { s with cmds := s.cmds ++ [c] }
  let res := s.rtwCmdFilter c
  if !res || maxCmdsz < c.cmdsz then
    (s.note id (c.free .extra ++ c.rtwFreeCmdObj ++ [.called res]), res)
  else
    ({ s with queue := s.queue ++ [(id, c)], sema := s.sema + 1 }.note id [.queued, .called true],
      true)

/-- The checks of a command that was taken off, up to its handler. -/
def check (s : CmdPriv) (id : ℕ) (c : CmdObj) : CmdPriv :=
  if maxCmdsz < c.cmdsz then { s with pc := .post id c h2cParametersError }
  else
    match wlancmds[c.cmdcode.toNat]? with
    | none => { s with pc := .post id c h2cParametersError }
    | some cmd =>
      if !cmd.cmdHdl then { s with pc := .post id c h2cParametersError }
      else if !s.rtwCmdFilter c then
        { s.note id (c.free .extra) with pc := .post id c h2cDropped }
      else { s with pc := .hdl id c }

/-- The callback of a command code. -/
def hasCallback (cmdcode : BitVec 16) : Bool :=
  match wlancmds[cmdcode.toNat]? with
  | none => false
  | some cmd => cmd.callback

/-- A step of `rtw_cmd_thread`: `downOk` is what `_rtw_down_sema` returns, and `res` what the
handler does. -/
def rtwCmdThread (s : CmdPriv) (downOk : Bool) (res : BitVec 8) : CmdPriv :=
  match s.pc with
  | .start => { s with cmdthdRunning := true, pc := .wait }
  | .wait =>
    if !downOk then { s with pc := .leave }
    else if s.sema == 0 then s
    else if s.cannotRun then { s with sema := s.sema - 1, pc := .leave }
    else if s.queue.isEmpty then { s with sema := s.sema - 1 }
    else { s with sema := s.sema - 1, pc := .next }
  | .next =>
    if s.cannotRun then { s with pc := .leave }
    else
      match s.queue with
      | [] => { s with pc := .wait }
      | (id, c) :: queue => ({ s with queue := queue }.note id [.taken]).check id c
  | .hdl id c => { s.note id [.handled] with pc := .post id c res }
  | .post id c res =>
    let status := if res == h2cSuccess then .done else .cmdError
    let ends := if hasCallback c.cmdcode then [.passed] else c.rtwFreeCmdObj
    { s.note id (c.signal status ++ ends) with pc := .next }
  | .leave => { s with cmdthdRunning := false, pc := .drain }
  | .drain =>
    match s.queue with
    | [] => { s with pc := .exited }
    | (id, c) :: queue =>
      { s with queue := queue }.note id
        ([Act.taken] ++ c.free .extra ++ c.signal .cmdDrop ++ c.rtwFreeCmdObj)
  | .exited => s

end CmdPriv

/-- A call, a step of the thread, or what others do: the hardware's initialisation, the stop of the
driver, and `rtw_stop_cmd_thread`. -/
inductive Ev
  | enqueue (c : CmdObj)
  | thread (downOk : Bool) (res : BitVec 8)
  | hwInit (completed : Bool)
  | cannotRun (stopped : Bool)
  | upSema

def step (s : CmdPriv) : Ev → CmdPriv
  | .enqueue c => (s.rtwEnqueueCmd c).1
  | .thread downOk res => s.rtwCmdThread downOk res
  | .hwInit completed => { s with hwInitCompleted := completed }
  | .cannotRun stopped => { s with cannotRun := stopped }
  | .upSema => { s with sema := s.sema + 1 }

end Rtl8821cu.Cmd
