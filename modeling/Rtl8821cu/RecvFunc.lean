import Rtl8821cu.RecvPool
import Rtl8821cu.RecvValidate

/-! One run of `recv_func` over the pool of receive frames. The verdicts of the handlers that
neither queue nor return frames are inputs. -/
namespace Rtl8821cu.Recv
open Pool Reorder RecvPriv

variable {σ κ : Type*}

inductive FrameType
  | mgt
  | ctrl
  | data
  | unknown
  deriving DecidableEq

/-- Where `validate_mgmt_protect` goes: the frame needs no decryption and is passed or refused,
or it is decrypted with the station's cipher and takes the receiver from its header. -/
inductive MgmtProtect
  | pass
  | refuse
  | decrypt (encrypt : SecurityType) (raMcast : Bool)

/-- `SET_ICE_IV_LEN`, the second length. -/
def icvLen : SecurityType → ℕ
  | .wep40 | .wep104 | .tkip => 4
  | .aes => 8
  | .gcmp | .gcmp256 | .ccmp256 | .sms4 => 16
  | .noPrivacy | .tkipWtmic => 0

/-- The attributes `validate_mgmt_protect` sets before it decrypts. -/
def FragFrame.mgmtAttrib (f : FragFrame) (encrypt : SecurityType) (raMcast : Bool) : FragFrame :=
  { f with
    encrypt := encrypt, raMcast := raMcast, hdrlen := 24
    ivLen := Recv.ivLen encrypt, icvLen := Recv.icvLen encrypt }

/-- What `recv_process_mpdu` finds: the frame is an A-MSDU, some action is left for it, it is
only forwarded, the header conversion and the indication check succeed, the driver runs, and
the frame has a packet. -/
structure MpduVerdict where
  amsdu : Bool
  act : Bool
  ethhdr : Bool
  forwardOnly : Bool
  cannotRun : Bool
  indicateCheck : Bool
  pkt : Bool

/-- What the receive path finds for a frame: its type and the attributes beside those of
`FragFrame`, the station and the reordering controller it belongs to, and the verdicts of the
handlers. -/
structure FrameInfo (σ κ : Type*) where
  verOk : Bool
  type : FrameType
  qos : Bool
  bdecrypted : Bool
  dataRet : RecvRet
  mgmtProtect : MgmtProtect
  decrypts : Bool
  defragSta : Option σ
  keytrack : ℕ
  mic : FragFrame → Bool
  portctrl : FragFrame → Bool
  preorderCtrl : Option κ
  mpdu : MpduVerdict

/-- The state of the interface during the call, and the findings per frame. -/
structure RecvEnv (σ κ : Type*) where
  monitorState : Bool
  stationState : Bool
  busetkipkey : Bool
  swDecrypt : Bool
  authModeWPAPSK : Bool
  info : ℕ → FrameInfo σ κ

section Model
variable [DecidableEq σ] [DecidableEq κ] (env : RecvEnv σ κ)

/-- `decrypts` is the verdict of the cipher's software routine. -/
def FrameInfo.decryptor (i : FrameInfo σ κ) (encrypt : SecurityType) (bdecrypted : Bool) : Bool :=
  if encrypt ≠ .noPrivacy ∧ bdecrypted = false then
    match encrypt with
    | .tkip | .aes | .ccmp256 | .gcmp | .gcmp256 => i.decrypts
    | _ => true
  else true

/-- `recvframe_chk_defrag` on the queue of the frame's station, if it has one. -/
def chkDefrag (w : RecvPriv σ κ) (i : FrameInfo σ κ) (f : FragFrame) : ChkDefragOut :=
  recvframeChkDefrag i.mic i.keytrack (i.defragSta.map w.defragQ) f

def RecvPriv.recvframeChkDefrag (w : RecvPriv σ κ) (i : FrameInfo σ κ) (f : FragFrame) :
    Option FragFrame × RecvPriv σ κ :=
  let o := chkDefrag w i f
  let w :=
    match i.defragSta with
    | none => w
    | some s => { w with defragQ := Function.update w.defragQ s o.queue }
  (o.ret, o.freed.foldl rtwFreeRecvframe w)

/-- The frame, with the attributes the decryption sets, when the checks let it pass. A frame
whose decryption fails was returned by `decryptor`, and its buffer is copied from nevertheless. -/
def RecvPriv.validateMgmtProtect (w : RecvPriv σ κ) (i : FrameInfo σ κ) (f : FragFrame) :
    Option FragFrame × RecvPriv σ κ :=
  match i.mgmtProtect with
  | .pass => (some f, w)
  | .refuse => (none, w)
  | .decrypt encrypt raMcast =>
      if i.decryptor encrypt false then (some (f.mgmtAttrib encrypt raMcast), w)
      else (none, (w.rtwFreeRecvframe f).use f)

/-- `mgt_dispatcher` leaves the frame with its caller. -/
def RecvPriv.validateRecvMgntFrame (w : RecvPriv σ κ) (i : FrameInfo σ κ) (f : FragFrame) :
    RecvPriv σ κ :=
  match w.validateMgmtProtect i f with
  | (none, w) => w
  | (some f, w) => (w.recvframeChkDefrag i f).2

def RecvPriv.validateRecvFrame (w : RecvPriv σ κ) (i : FrameInfo σ κ) (f : FragFrame) :
    RecvRet × RecvPriv σ κ :=
  if !i.verOk then (.fail, w)
  else
    match i.type with
    | .mgt => (.fail, w.validateRecvMgntFrame i f)
    | .ctrl => (.fail, w)
    | .data => (i.dataRet, w)
    | .unknown => (.fail, w)

def RecvPriv.recvFuncPrehandle (w : RecvPriv σ κ) (f : FragFrame) : RecvRet × RecvPriv σ κ :=
  let r := w.validateRecvFrame (env.info f.id) f
  if r.1 ≠ .success then (r.1, r.2.rtwFreeRecvframe f) else r

/-- Every way out of `recv_process_mpdu` and `amsdu_to_msdu`. -/
def RecvPriv.recvProcessMpdu (w : RecvPriv σ κ) (f : FragFrame) : RecvRet × RecvPriv σ κ :=
  let v := (env.info f.id).mpdu
  if v.amsdu then (.success, w.rtwFreeRecvframe f)
  else if !v.act then (.fail, w.rtwFreeRecvframe f)
  else if !v.ethhdr then (.fail, w.rtwFreeRecvframe f)
  else if v.forwardOnly then (.success, w.rtwFreeRecvframe f)
  else if v.cannotRun then (.success, w.rtwFreeRecvframe f)
  else if !v.indicateCheck then (.fail, w.rtwFreeRecvframe f)
  else if !v.pkt then (.fail, w.rtwFreeRecvframe f)
  else (.success, w.rtwFreeRecvframe f)

/-- The frames indicated in order go to `recv_process_mpdu` one by one. -/
def RecvPriv.recvIndicatepktReorder (w : RecvPriv σ κ) (f : FragFrame) : Ret × RecvPriv σ κ :=
  match (env.info f.id).preorderCtrl with
  | none => (.success, w)
  | some k =>
      let o := Reorder.recvIndicatepktReorder (w.reorderCtrl k)
        (f.toReorder (env.info f.id).qos)
      let w := { w with reorderCtrl := Function.update w.reorderCtrl k o.ctrl }
      (o.ret, (o.indicated.map RecvFrame.body).foldl (fun w g => (w.recvProcessMpdu env g).2) w)

/-- Both writers of the window start around `recv_process_mpdu`. -/
def RecvPriv.setIseq (w : RecvPriv σ κ) (k : Option κ) (iseq : ℕ → ℕ) : RecvPriv σ κ :=
  match k with
  | none => w
  | some k =>
      { w with
        reorderCtrl := Function.update w.reorderCtrl k
          { w.reorderCtrl k with indicateSeq := iseq (w.reorderCtrl k).indicateSeq } }

/-- `recv_func_posthandle` behind the port control, for the frame `p` that came of `f`. -/
def RecvPriv.reorderAndProcess (w : RecvPriv σ κ) (f p : FragFrame) : RecvPriv σ κ :=
  match w.recvIndicatepktReorder env p with
  | (.fail, w) => w.rtwFreeRecvframe f
  | (.handled, w) => w
  | (.success, w) =>
      let k := (env.info p.id).preorderCtrl
      let w := ((w.use f).use p).setIseq k fun _ => f.seqNum.toNat
      let w := (w.recvProcessMpdu env p).2
      ((w.use f).use p).setIseq k fun iseq => (iseq + 1) % 4096

def RecvPriv.recvFuncPosthandle (w : RecvPriv σ κ) (f : FragFrame) : RecvPriv σ κ :=
  let i := env.info f.id
  if !i.decryptor f.encrypt i.bdecrypted then w.rtwFreeRecvframe f
  else
    match w.recvframeChkDefrag i f with
    | (none, w) => w
    | (some p, w) =>
        if !i.portctrl p then w.rtwFreeRecvframe p else w.reorderAndProcess env f p

/-- `rtw_alloc_recvframe` on the queue of frames that wait for their key, and the rest of the
loop that empties it; `n` is at least the length of the queue. -/
def RecvPriv.dequeueUcSwdec : ℕ → RecvPriv σ κ → RecvPriv σ κ
  | 0, w => w
  | n + 1, w =>
      match w.ucSwdecPendingQueue with
      | [] => w
      | g :: rest =>
          dequeueUcSwdec n
            (RecvPriv.recvFuncPosthandle env { w with ucSwdecPendingQueue := rest } g)

/-- The frame waits for its key. -/
def enqueuesUcSwdec (f : FragFrame) : Bool :=
  env.stationState && !f.raMcast && decide (f.encrypt ≠ .noPrivacy) &&
    (!(env.info f.id).bdecrypted || env.swDecrypt) && env.authModeWPAPSK && !env.busetkipkey

def RecvPriv.enqueueUcSwdec (w : RecvPriv σ κ) (f : FragFrame) : RecvPriv σ κ :=
  { w.listDelete f.id with
    ucSwdecPendingQueue := (w.listDelete f.id).ucSwdecPendingQueue ++ [f] }

/-- A validated data frame: into the queue, from which the oldest frame is taken when frames run
short, or on. -/
def RecvPriv.recvFuncValidated (nr : ℕ) (w : RecvPriv σ κ) (f : FragFrame) : RecvPriv σ κ :=
  if enqueuesUcSwdec env f then
    let w := w.enqueueUcSwdec f
    if w.freeRecvframeCnt < nr / 4 then
      match w.ucSwdecPendingQueue with
      | [] => w
      | g :: rest => RecvPriv.recvFuncPosthandle env { w with ucSwdecPendingQueue := rest } g
    else w
  else w.recvFuncPosthandle env f

/-- The frames that waited for their key come first once it is there. -/
def RecvPriv.handleUcSwdec (w : RecvPriv σ κ) : RecvPriv σ κ :=
  if env.stationState && env.busetkipkey then w.dequeueUcSwdec env w.ucSwdecPendingQueue.length
  else w

/-- `nr` is `NR_RECVFRAME`. -/
def RecvPriv.recvFunc (nr : ℕ) (w : RecvPriv σ κ) (f : FragFrame) : RecvPriv σ κ :=
  if env.monitorState then w.rtwFreeRecvframe f
  else
    match (w.handleUcSwdec env).recvFuncPrehandle env f with
    | (.success, w) => w.recvFuncValidated env nr f
    | (_, w) => w

end Model

end Rtl8821cu.Recv
