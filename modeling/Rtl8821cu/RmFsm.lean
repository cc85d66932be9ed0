import Mathlib

/-! The states of one radio measurement (`core/rtw_rm_fsm.c`): what a state function does to the
measurement, to its own clock and to the queue of events. -/
namespace Rtl8821cu.Rm

abbrev rmTimerNum : ℕ := 32

/-- `CLOCK_UNIT`, in milliseconds. -/
def clockUnit : ℕ := 10

def rmReqTimeout : ℕ := 10000

def rmMeasTimeout : ℕ := 10000

def rmReptScanIntvl : ℕ := 5000

def rmReptPollIntvl : ℕ := 2000

def rmCondIntvl : ℕ := 2000

def rmBusyTrafficTimes : ℤ := 10

def rmWaitBusyTimeout : ℕ := 1000

/-- `RTW_WLAN_CATEGORY_RADIO_MEAS`. -/
def categoryRadioMeas : ℕ := 5

def measRspIe : ℕ := 39

def measRepModIncap : ℕ := 2

def measRepModRefuse : ℕ := 4

/-- `enum rm_action_code`. -/
def actRadioMeasReq : ℕ := 0

def actRadioMeasRep : ℕ := 1

def actLinkMeasReq : ℕ := 2

def actLinkMeasRep : ℕ := 3

def actNbRepReq : ℕ := 4

def actNbRepResp : ℕ := 5

/-- `enum meas_type_of_req`. -/
def chLoadReq : ℕ := 3

def noiseHistoReq : ℕ := 4

def bcnReq : ℕ := 5

def bcnReqBcnTable : ℕ := 2

inductive RmState
  | stIdle
  | stDoMeas
  | stWaitMeas
  | stSendReport
  | stRecvReport
  | stEnd
  deriving DecidableEq

inductive RmEvId
  | stateIn
  | busyTimerExpire
  | delayTimerExpire
  | measTimerExpire
  | retryTimerExpire
  | repeatDelayExpire
  | requestTimerExpire
  | waitReport
  | startMeas
  | surveyDone
  | recvRep
  | cancel
  | stateOut
  | evMax
  deriving DecidableEq

structure RmMeasReq where
  actionCode : ℕ
  diagToken : ℕ
  rpt : ℕ
  mToken : ℕ
  mMode : ℕ
  mType : ℕ
  opClass : ℕ
  chNum : ℕ
  deriving DecidableEq

structure RmMeasRep where
  category : ℕ
  actionCode : ℕ
  diagToken : ℕ
  eId : ℕ
  mToken : ℕ
  mMode : ℕ
  mType : ℕ
  opClass : ℕ
  chNum : ℕ
  rpt : ℕ
  deriving DecidableEq

/-- `struct rm_obj`: `linked` is whether `list` is linked (`is_list_linked`). -/
structure RmObj where
  rmid : ℕ
  state : RmState
  q : RmMeasReq
  p : RmMeasRep
  pclock : Fin rmTimerNum
  waitBusy : ℤ
  pollMode : Bool
  linked : Bool

/-- What a state function reads of the rest of the driver: the current channel, the results of
`ready_for_scan` and `rm_radio_meas_report_cond`, and whether an event can be allocated. -/
structure Env where
  curChannel : ℕ
  readyForScan : Bool
  reportCond : Bool
  mem : Bool

/-- A measurement in the hands of a state function: the object, the counter and the event of its
clock, the events posted for it, whether a site survey was started, and whether it was freed. -/
structure Local where
  obj : RmObj
  counter : ℕ
  evid : RmEvId
  posted : List RmEvId
  survey : Bool
  freed : Bool

def rmSetClock (l : Local) (ms : ℕ) (evid : RmEvId) : Local :=
  { l with counter := ms / clockUnit, evid := evid }

def rmCancelClock (l : Local) : Local := { l with counter := 0, evid := .evMax }

/-- `_rm_post_event` for the measurement itself. -/
def rmPostEvent (env : Env) (l : Local) (evid : RmEvId) : Local :=
  if evid == .evMax || l.obj.rmid == 0 then l
  else if !env.mem then l
  else { l with posted := l.posted ++ [evid] }

def rmSetRepMode (l : Local) (mode : ℕ) : Local :=
  { l with obj := { l.obj with p := { l.obj.p with mMode := l.obj.p.mMode ||| mode } } }

def setState (l : Local) (st : RmState) : Local := { l with obj := { l.obj with state := st } }

def freeLocal (l : Local) : Local := { l with freed := true }

/-- `rm_state_run` with `RM_EV_state_out`: every state but the last cancels the clock. -/
def rmStateOut (l : Local) : Local :=
  match l.obj.state with
  | .stEnd => freeLocal l
  | _ => rmCancelClock l

/-- `rm_state_goto`, with the way the new state handles `RM_EV_state_in`. -/
def rmStateGoto (stateIn : Local → Local) (l : Local) (st : RmState) : Local :=
  if l.obj.state == st then l else stateIn (setState (rmStateOut l) st)

/-- `RM_EV_state_in` in `rm_state_end`. -/
def endIn (env : Env) (l : Local) : Local := rmPostEvent env l .stateOut

def gotoEnd (env : Env) (l : Local) : Local := rmStateGoto (endIn env) l .stEnd

/-- `RM_EV_state_in` in `rm_state_wait_meas`. -/
def waitMeasIn (l : Local) : Local := rmSetClock l rmReqTimeout .requestTimerExpire

def gotoWaitMeas (l : Local) : Local := rmStateGoto waitMeasIn l .stWaitMeas

/-- `RM_EV_state_in` in `rm_state_recv_report`. -/
def recvReportIn (env : Env) (l : Local) : Local :=
  if l.obj.p.actionCode == actRadioMeasRep then
    if l.obj.p.mMode != 0 then gotoEnd env l
    else if l.obj.p.rpt != 0 then
      gotoWaitMeas { l with obj := { l.obj with p := { l.obj.p with rpt := l.obj.p.rpt - 1 } } }
    else gotoEnd env l
  else gotoEnd env l

def gotoRecvReport (env : Env) (l : Local) : Local :=
  rmStateGoto (recvReportIn env) l .stRecvReport

/-- `RM_EV_state_in` in `rm_state_send_report`. -/
def sendReportIn (env : Env) (l : Local) : Local :=
  if l.obj.q.actionCode == actRadioMeasReq then
    if l.obj.q.mType == bcnReq || l.obj.q.mType == chLoadReq || l.obj.q.mType == noiseHistoReq then
      if l.obj.p.rpt != 0 then
        rmSetClock { l with obj := { l.obj with p := { l.obj.p with rpt := l.obj.p.rpt - 1 } } }
          (if l.obj.pollMode then rmReptPollIntvl else rmReptScanIntvl) .repeatDelayExpire
      else gotoEnd env l
    else gotoEnd env l
  else gotoEnd env l

def gotoSendReport (env : Env) (l : Local) : Local :=
  rmStateGoto (sendReportIn env) l .stSendReport

/-- Whether the request is one that the source measures through `rm_sitesurvey` or by polling:
`ch_load_req` or `noise_histo_req`. -/
def loadOrNoise (q : RmMeasReq) : Bool := q.mType == chLoadReq || q.mType == noiseHistoReq

/-- The end of `RM_EV_state_in` in `rm_state_do_meas`, for a beacon request that scans. -/
def doMeasScan (env : Env) (l : Local) : Local :=
  if !env.readyForScan then
    rmSetClock { l with obj := { l.obj with waitBusy := rmBusyTrafficTimes } } rmWaitBusyTimeout
      .busyTimerExpire
  else rmPostEvent env l .startMeas

/-- `RM_EV_state_in` in `rm_state_do_meas`. -/
def doMeasIn (env : Env) (l : Local) : Local :=
  if l.obj.q.actionCode == actRadioMeasReq then
    if l.obj.q.mType == bcnReq then
      if l.obj.q.mMode == bcnReqBcnTable then rmPostEvent env l .surveyDone else doMeasScan env l
    else if loadOrNoise l.obj.q then
      if l.obj.pollMode then rmPostEvent env l .surveyDone else l
    else gotoEnd env l
  else if l.obj.q.actionCode == actLinkMeasReq then gotoSendReport env l
  else rmPostEvent env l .startMeas

def gotoDoMeas (env : Env) (l : Local) : Local := rmStateGoto (doMeasIn env) l .stDoMeas

/-- The attributes that `rm_state_idle` copies from the request to the report. -/
def copyAttrib (env : Env) (o : RmObj) : RmObj :=
  if o.q.actionCode == actRadioMeasReq then
    { o with
      p := { o.p with
        actionCode := actRadioMeasRep, diagToken := o.q.diagToken, eId := measRspIe
        mToken := o.q.mToken, mType := o.q.mType, rpt := o.q.rpt, chNum := o.q.chNum
        opClass := o.q.opClass }
      pollMode := o.pollMode || (loadOrNoise o.q && o.q.chNum == env.curChannel) }
  else if o.q.actionCode == actNbRepReq then { o with p := { o.p with actionCode := actNbRepResp } }
  else if o.q.actionCode == actLinkMeasReq then
    { o with p := { o.p with diagToken := o.q.diagToken, actionCode := actLinkMeasRep } }
  else
    { o with
      p := { o.p with actionCode := o.q.actionCode, mMode := o.p.mMode ||| measRepModIncap } }

/-- `rm_issue_meas_req`: whether the request is of a kind that can be issued. -/
def rmIssueMeasReq (q : RmMeasReq) : Bool :=
  q.actionCode == actRadioMeasReq || q.actionCode == actNbRepReq || q.actionCode == actLinkMeasReq

/-- `prm->rmid & RM_MASTER`. -/
def isMaster (rmid : ℕ) : Bool := rmid &&& 1 != 0

/-- `RM_EV_state_in` in `rm_state_idle`; what follows the two branches in the source is not
reached. -/
def idleIn (env : Env) (l : Local) : Local :=
  let l := { l with obj := copyAttrib env l.obj }
  if isMaster l.obj.rmid then
    if rmIssueMeasReq l.obj.q then gotoWaitMeas l else gotoEnd env l
  else gotoDoMeas env l

def rmStateIdle (env : Env) (l : Local) (evid : RmEvId) : Local :=
  let l := { l with obj := { l.obj with p := { l.obj.p with category := categoryRadioMeas } } }
  match evid with
  | .stateIn => idleIn env l
  | .delayTimerExpire => gotoDoMeas env l
  | .cancel => gotoEnd env l
  | .stateOut => rmCancelClock l
  | _ => l

/-- `RM_EV_start_meas` in `rm_state_do_meas`. -/
def startMeas (env : Env) (l : Local) : Local :=
  if l.obj.q.actionCode == actRadioMeasReq then
    if l.obj.q.mType == bcnReq || loadOrNoise l.obj.q then
      rmSetClock { l with survey := true } rmMeasTimeout .measTimerExpire
    else gotoEnd env l
  else rmSetClock l rmMeasTimeout .measTimerExpire

/-- `RM_EV_survey_done` in `rm_state_do_meas`. -/
def surveyDone (env : Env) (l : Local) : Local :=
  if l.obj.q.actionCode == actRadioMeasReq then
    if l.obj.q.mType == bcnReq then gotoSendReport env (rmCancelClock l)
    else if loadOrNoise l.obj.q then
      if env.reportCond then gotoSendReport env l
      else rmSetClock l rmCondIntvl .retryTimerExpire
    else gotoEnd env l
  else l

/-- `prm->wait_busy--`, which is evaluated only when a scan is not possible now. -/
def waitBusyDec (env : Env) (l : Local) : Local :=
  if !env.readyForScan then { l with obj := { l.obj with waitBusy := l.obj.waitBusy - 1 } } else l

/-- `RM_EV_busy_timer_expire` in `rm_state_do_meas`. -/
def busyTimerExpire (env : Env) (l : Local) : Local :=
  if !env.readyForScan && l.obj.waitBusy != 0 then
    rmSetClock (waitBusyDec env l) rmWaitBusyTimeout .busyTimerExpire
  else if (waitBusyDec env l).obj.waitBusy ≤ 0 then
    gotoEnd env (rmSetRepMode (waitBusyDec env l) measRepModRefuse)
  else rmPostEvent env (waitBusyDec env l) .startMeas

def rmStateDoMeas (env : Env) (l : Local) (evid : RmEvId) : Local :=
  match evid with
  | .stateIn => doMeasIn env l
  | .startMeas => startMeas env l
  | .surveyDone => surveyDone env l
  | .measTimerExpire => gotoEnd env (rmSetRepMode l measRepModRefuse)
  | .busyTimerExpire => busyTimerExpire env l
  | .requestTimerExpire => gotoEnd env (rmSetRepMode l measRepModRefuse)
  | .retryTimerExpire => rmPostEvent env l .startMeas
  | .cancel => gotoEnd env (rmSetRepMode l measRepModRefuse)
  | .stateOut => rmCancelClock l
  | _ => l

def rmStateWaitMeas (env : Env) (l : Local) (evid : RmEvId) : Local :=
  match evid with
  | .stateIn => waitMeasIn l
  | .recvRep => gotoRecvReport env l
  | .requestTimerExpire => gotoEnd env l
  | .cancel => gotoEnd env l
  | .stateOut => rmCancelClock l
  | _ => l

def rmStateSendReport (env : Env) (l : Local) (evid : RmEvId) : Local :=
  match evid with
  | .stateIn => sendReportIn env l
  | .repeatDelayExpire => gotoDoMeas env l
  | .cancel => gotoEnd env l
  | .stateOut => rmCancelClock l
  | _ => l

def rmStateRecvReport (env : Env) (l : Local) (evid : RmEvId) : Local :=
  match evid with
  | .stateIn => recvReportIn env l
  | .cancel => gotoEnd env l
  | .stateOut => rmCancelClock l
  | _ => l

def rmStateEnd (env : Env) (l : Local) (evid : RmEvId) : Local :=
  match evid with
  | .stateIn => endIn env l
  | _ => freeLocal l

def rmStateRun (env : Env) (l : Local) (evid : RmEvId) : Local :=
  match l.obj.state with
  | .stIdle => rmStateIdle env l evid
  | .stDoMeas => rmStateDoMeas env l evid
  | .stWaitMeas => rmStateWaitMeas env l evid
  | .stSendReport => rmStateSendReport env l evid
  | .stRecvReport => rmStateRecvReport env l evid
  | .stEnd => rmStateEnd env l evid

/-- What no state function changes of a measurement. -/
structure Keeps (l l' : Local) : Prop where
  rmid : l'.obj.rmid = l.obj.rmid
  pclock : l'.obj.pclock = l.obj.pclock
  linked : l'.obj.linked = l.obj.linked
  q : l'.obj.q = l.obj.q
  evid : l.evid ≠ .stateOut → l'.evid ≠ .stateOut

theorem Keeps.refl (l : Local) : Keeps l l := ⟨rfl, rfl, rfl, rfl, id⟩

theorem Keeps.trans {a b c : Local} (h : Keeps a b) (h' : Keeps b c) : Keeps a c :=
  ⟨h'.rmid.trans h.rmid, h'.pclock.trans h.pclock, h'.linked.trans h.linked, h'.q.trans h.q,
    h'.evid ∘ h.evid⟩

theorem Keeps.after {a b c : Local} (h' : Keeps b c) (h : Keeps a b) : Keeps a c := h.trans h'

theorem keeps_rmPostEvent (env : Env) (l : Local) (evid : RmEvId) :
    Keeps l (rmPostEvent env l evid) := by
  unfold rmPostEvent
  split_ifs <;> exact ⟨rfl, rfl, rfl, rfl, id⟩

theorem keeps_rmStateOut (l : Local) : Keeps l (rmStateOut l) := by
  unfold rmStateOut
  split
  · exact ⟨rfl, rfl, rfl, rfl, id⟩
  · exact ⟨rfl, rfl, rfl, rfl, nofun⟩

theorem keeps_rmStateGoto {f : Local → Local} (hf : ∀ l, Keeps l (f l)) (l : Local)
    (st : RmState) : Keeps l (rmStateGoto f l st) := by
  unfold rmStateGoto
  split_ifs
  · exact .refl l
  · have hset : Keeps (rmStateOut l) (setState (rmStateOut l) st) := ⟨rfl, rfl, rfl, rfl, id⟩
    exact ((keeps_rmStateOut l).trans hset).trans (hf _)

theorem keeps_gotoEnd (env : Env) (l : Local) : Keeps l (gotoEnd env l) :=
  keeps_rmStateGoto (fun l => keeps_rmPostEvent env l _) l _

theorem keeps_gotoWaitMeas (l : Local) : Keeps l (gotoWaitMeas l) :=
  keeps_rmStateGoto (f := waitMeasIn) (fun _ => ⟨rfl, rfl, rfl, rfl, nofun⟩) l _

theorem keeps_recvReportIn (env : Env) (l : Local) : Keeps l (recvReportIn env l) := by
  unfold recvReportIn
  split_ifs
  · exact keeps_gotoEnd env l
  · exact (keeps_gotoWaitMeas _).after ⟨rfl, rfl, rfl, rfl, id⟩
  · exact keeps_gotoEnd env l
  · exact keeps_gotoEnd env l

theorem keeps_sendReportIn (env : Env) (l : Local) : Keeps l (sendReportIn env l) := by
  unfold sendReportIn
  split_ifs
  · exact ⟨rfl, rfl, rfl, rfl, nofun⟩
  · exact ⟨rfl, rfl, rfl, rfl, nofun⟩
  · exact keeps_gotoEnd env l
  · exact keeps_gotoEnd env l
  · exact keeps_gotoEnd env l

theorem keeps_gotoSendReport (env : Env) (l : Local) : Keeps l (gotoSendReport env l) :=
  keeps_rmStateGoto (keeps_sendReportIn env) l _

theorem keeps_doMeasIn (env : Env) (l : Local) : Keeps l (doMeasIn env l) := by
  unfold doMeasIn doMeasScan
  split_ifs
  · exact keeps_rmPostEvent env l _
  · exact ⟨rfl, rfl, rfl, rfl, nofun⟩
  · exact keeps_rmPostEvent env l _
  · exact keeps_rmPostEvent env l _
  · exact .refl l
  · exact keeps_gotoEnd env l
  · exact keeps_gotoSendReport env l
  · exact keeps_rmPostEvent env l _

theorem keeps_gotoDoMeas (env : Env) (l : Local) : Keeps l (gotoDoMeas env l) :=
  keeps_rmStateGoto (keeps_doMeasIn env) l _

theorem keeps_copyAttrib (env : Env) (l : Local) :
    Keeps l { l with obj := copyAttrib env l.obj } := by
  unfold copyAttrib
  split_ifs <;> exact ⟨rfl, rfl, rfl, rfl, id⟩

theorem keeps_idleIn (env : Env) (l : Local) : Keeps l (idleIn env l) := by
  unfold idleIn
  dsimp only
  split_ifs
  · exact (keeps_copyAttrib env l).trans (keeps_gotoWaitMeas _)
  · exact (keeps_copyAttrib env l).trans (keeps_gotoEnd env _)
  · exact (keeps_copyAttrib env l).trans (keeps_gotoDoMeas env _)

theorem keeps_startMeas (env : Env) (l : Local) : Keeps l (startMeas env l) := by
  unfold startMeas
  split_ifs
  · exact ⟨rfl, rfl, rfl, rfl, nofun⟩
  · exact keeps_gotoEnd env l
  · exact ⟨rfl, rfl, rfl, rfl, nofun⟩

theorem keeps_surveyDone (env : Env) (l : Local) : Keeps l (surveyDone env l) := by
  unfold surveyDone
  split_ifs
  · exact (keeps_gotoSendReport env _).after ⟨rfl, rfl, rfl, rfl, nofun⟩
  · exact keeps_gotoSendReport env l
  · exact ⟨rfl, rfl, rfl, rfl, nofun⟩
  · exact keeps_gotoEnd env l
  · exact .refl l

theorem keeps_waitBusyDec (env : Env) (l : Local) : Keeps l (waitBusyDec env l) := by
  unfold waitBusyDec
  split_ifs
  · exact ⟨rfl, rfl, rfl, rfl, id⟩
  · exact .refl l

theorem keeps_busyTimerExpire (env : Env) (l : Local) : Keeps l (busyTimerExpire env l) := by
  have hwaited := keeps_waitBusyDec env l
  unfold busyTimerExpire
  split_ifs
  · exact hwaited.trans ⟨rfl, rfl, rfl, rfl, nofun⟩
  · exact hwaited.trans ((keeps_gotoEnd env _).after ⟨rfl, rfl, rfl, rfl, id⟩)
  · exact hwaited.trans (keeps_rmPostEvent env _ _)

theorem keeps_rmStateIdle (env : Env) (l : Local) (evid : RmEvId) :
    Keeps l (rmStateIdle env l evid) := by
  unfold rmStateIdle
  dsimp only
  cases evid
  case stateIn => exact (keeps_idleIn env _).after ⟨rfl, rfl, rfl, rfl, id⟩
  case delayTimerExpire => exact (keeps_gotoDoMeas env _).after ⟨rfl, rfl, rfl, rfl, id⟩
  case cancel => exact (keeps_gotoEnd env _).after ⟨rfl, rfl, rfl, rfl, id⟩
  all_goals first | exact ⟨rfl, rfl, rfl, rfl, id⟩ | exact ⟨rfl, rfl, rfl, rfl, nofun⟩

theorem keeps_rmStateDoMeas (env : Env) (l : Local) (evid : RmEvId) :
    Keeps l (rmStateDoMeas env l evid) := by
  cases evid
  case stateIn => exact keeps_doMeasIn env l
  case startMeas => exact keeps_startMeas env l
  case surveyDone => exact keeps_surveyDone env l
  case busyTimerExpire => exact keeps_busyTimerExpire env l
  case retryTimerExpire => exact keeps_rmPostEvent env l _
  case measTimerExpire => exact (keeps_gotoEnd env _).after ⟨rfl, rfl, rfl, rfl, id⟩
  case requestTimerExpire => exact (keeps_gotoEnd env _).after ⟨rfl, rfl, rfl, rfl, id⟩
  case cancel => exact (keeps_gotoEnd env _).after ⟨rfl, rfl, rfl, rfl, id⟩
  all_goals first | exact ⟨rfl, rfl, rfl, rfl, id⟩ | exact ⟨rfl, rfl, rfl, rfl, nofun⟩

theorem keeps_rmStateRun (env : Env) (l : Local) (evid : RmEvId) :
    Keeps l (rmStateRun env l evid) := by
  unfold rmStateRun
  split
  · exact keeps_rmStateIdle env l evid
  · exact keeps_rmStateDoMeas env l evid
  · cases evid
    case recvRep => exact keeps_rmStateGoto (keeps_recvReportIn env) l _
    case requestTimerExpire => exact keeps_gotoEnd env l
    case cancel => exact keeps_gotoEnd env l
    all_goals first | exact ⟨rfl, rfl, rfl, rfl, id⟩ | exact ⟨rfl, rfl, rfl, rfl, nofun⟩
  · cases evid
    case stateIn => exact keeps_sendReportIn env l
    case repeatDelayExpire => exact keeps_gotoDoMeas env l
    case cancel => exact keeps_gotoEnd env l
    all_goals first | exact ⟨rfl, rfl, rfl, rfl, id⟩ | exact ⟨rfl, rfl, rfl, rfl, nofun⟩
  · cases evid
    case stateIn => exact keeps_recvReportIn env l
    case cancel => exact keeps_gotoEnd env l
    all_goals first | exact ⟨rfl, rfl, rfl, rfl, id⟩ | exact ⟨rfl, rfl, rfl, rfl, nofun⟩
  · cases evid
    case stateIn => exact keeps_rmPostEvent env l _
    all_goals exact ⟨rfl, rfl, rfl, rfl, id⟩

end Rtl8821cu.Rm
