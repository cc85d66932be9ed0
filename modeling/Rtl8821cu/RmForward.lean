import Rtl8821cu.RmTable

/-! A measurement in the queue has a way forward: a pending event or an armed clock. -/
namespace Rtl8821cu.Rm
open Run

/-- The events that move a measurement on from a state it rests in. -/
def wakes (q : RmMeasReq) : RmState → RmEvId → Bool
  | .stDoMeas, .startMeas => true
  | .stDoMeas, .busyTimerExpire => true
  | .stDoMeas, .measTimerExpire => true
  | .stDoMeas, .retryTimerExpire => true
  | .stDoMeas, .surveyDone => q.actionCode == actRadioMeasReq
  | .stWaitMeas, .requestTimerExpire => true
  | .stSendReport, .repeatDelayExpire => true
  | .stEnd, .stateOut => true
  | _, _ => false

/-- Whether `rm_state_do_meas` handles `RM_EV_state_in` when the event is run in this state. -/
def startsMeas (o : RmObj) (evid : RmEvId) : Bool :=
  match o.state, evid with
  | .stIdle, .stateIn => !isMaster o.rmid
  | .stIdle, .delayTimerExpire => true
  | .stDoMeas, .stateIn => true
  | .stSendReport, .repeatDelayExpire => true
  | _, _ => false

/-- A channel load or noise histogram of another channel is not started. -/
def Polls (env : Env) (o : RmObj) (evid : RmEvId) : Prop :=
  startsMeas o evid = true → o.q.actionCode = actRadioMeasReq → loadOrNoise o.q = true →
    o.pollMode = true ∨ (o.state = .stIdle ∧ evid = .stateIn ∧ o.q.chNum = env.curChannel)

/-- A measurement that a state function has taken over and not yet left. -/
structure Clean (l : Local) : Prop where
  rmid : l.obj.rmid ≠ 0
  live : l.freed = false
  posted : .stateOut ∉ l.posted

/-- A measurement that rests in a state which its clock or an event posted for it will end. -/
structure Settled (l : Local) : Prop where
  ready : (0 < l.counter ∧ wakes l.obj.q l.obj.state l.evid = true) ∨
    ∃ evid ∈ l.posted, wakes l.obj.q l.obj.state evid = true
  live : l.freed = false
  posted : .stateOut ∈ l.posted → l.obj.state = .stEnd

theorem settled_rmSetClock {l : Local} (h : Clean l) {ms : ℕ} (hms : clockUnit ≤ ms)
    {evid : RmEvId} (hw : wakes l.obj.q l.obj.state evid = true) :
    Settled (rmSetClock l ms evid) where
  ready := .inl ⟨Nat.div_pos hms (by decide), hw⟩
  live := h.live
  posted hout := absurd hout h.posted

theorem settled_rmPostEvent {env : Env} (hmem : env.mem = true) {l : Local} (h : Clean l)
    {evid : RmEvId} (hne : evid ≠ .evMax) (hw : wakes l.obj.q l.obj.state evid = true)
    (hout : evid = .stateOut → l.obj.state = .stEnd) : Settled (rmPostEvent env l evid) := by
  have hpost : rmPostEvent env l evid = { l with posted := l.posted ++ [evid] } := by
    simp [rmPostEvent, hne, h.rmid, hmem]
  rw [hpost]
  refine ⟨.inr ⟨evid, by simp, hw⟩, h.live, fun hmem => ?_⟩
  rcases List.mem_append.mp hmem with hold | hnew
  · exact absurd hold h.posted
  · exact hout (List.mem_singleton.mp hnew).symm

theorem rmStateOut_of_ne {l : Local} (h : l.obj.state ≠ .stEnd) :
    rmStateOut l = rmCancelClock l := by
  unfold rmStateOut
  split
  · next heq => exact absurd heq h
  · rfl

/-- A state is left for one in which the measurement settles. -/
theorem settled_rmStateGoto {f : Local → Local} {l : Local} {st : RmState} (h : Clean l)
    (hne : l.obj.state ≠ st) (hend : l.obj.state ≠ .stEnd)
    (hf : Clean (setState (rmCancelClock l) st) → Settled (f (setState (rmCancelClock l) st))) :
    Settled (rmStateGoto f l st) := by
  rw [rmStateGoto, if_neg (by simpa using hne), rmStateOut_of_ne hend]
  exact hf ⟨h.rmid, h.live, h.posted⟩

section Handlers

variable {env : Env} (hmem : env.mem = true) {l : Local} (h : Clean l)
include hmem h

theorem settled_gotoEnd (hend : l.obj.state ≠ .stEnd) : Settled (gotoEnd env l) :=
  settled_rmStateGoto h hend hend fun hc => settled_rmPostEvent hmem hc nofun rfl fun _ => rfl

omit hmem in
theorem settled_gotoWaitMeas (hst : l.obj.state ≠ .stWaitMeas) (hend : l.obj.state ≠ .stEnd) :
    Settled (gotoWaitMeas l) :=
  settled_rmStateGoto h hst hend fun hc => settled_rmSetClock hc (by decide) rfl

theorem settled_recvReportIn (hst : l.obj.state = .stRecvReport) :
    Settled (recvReportIn env l) := by
  have hend : l.obj.state ≠ .stEnd := by simp [hst]
  unfold recvReportIn
  split_ifs
  · exact settled_gotoEnd hmem h hend
  · exact settled_gotoWaitMeas ⟨h.rmid, h.live, h.posted⟩ (by simp [hst]) hend
  · exact settled_gotoEnd hmem h hend
  · exact settled_gotoEnd hmem h hend

theorem settled_sendReportIn (hst : l.obj.state = .stSendReport) :
    Settled (sendReportIn env l) := by
  have hend : l.obj.state ≠ .stEnd := by simp [hst]
  have hclock : ∀ ms, clockUnit ≤ ms → Settled (rmSetClock
      { l with obj := { l.obj with p := { l.obj.p with rpt := l.obj.p.rpt - 1 } } } ms
      .repeatDelayExpire) := by
    intro ms hms
    refine settled_rmSetClock ?_ hms ?_
    · exact ⟨h.rmid, h.live, h.posted⟩
    · simp [hst, wakes]
  unfold sendReportIn
  split_ifs
  · exact hclock _ (by decide)
  · exact hclock _ (by decide)
  · exact settled_gotoEnd hmem h hend
  · exact settled_gotoEnd hmem h hend
  · exact settled_gotoEnd hmem h hend

theorem settled_gotoSendReport (hst : l.obj.state ≠ .stSendReport) (hend : l.obj.state ≠ .stEnd) :
    Settled (gotoSendReport env l) :=
  settled_rmStateGoto h hst hend fun hc => settled_sendReportIn hmem hc rfl

theorem settled_doMeasIn (hst : l.obj.state = .stDoMeas)
    (hpoll : l.obj.q.actionCode = actRadioMeasReq → loadOrNoise l.obj.q = true →
      l.obj.pollMode = true) : Settled (doMeasIn env l) := by
  have hend : l.obj.state ≠ .stEnd := by simp [hst]
  have hstart : Settled (rmPostEvent env l .startMeas) :=
    settled_rmPostEvent hmem h nofun (by simp [hst, wakes]) nofun
  unfold doMeasIn doMeasScan
  split_ifs with h1 h2 h3 h4 h5 h6 h7
  · exact settled_rmPostEvent hmem h nofun (by simpa [hst, wakes] using h1) nofun
  · refine settled_rmSetClock ?_ (by decide) ?_
    · exact ⟨h.rmid, h.live, h.posted⟩
    · simp [hst, wakes]
  · exact hstart
  · exact settled_rmPostEvent hmem h nofun (by simpa [hst, wakes] using h1) nofun
  · exact absurd (hpoll (by simpa using h1) h5) h6
  · exact settled_gotoEnd hmem h hend
  · exact settled_gotoSendReport hmem h (by simp [hst]) hend
  · exact hstart

theorem settled_gotoDoMeas (hst : l.obj.state ≠ .stDoMeas) (hend : l.obj.state ≠ .stEnd)
    (hpoll : l.obj.q.actionCode = actRadioMeasReq → loadOrNoise l.obj.q = true →
      l.obj.pollMode = true) : Settled (gotoDoMeas env l) :=
  settled_rmStateGoto h hst hend fun hc => settled_doMeasIn hmem hc rfl hpoll

theorem settled_idleIn (hst : l.obj.state = .stIdle)
    (hpoll : isMaster l.obj.rmid = false → l.obj.q.actionCode = actRadioMeasReq →
      loadOrNoise l.obj.q = true → l.obj.pollMode = true ∨ l.obj.q.chNum = env.curChannel) :
    Settled (idleIn env l) := by
  have hk := keeps_copyAttrib env l
  have hcopy : Clean { l with obj := copyAttrib env l.obj } :=
    ⟨by rw [hk.rmid]; exact h.rmid, h.live, h.posted⟩
  have hst' : (copyAttrib env l.obj).state = .stIdle := by
    unfold copyAttrib
    split_ifs <;> exact hst
  unfold idleIn
  dsimp only
  split_ifs with h1 h2
  · exact settled_gotoWaitMeas hcopy (by simp [hst']) (by simp [hst'])
  · exact settled_gotoEnd hmem hcopy (by simp [hst'])
  · refine settled_gotoDoMeas hmem hcopy (by simp [hst']) (by simp [hst']) ?_
    rw [hk.rmid, Bool.not_eq_true] at h1
    rw [hk.q]
    intro hact hload
    simpa [copyAttrib, hact, hload] using hpoll h1 hact hload

theorem settled_startMeas (hst : l.obj.state = .stDoMeas) : Settled (startMeas env l) := by
  unfold startMeas
  split_ifs
  · refine settled_rmSetClock ?_ (by decide) ?_
    · exact ⟨h.rmid, h.live, h.posted⟩
    · simp [hst, wakes]
  · exact settled_gotoEnd hmem h (by simp [hst])
  · exact settled_rmSetClock h (by decide) (by simp [hst, wakes])

theorem settled_surveyDone (hst : l.obj.state = .stDoMeas)
    (hact : l.obj.q.actionCode = actRadioMeasReq) : Settled (surveyDone env l) := by
  have hend : l.obj.state ≠ .stEnd := by simp [hst]
  have hsend : l.obj.state ≠ .stSendReport := by simp [hst]
  unfold surveyDone
  rw [if_pos (by simpa using hact)]
  split_ifs
  · exact settled_gotoSendReport hmem ⟨h.rmid, h.live, h.posted⟩ hsend hend
  · exact settled_gotoSendReport hmem h hsend hend
  · exact settled_rmSetClock h (by decide) (by simp [hst, wakes])
  · exact settled_gotoEnd hmem h hend

theorem settled_busyTimerExpire (hst : l.obj.state = .stDoMeas) :
    Settled (busyTimerExpire env l) := by
  have hwaited : Clean (waitBusyDec env l) ∧ (waitBusyDec env l).obj.state = .stDoMeas := by
    unfold waitBusyDec
    split_ifs
    · exact ⟨⟨h.rmid, h.live, h.posted⟩, hst⟩
    · exact ⟨h, hst⟩
  obtain ⟨hc, hst'⟩ := hwaited
  unfold busyTimerExpire
  split_ifs
  · exact settled_rmSetClock hc (by decide) (by simp [hst', wakes])
  · refine settled_gotoEnd hmem ⟨hc.rmid, hc.live, hc.posted⟩ ?_
    simp [rmSetRepMode, hst']
  · exact settled_rmPostEvent hmem hc nofun (by simp [hst', wakes]) nofun

end Handlers

/-- The measurement rests where it was, and the event was not one that it waits for. -/
structure Unmoved (l l' : Local) (ev : RmEvId) : Prop where
  state : l'.obj.state = l.obj.state
  counter : l'.counter = l.counter
  evid : l'.evid = l.evid
  posted : l'.posted = l.posted
  live : l'.freed = l.freed
  asleep : wakes l.obj.q l.obj.state ev = false

/-- What `RM_EV_state_in` does in any state. -/
theorem rmStateRun_stateIn {env : Env} (hmem : env.mem = true) {l : Local} (h : Clean l)
    (hpoll : Polls env l.obj .stateIn) : Settled (rmStateRun env l .stateIn) := by
  unfold rmStateRun
  unfold Polls at hpoll
  cases hst : l.obj.state <;> simp only [hst, startsMeas] at hpoll ⊢
  case stIdle =>
    refine settled_idleIn hmem ⟨h.rmid, h.live, h.posted⟩ hst fun hm hact hload => ?_
    rcases hpoll (by simp [hm]) hact hload with hp | ⟨-, -, hch⟩
    · exact .inl hp
    · exact .inr hch
  case stDoMeas =>
    refine settled_doMeasIn hmem h hst fun hact hload => ?_
    simpa using hpoll trivial hact hload
  case stWaitMeas => exact settled_rmSetClock h (by decide) (by simp [hst, wakes])
  case stSendReport => exact settled_sendReportIn hmem h hst
  case stRecvReport => exact settled_recvReportIn hmem h hst
  case stEnd =>
    exact settled_rmPostEvent hmem h nofun (by simp [hst, wakes]) fun _ => hst

/-- What any other event but `RM_EV_state_out` does. -/
theorem rmStateRun_event {env : Env} (hmem : env.mem = true) {l : Local} (h : Clean l)
    {evid : RmEvId} (hne : evid ≠ .stateOut) (hpoll : Polls env l.obj evid) :
    (rmStateRun env l evid).freed = true ∨ Settled (rmStateRun env l evid) ∨
      Unmoved l (rmStateRun env l evid) evid := by
  by_cases hin : evid = .stateIn
  · subst hin
    exact .inr (.inl (rmStateRun_stateIn hmem h hpoll))
  unfold rmStateRun
  unfold Polls at hpoll
  cases hst : l.obj.state <;> simp only [hst, startsMeas] at hpoll ⊢
  case stIdle =>
    cases evid
    case stateIn => exact absurd rfl hin
    case stateOut => exact absurd rfl hne
    case delayTimerExpire =>
      refine .inr (.inl (settled_gotoDoMeas hmem ?_ ?_ ?_ ?_))
      · exact ⟨h.rmid, h.live, h.posted⟩
      · simp [hst]
      · simp [hst]
      · intro hact hload
        simpa using hpoll rfl hact hload
    case cancel =>
      refine .inr (.inl (settled_gotoEnd hmem ?_ ?_))
      · exact ⟨h.rmid, h.live, h.posted⟩
      · simp [hst]
    all_goals exact .inr (.inr ⟨rfl, rfl, rfl, rfl, rfl, by rw [hst]; rfl⟩)
  case stDoMeas =>
    have hend : Settled (gotoEnd env (rmSetRepMode l measRepModRefuse)) := by
      refine settled_gotoEnd hmem ?_ ?_
      · exact ⟨h.rmid, h.live, h.posted⟩
      · simp [rmSetRepMode, hst]
    cases evid
    case stateIn => exact absurd rfl hin
    case stateOut => exact absurd rfl hne
    case startMeas => exact .inr (.inl (settled_startMeas hmem h hst))
    case surveyDone =>
      by_cases hact : l.obj.q.actionCode = actRadioMeasReq
      · exact .inr (.inl (settled_surveyDone hmem h hst hact))
      · have hsame : surveyDone env l = l := by simp [surveyDone, hact]
        simp only [rmStateDoMeas, hsame]
        exact .inr (.inr ⟨rfl, rfl, rfl, rfl, rfl, by simpa [hst, wakes] using hact⟩)
    case measTimerExpire => exact .inr (.inl hend)
    case busyTimerExpire => exact .inr (.inl (settled_busyTimerExpire hmem h hst))
    case requestTimerExpire => exact .inr (.inl hend)
    case retryTimerExpire =>
      exact .inr (.inl (settled_rmPostEvent hmem h nofun (by simp [hst, wakes]) nofun))
    case cancel => exact .inr (.inl hend)
    all_goals exact .inr (.inr ⟨rfl, rfl, rfl, rfl, rfl, by rw [hst]; rfl⟩)
  case stWaitMeas =>
    cases evid
    case stateIn => exact absurd rfl hin
    case stateOut => exact absurd rfl hne
    case recvRep =>
      refine .inr (.inl (settled_rmStateGoto h ?_ ?_ fun hc => settled_recvReportIn hmem hc rfl))
      · simp [hst]
      · simp [hst]
    case requestTimerExpire => exact .inr (.inl (settled_gotoEnd hmem h (by simp [hst])))
    case cancel => exact .inr (.inl (settled_gotoEnd hmem h (by simp [hst])))
    all_goals exact .inr (.inr ⟨rfl, rfl, rfl, rfl, rfl, by rw [hst]; rfl⟩)
  case stSendReport =>
    cases evid
    case stateIn => exact absurd rfl hin
    case stateOut => exact absurd rfl hne
    case repeatDelayExpire =>
      refine .inr (.inl (settled_gotoDoMeas hmem h (by simp [hst]) (by simp [hst]) ?_))
      intro hact hload
      simpa using hpoll rfl hact hload
    case cancel => exact .inr (.inl (settled_gotoEnd hmem h (by simp [hst])))
    all_goals exact .inr (.inr ⟨rfl, rfl, rfl, rfl, rfl, by rw [hst]; rfl⟩)
  case stRecvReport =>
    cases evid
    case stateIn => exact absurd rfl hin
    case stateOut => exact absurd rfl hne
    case cancel => exact .inr (.inl (settled_gotoEnd hmem h (by simp [hst])))
    all_goals exact .inr (.inr ⟨rfl, rfl, rfl, rfl, rfl, by rw [hst]; rfl⟩)
  case stEnd =>
    refine .inl ?_
    cases evid
    case stateIn => exact absurd rfl hin
    all_goals rfl

theorem rmStateRun_stateOut (env : Env) (l : Local) :
    (rmStateRun env l .stateOut).freed = true ∨
      ((rmStateRun env l .stateOut).obj.state = l.obj.state ∧
        (rmStateRun env l .stateOut).posted = l.posted) := by
  unfold rmStateRun
  cases hst : l.obj.state
  case stEnd => exact .inl rfl
  all_goals exact .inr ⟨hst, rfl⟩

end Rtl8821cu.Rm
