import Rtl8821cu.MacAddr

/-! How a station joins a network (`core/rtw_mlme_ext.c`): the join command, the beacon it waits
for, authentication, association, the link timer, and the frames, commands and events that end
it or that set up an IBSS. -/
namespace Rtl8821cu.ClntJoin

/-- `pmlmeinfo->state`: the role in the low two bits and the progress of the link above them. -/
abbrev FwState := BitVec 32

def wifiFwNullState : FwState := 0x00

def wifiFwAdhocState : FwState := 0x01

def wifiFwStationState : FwState := 0x02

def wifiFwApState : FwState := 0x03

def wifiFwAuthNull : FwState := 0x00000100

def wifiFwAuthState : FwState := 0x00000200

def wifiFwAuthSuccess : FwState := 0x00000400

def wifiFwAssocState : FwState := 0x00002000

def wifiFwAssocSuccess : FwState := 0x00004000

def wifiFwLinkingState : FwState :=
  wifiFwAuthNull ||| wifiFwAuthState ||| wifiFwAuthSuccess ||| wifiFwAssocState

/-- Some bit of `m` is set. -/
def FwState.has (s m : FwState) : Bool := s &&& m != 0

/-- `s & 0x03`. -/
def FwState.role (s : FwState) : FwState := s &&& 0x03

def reauthTo : ℕ := 300

def reassocTo : ℕ := 300

def reauthLimit : ℕ := 4

def reassocLimit : ℕ := 4

def waitForBcnToMin : ℕ := 6000

def waitForBcnToMax : ℕ := 20000

def maxIeSz : ℕ := 768

def dot11AuthAlgrthmOpen : ℕ := 0

def dot11AuthAlgrthmShared : ℕ := 1

def wlanStatusSuccess : ℕ := 0

def wlanStatusUnspecifiedFailure : ℕ := 1

def wlanReasonPrevAuthNotValid : ℕ := 2

def wlanReasonClass2FrameFromNonauthSta : ℕ := 6

def decideWaitForBeaconTimeout (bcnInterval : ℕ) : ℕ :=
  if bcnInterval * 4 % 2 ^ 32 < waitForBcnToMin then waitForBcnToMin
  else if bcnInterval * 4 % 2 ^ 32 > waitForBcnToMax then waitForBcnToMax
  else bcnInterval * 4 % 2 ^ 32

/-- What the station sends. -/
inductive Frame
  | auth (algo seq : ℕ) (chgTxt : Option (List (BitVec 8)))
  | assocReq
  | deauth
  deriving DecidableEq

/-- What becomes of an event for the command thread: it is queued, there is no memory for it, or
the queue refuses it. -/
inductive Report
  | queued
  | noMem
  | refused
  deriving DecidableEq

/-- The station's own address, whether it uses SAE and whether user space takes the
authentication frames. -/
structure Env where
  mac : Mac
  sae : Bool
  reportMgmt : Bool

/-- The parts of `mlme_ext_priv` and `mlme_ext_info` that a join uses, `extauth_status`, what was
sent, the results reported, the reasons of the `EVT_DEL_STA` events that are queued, and how many
`EVT_ADD_STA` events are. -/
structure Mlme where
  state : FwState
  bssid : Mac
  authAlgo : ℕ
  authSeq : ℕ
  reauthCount : ℕ
  reassocCount : ℕ
  authStatus : ℕ
  chgTxt : List (BitVec 8)
  aid : ℕ
  joinAbort : Bool
  extauthSuccess : Bool
  linkTimer : Option ℕ
  sent : List Frame
  joinRes : List (ℤ × ℕ)
  delSta : List ℕ
  addSta : ℕ

/-- The network of a join command; `chbwOk` tells whether its channel may be used. -/
structure Bss where
  addr : Mac
  ieLength : ℕ
  chbwOk : Bool
  ess : Bool
  ibss : Bool
  bcnInterval : ℕ

/-- A command to create a network: the channel that it asks for, whether it is for an IBSS and, if
so, the network that is created and whether its first beacon can be sent. -/
structure CreateBss where
  reqCh : ℕ
  adhoc : Bool
  addr : Mac
  ieLength : ℕ
  ibss : Bool
  beaconOk : Bool

/-- A beacon and what the station finds out about it: whether a survey is going on, whether its
element lists agree with those of the joined network (`rtw_check_bcn_info`), whether the sender
has an entry, whether it lists a supported rate and there is room for an entry, whether a PMKSA is
cached, and the two settings of the linking test. -/
structure Beacon where
  addr3 : Mac
  scanning : Bool
  bcnInfoOk : Bool
  known : Bool
  rates : Bool
  room : Bool
  pmkid : Bool
  waitDone : Bool
  forceFail : Bool

/-- An authentication frame; `chgTxt` is its challenge text, if it has one. -/
structure Auth where
  da : Mac
  pmkid : Bool
  seq : ℕ
  status : ℕ
  chgTxt : Option (List (BitVec 8))

structure AssocRsp where
  da : Mac
  status : ℕ
  aid : BitVec 16

/-- A deauthentication or disassociation frame. -/
structure Leave where
  addr2 : Mac
  addr3 : Mac
  reason : ℕ

/-- `enum NDIS_802_11_NETWORK_INFRASTRUCTURE`, as `setopmode_hdl` tells its members apart. -/
inductive Opmode
  | ap
  | infrastructure
  | other

namespace Mlme

variable (env : Env) (s : Mlme)

def setLinkTimer (ms : ℕ) : Mlme := { s with linkTimer := some ms }

/-- `_cancel_timer_ex` of the link timer. -/
def cancelLinkTimer : Mlme := { s with linkTimer := none }

def send (f : Frame) : Mlme := { s with sent := s.sent ++ [f] }

def reportJoinRes (r : Report) (aidRes : ℤ) (status : ℕ) : Mlme :=
  match r with
  | .noMem => s
  | .queued | .refused => { s with joinRes := s.joinRes ++ [(aidRes, status)] }

def reportDelStaEvent (r : Report) (reason : ℕ) : Mlme :=
  match r with
  | .queued => { s with delSta := s.delSta ++ [reason] }
  | .noMem | .refused => s

def reportAddStaEvent (r : Report) : Mlme :=
  match r with
  | .queued => { s with addSta := s.addSta + 1 }
  | .noMem | .refused => s

/-- `issue_auth` of a station. -/
def issueAuth : Mlme :=
  let shared := s.authAlgo == dot11AuthAlgrthmShared
  s.send (.auth (if shared then 1 else 0) s.authSeq
    (if s.authSeq == 3 && s.state.has wifiFwAuthState && shared then some s.chgTxt else none))

def startClntAssoc : Mlme :=
  let s := s.cancelLinkTimer
  let s := { s with
    state := s.state &&& ~~~(wifiFwAuthNull ||| wifiFwAuthState) |||
      (wifiFwAuthSuccess ||| wifiFwAssocState) }
  (s.send .assocReq).setLinkTimer reassocTo

def startClntAuth (pmkid : Bool) : Mlme :=
  let s := s.cancelLinkTimer
  let s := { s with
    state := s.state &&& ~~~wifiFwAuthNull ||| wifiFwAuthState
    authSeq := 1
    reauthCount := 0
    reassocCount := 0 }
  if env.sae && !pmkid then s else s.issueAuth.setLinkTimer reauthTo

def startClntJoin (b : Bss) (r : Report) : Mlme :=
  if b.ess then
    { s.setLinkTimer (decideWaitForBeaconTimeout b.bcnInterval) with
      state := wifiFwAuthNull ||| wifiFwStationState }
  else if b.ibss then
    { s with state := wifiFwAdhocState }.reportJoinRes r 1 wlanStatusSuccess
  else s

def joinCmdHdl (b : Bss) (r : Report) : Mlme :=
  let s :=
    if s.state.has wifiFwAssocSuccess then
      let s := if s.state.has wifiFwStationState then s.send .deauth else s
      { s with state := wifiFwNullState }.cancelLinkTimer
    else s
  let s := { s with bssid := b.addr }
  if b.ieLength > maxIeSz then s
  else if b.ieLength < 2 then s.reportJoinRes r (-4) wlanStatusUnspecifiedFailure
  else if !b.chbwOk then s.reportJoinRes r (-4) wlanStatusUnspecifiedFailure
  else s.cancelLinkTimer.startClntJoin b r

def receiveDisconnect (addr : Mac) (reason : ℕ) (r : Report) : Mlme :=
  if addr ≠ s.bssid then s
  else if s.state.role ≠ wifiFwStationState then s
  else if s.state.has wifiFwAssocSuccess then
    let s := s.reportDelStaEvent r reason
    if r = .queued then { s with state := wifiFwNullState } else s
  else if s.state.has wifiFwLinkingState then
    let s := s.reportJoinRes r (-2) reason
    if r = .queued then { s with state := wifiFwNullState } else s
  else s

/-- `OnBeacon` outside a mesh. -/
def onBeacon (b : Beacon) (r : Report) : Mlme :=
  let mine := b.addr3 == s.bssid
  let linked := s.state.role == wifiFwStationState && s.state.has wifiFwAssocSuccess
  if b.scanning then
    if mine && linked && !b.bcnInfoOk then s.receiveDisconnect s.bssid 0 r else s
  else if !mine then s
  else if s.state.has wifiFwAuthNull && (b.waitDone || s.joinAbort) then
    if b.forceFail || s.joinAbort then s.setLinkTimer 1 else s.startClntAuth env b.pmkid
  else if linked then
    if b.known && !b.bcnInfoOk then s.receiveDisconnect s.bssid 0 r else s
  else if s.state.role == wifiFwAdhocState then
    if !b.known && b.rates && b.room then s.reportAddStaEvent r else s
  else s

def mlmeextStaAddEventCallback : Mlme :=
  if s.state.role == wifiFwAdhocState && !s.state.has wifiFwAssocSuccess then
    { s with state := s.state ||| wifiFwAssocSuccess }
  else s

def onAuthClient (f : Auth) : Mlme :=
  let shared := s.authAlgo == dot11AuthAlgrthmShared
  if env.reportMgmt && env.sae && !f.pmkid then s
  else if f.da ≠ env.mac then s
  else if !s.state.has wifiFwAuthState || s.joinAbort then s
  else if f.status ≠ 0 then
    let s :=
      if f.status == 13 then
        { s with authAlgo := if shared then dot11AuthAlgrthmOpen else dot11AuthAlgrthmShared }
      else s
    { s with authStatus := f.status }.setLinkTimer 1
  else if f.seq == 2 then
    if shared then
      match f.chgTxt with
      | none => s
      | some p =>
        if p.length > 128 then s
        else
          { s with chgTxt := p ++ s.chgTxt.drop p.length, authSeq := 3 }.issueAuth.setLinkTimer
            reauthTo
    else s.startClntAssoc
  else if f.seq == 4 then
    if shared then s.startClntAssoc else s
  else s

def onAssocRsp (f : AssocRsp) (r : Report) : Mlme :=
  if f.da ≠ env.mac then s
  else if !s.state.has (wifiFwAuthSuccess ||| wifiFwAssocState) || s.joinAbort then s
  else if s.state.has wifiFwAssocSuccess then s
  else
    let s := s.cancelLinkTimer
    if f.status > 0 then
      { s with state := wifiFwNullState }.reportJoinRes r (-4) f.status
    else
      let aid := (f.aid &&& 0x3fff).toNat
      let s := { s with aid := aid }
      if aid < 1 || aid > 2007 then
        { s with state := wifiFwNullState }.reportJoinRes r (-4) f.status
      else
        { s with state := s.state &&& ~~~wifiFwAssocState ||| wifiFwAssocSuccess }.reportJoinRes r
          aid f.status

/-- `OnDeAuth` of a station. -/
def onDeAuth (f : Leave) (r : Report) : Mlme :=
  if f.addr3 ≠ s.bssid then s
  else
    let ignore := (s.state.has wifiFwAuthState || s.state.has wifiFwAssocState) &&
      (f.reason == wlanReasonClass2FrameFromNonauthSta || f.reason == wlanReasonPrevAuthNotValid)
    if ignore then s else s.receiveDisconnect f.addr2 f.reason r

/-- `OnDisassoc` of a station. -/
def onDisassoc (f : Leave) (r : Report) : Mlme :=
  if f.addr3 ≠ s.bssid then s else s.receiveDisconnect f.addr2 f.reason r

def linkTimerHdl (r : Report) : Mlme :=
  if s.joinAbort && s.state != wifiFwNullState then
    { s with state := wifiFwNullState }.reportJoinRes r (-4) wlanStatusUnspecifiedFailure
  else if s.state.has wifiFwAuthNull then
    { s with state := wifiFwNullState }.reportJoinRes r (-3) wlanStatusUnspecifiedFailure
  else if s.state.has wifiFwAuthState then
    if env.sae then s
    else
      let s := { s with reauthCount := s.reauthCount + 1 }
      if s.reauthCount > reauthLimit then
        let s := { s with state := wifiFwNullState }
        if s.authStatus ≠ 0 then
          { s.reportJoinRes r (-1) s.authStatus with authStatus := 0 }
        else s.reportJoinRes r (-1) wlanStatusUnspecifiedFailure
      else { s with authSeq := 1 }.issueAuth.setLinkTimer reauthTo
  else if s.state.has wifiFwAssocState then
    let s := { s with reassocCount := s.reassocCount + 1 }
    if s.reassocCount > reassocLimit then
      { s with state := wifiFwNullState }.reportJoinRes r (-2) wlanStatusUnspecifiedFailure
    else (s.send .assocReq).setLinkTimer reassocTo
  else s

def rtwMlmeextDisconnect : Mlme := { s with state := wifiFwNullState }.cancelLinkTimer

def isClientAssociatedToAp : Bool :=
  s.state.has wifiFwAssocSuccess && s.state.role == wifiFwStationState

def disconnectHdl : Mlme :=
  (if s.isClientAssociatedToAp then s.send .deauth else s).rtwMlmeextDisconnect

def mlmeextStaDelEventCallback (ibssEmpty : Bool) : Mlme :=
  if s.isClientAssociatedToAp || ibssEmpty then s.rtwMlmeextDisconnect else s

def startCreateIbss (b : CreateBss) (r : Report) : Mlme :=
  if !b.ibss then s
  else
    let s := { s with state := wifiFwAdhocState }
    if b.beaconOk then
      let s := s.reportJoinRes r 1 wlanStatusSuccess
      { s with state := s.state ||| wifiFwAssocSuccess }
    else { s.reportJoinRes r (-1) wlanStatusUnspecifiedFailure with state := wifiFwNullState }

/-- `createbss_hdl`; of `start_bss_network` only that a new access point takes its BSSID. -/
def createbssHdl (b : CreateBss) (r : Report) : Mlme :=
  if b.reqCh ≠ 0 then s
  else if s.state == wifiFwApState then { s with bssid := b.addr }
  else if b.adhoc then
    let s := { s.cancelLinkTimer with bssid := b.addr }
    if b.ieLength > maxIeSz then s else s.startCreateIbss b r
  else s

def setopmodeHdl (mode : Opmode) : Mlme :=
  match mode with
  | .ap => { s with state := wifiFwApState }
  | .infrastructure => { s with state := s.state &&& ~~~0x03 ||| wifiFwStationState }
  | .other => s

def setauthHdl (mode : ℕ) : Mlme := if mode < 4 then { s with authAlgo := mode } else s

end Mlme

/-- What a station meets. The link timer runs out, an abort begins (`_rtw_wait_join_done`) and
ends, and user space reports on its own authentication (`cfg80211_rtw_set_pmksa`). `lost` is a
`receive_disconnect` that the driver itself decides on: after a changed probe response, without an
answer to its checks or to an SA query, and to roam. `addSta` is an `EVT_ADD_STA` event in
`rtw_stassoc_event_callback`; `adhoc` tells whether that is not in AP mode and finds the sender's
entry. `delSta` is an `EVT_DEL_STA` event in `rtw_stadel_event_callback`, whoever reported it;
`client` tells whether that is in neither AP nor mesh mode, `ibssEmpty` is `is_IBSS_empty`. -/
inductive Event
  | setauth (mode : ℕ)
  | setopmode (mode : Opmode)
  | createBss (b : CreateBss) (r : Report)
  | join (b : Bss) (r : Report)
  | beacon (b : Beacon) (r : Report)
  | auth (f : Auth)
  | assocRsp (f : AssocRsp) (r : Report)
  | deauth (f : Leave) (r : Report)
  | disassoc (f : Leave) (r : Report)
  | linkTimer (r : Report)
  | joinAbort
  | joinAbortEnd
  | disconnect
  | extauthStatus (success : Bool)
  | setPmksa
  | lost (reason : ℕ) (r : Report)
  | addSta (adhoc : Bool)
  | delSta (client ibssEmpty : Bool)

def step (env : Env) (s : Mlme) : Event → Mlme
  | .setauth mode => s.setauthHdl mode
  | .setopmode mode => s.setopmodeHdl mode
  | .createBss b r => s.createbssHdl b r
  | .join b r => s.joinCmdHdl b r
  | .beacon b r => s.onBeacon env b r
  | .auth f => s.onAuthClient env f
  | .assocRsp f r => s.onAssocRsp env f r
  | .deauth f r => s.onDeAuth f r
  | .disassoc f r => s.onDisassoc f r
  | .linkTimer r => if s.linkTimer.isSome then s.cancelLinkTimer.linkTimerHdl env r else s
  | .joinAbort => { s with joinAbort := true }.setLinkTimer 1
  | .joinAbortEnd => { s with joinAbort := false }
  | .disconnect => s.disconnectHdl
  | .extauthStatus success => { s with extauthSuccess := success }
  | .setPmksa => if env.sae && s.extauthSuccess then s.startClntAssoc else s
  | .lost reason r => s.receiveDisconnect s.bssid reason r
  | .addSta adhoc =>
    if 0 < s.addSta then
      let s := { s with addSta := s.addSta - 1 }
      if adhoc then s.mlmeextStaAddEventCallback else s
    else s
  | .delSta client ibssEmpty =>
    let s := { s with delSta := s.delSta.tail }
    if client then s.mlmeextStaDelEventCallback ibssEmpty else s

end Rtl8821cu.ClntJoin
