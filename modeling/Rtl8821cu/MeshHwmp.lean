import Rtl8821cu.LibRun
import Rtl8821cu.MeshPathtbl

/-! Path selection (`core/mesh/rtw_mesh_hwmp.c`): what the elements of received path selection
frames and broken links do to the table of mesh paths, and the frames they are answered with. -/
namespace Rtl8821cu.Hwmp
open Mesh

def snGt (x y : BitVec 32) : Bool := (y - x).msb

def snLt (x y : BitVec 32) : Bool := (x - y).msb

def snDelta (x y : BitVec 32) : BitVec 32 := if y ≤ x then x - y else y - x

def maxSaneSnDelta : BitVec 32 := 32

def maxMetric : BitVec 32 := 0xffffffff

/-- What the handlers use of the configuration of the interface. -/
structure Cfg where
  macAddr : Mac
  dot11MeshForwarding : Bool
  dot11MeshGateAnnouncementProtocol : Bool
  elementTtl : BitVec 8
  netTraversal : Jiffies
  rootPathConfirmation : Jiffies
  tuToSystime : BitVec 32 → Jiffies

/-- The fields of `struct rtw_mesh_path` that path selection uses. -/
structure Path where
  sn : BitVec 32
  metric : BitVec 32
  active : Bool
  resolving : Bool
  snValid : Bool
  fixed : Bool
  nextHop : Option Mac
  expTime : Jiffies
  isRoot : Bool
  rannMetric : BitVec 32
  rannSndAddr : Mac
  lastPreqToRoot : Jiffies
  isGate : Bool
  gateAnnInt : BitVec 32
  gateAsked : Bool

def meshPathNew (now : Jiffies) : Path where
  sn := 0
  metric := 0
  active := false
  resolving := false
  snValid := false
  fixed := false
  nextHop := none
  expTime := now
  isRoot := false
  rannMetric := 0
  rannSndAddr := Mac.broadcast
  lastPreqToRoot := 0
  isGate := false
  gateAnnInt := 0
  gateAsked := false

namespace Path

/-- `rtw_mpath_expired`. -/
def expired (now : Jiffies) (p : Path) : Bool :=
  p.active && timeAfter now p.expTime && !p.fixed

/-- What `rtw_mpath_lookup` makes of the entry it finds. -/
def looked (now : Jiffies) (p : Path) : Path :=
  if p.expired now then { p with active := false } else p

/-- The later of two expiry times. -/
def laterExp (p : Path) (expTime : Jiffies) : Jiffies :=
  if timeAfter p.expTime expTime then p.expTime else expTime

/-- The gate flags a gate announcement sets or clears. -/
def announce (p : Path) (isGate : Bool) (interval : BitVec 32) : Path :=
  if isGate then { p with gateAnnInt := interval, gateAsked := false, isGate := true }
  else { p with isGate := false }

end Path

/-- The table of mesh paths and what else of `struct rtw_mesh_info` the handlers use. -/
structure State where
  paths : Mac → Option Path
  mpaths : ℤ
  sn : BitVec 32
  lastSnUpdate : Jiffies

/-- The transmitter of a received frame and what the handlers ask for on its way: the time, whether
the station is known, the airtime metric of its link, and whether an entry for an address can be
allocated and inserted. -/
structure Rx where
  ta : Mac
  now : Jiffies
  staKnown : Bool
  lastHopMetric : BitVec 32
  alloc : Mac → Bool

/-- The fields of a PREQ element. -/
structure Preq where
  flags : BitVec 8
  hopcount : BitVec 8
  ttl : BitVec 8
  preqId : BitVec 32
  origAddr : Mac
  origSn : BitVec 32
  lifetime : BitVec 32
  metric : BitVec 32
  targetF : BitVec 8
  targetAddr : Mac
  targetSn : BitVec 32

/-- The fields of a PREP element. -/
structure Prep where
  flags : BitVec 8
  hopcount : BitVec 8
  ttl : BitVec 8
  targetAddr : Mac
  targetSn : BitVec 32
  lifetime : BitVec 32
  metric : BitVec 32
  origAddr : Mac
  origSn : BitVec 32

/-- The fields of a PERR element. -/
structure Perr where
  ttl : BitVec 8
  targetAddr : Mac
  targetSn : BitVec 32
  targetRcode : BitVec 16

/-- The fields of a RANN element. -/
structure Rann where
  flags : BitVec 8
  hopcount : BitVec 8
  ttl : BitVec 8
  addr : Mac
  seq : BitVec 32
  interval : BitVec 32
  metric : BitVec 32

/-- `enum rtw_mpath_frame_type`, without the errors. -/
inductive Action
  | preq
  | prep
  | rann
  deriving DecidableEq

/-- The arguments of `rtw_mesh_path_sel_frame_tx`. -/
structure SelFrame where
  action : Action
  flags : BitVec 8
  origAddr : Mac
  origSn : BitVec 32
  targetFlags : BitVec 8
  target : Option Mac
  targetSn : BitVec 32
  da : Mac
  hopcount : BitVec 8
  ttl : BitVec 8
  lifetime : BitVec 32
  metric : BitVec 32
  preqId : BitVec 32

/-- What a handler sends or queues. -/
inductive Tx
  | sel (f : SelFrame)
  | perr (ttl : BitVec 8) (target : Mac) (targetSn : BitVec 32) (rcode : BitVec 16) (ra : Mac)
  | queuePreq (dst : Mac)

namespace State

def set (s : State) (a : Mac) (p : Path) : State :=
  { s with paths := Function.update s.paths a (some p) }

/-- `rtw_mesh_path_lookup`, for what it does to the entry. -/
def lookup (s : State) (now : Jiffies) (a : Mac) : State :=
  match s.paths a with
  | none => s
  | some p => s.set a (p.looked now)

/-- `rtw_mesh_path_add` of an address that has no entry. -/
def meshPathAdd (s : State) (cfg : Cfg) (rx : Rx) (dst : Mac) : State × Option Path :=
  if dst == cfg.macAddr || dst.isMcast || s.mpaths == maxMpaths then (s, none)
  else if !rx.alloc dst then ({ s with mpaths := s.mpaths + 1 }, none)
  else (({ s with mpaths := s.mpaths + 1 }).set dst (meshPathNew rx.now), some (meshPathNew rx.now))

end State

/-- What an element tells of the station it comes from: the originator of a PREQ, the target of a
PREP. -/
structure Origin where
  addr : Mac
  sn : BitVec 32
  lifetime : BitVec 32
  metric : BitVec 32

def Preq.origin (e : Preq) : Origin := ⟨e.origAddr, e.origSn, e.lifetime, e.metric⟩

def Prep.origin (e : Prep) : Origin := ⟨e.targetAddr, e.targetSn, e.lifetime, e.metric⟩

/-- The metric over the last hop, saturated. -/
def newMetric (metric lastHopMetric : BitVec 32) : BitVec 32 :=
  if metric + lastHopMetric < metric then maxMetric else metric + lastHopMetric

/-- `fresh_info` and `process` for an entry of the originator. -/
def freshInfo (p : Path) (sn metric : BitVec 32) : Bool × Bool :=
  if p.fixed then (false, true)
  else if p.active && p.snValid then
    if snGt p.sn sn || (p.sn == sn && decide (p.metric ≤ metric)) then (false, false)
    else (true, true)
  else if !p.active then
    let haveSn := p.snValid
    let newerSn := haveSn && snGt sn p.sn
    let bounced := haveSn && decide (maxSaneSnDelta < snDelta sn p.sn)
    if !haveSn || newerSn then (true, true)
    else if bounced then (true, true)
    else (false, false)
  else (true, true)

/-- The entry of an originator with fresh information. -/
def Path.originated (p : Path) (ta : Mac) (sn metric : BitVec 32) (expTime : Jiffies) : Path :=
  { p with
    nextHop := some ta
    snValid := true
    metric := metric
    sn := sn
    expTime := p.laterExp expTime
    active := true }

/-- The entry of a transmitter with fresh information. -/
def Path.transmitted (p : Path) (ta : Mac) (metric : BitVec 32) (expTime : Jiffies) : Path :=
  { p with
    nextHop := some ta
    metric := metric
    expTime := p.laterExp expTime
    active := true }

section Handlers

variable (cfg : Cfg) (rx : Rx)

/-- The originator's part of `rtw_hwmp_route_info_get`: the state, and `process` unless no entry
could be added. -/
def originatorInfo (o : Origin) (s : State) : State × Option Bool :=
  let metric := newMetric o.metric rx.lastHopMetric
  let expTime := rx.now + cfg.tuToSystime o.lifetime
  if o.addr == cfg.macAddr then (s, some false)
  else
    let s := s.lookup rx.now o.addr
    match s.paths o.addr with
    | some p =>
      if (freshInfo p o.sn metric).1 then
        (s.set o.addr (p.originated rx.ta o.sn metric expTime), some (freshInfo p o.sn metric).2)
      else (s, some (freshInfo p o.sn metric).2)
    | none =>
      match s.meshPathAdd cfg rx o.addr with
      | (s, none) => (s, none)
      | (s, some p) => (s.set o.addr (p.originated rx.ta o.sn metric expTime), some true)

/-- The transmitter's part of `rtw_hwmp_route_info_get`, `false` where no entry could be added. -/
def transmitterInfo (o : Origin) (s : State) : State × Bool :=
  let expTime := rx.now + cfg.tuToSystime o.lifetime
  if o.addr == rx.ta then (s, true)
  else
    let s := s.lookup rx.now rx.ta
    match s.paths rx.ta with
    | some p =>
      if p.fixed || (p.active && decide (p.metric < rx.lastHopMetric)) then (s, true)
      else (s.set rx.ta (p.transmitted rx.ta rx.lastHopMetric expTime), true)
    | none =>
      match s.meshPathAdd cfg rx rx.ta with
      | (s, none) => (s, false)
      | (s, some p) => (s.set rx.ta (p.transmitted rx.ta rx.lastHopMetric expTime), true)

/-- `rtw_hwmp_route_info_get`. -/
def routeInfoGet (o : Origin) (s : State) : State × BitVec 32 :=
  if !rx.staKnown then (s, 0)
  else
    match originatorInfo cfg rx o s with
    | (s, none) => (s, 0)
    | (s, some process) =>
      match transmitterInfo cfg rx o s with
      | (s, false) => (s, 0)
      | (s, true) => (s, if process then newMetric o.metric rx.lastHopMetric else 0)

/-- The variables of `rtw_hwmp_preq_frame_process` after the target is dealt with; `path` is the
entry its pointer is left at. -/
structure PreqVars where
  state : State
  targetAddr : Mac
  targetSn : BitVec 32
  targetFlags : BitVec 8
  targetMetric : BitVec 32
  reply : Bool
  forward : Bool
  toGateAsk : Bool
  path : Option Path

/-- The bits of the flags of a PREQ and of its target flags. -/
def Preq.isGate (e : Preq) : Bool := e.flags.getLsbD 0

def Preq.proactivePrep (e : Preq) : Bool := e.flags.getLsbD 2

def Preq.targetOnly (e : Preq) : Bool := e.targetF.getLsbD 0

/-- A PREQ for this station. -/
def preqForUs (e : Preq) (s : State) : PreqVars :=
  let old := timeAfter rx.now (s.lastSnUpdate + cfg.netTraversal) || timeAfter s.lastSnUpdate rx.now
  let s := if old then { s with sn := s.sn + 1, lastSnUpdate := rx.now } else s
  ⟨s, e.targetAddr, s.sn, e.targetF, 0, true, false, true, none⟩

/-- A proactive PREQ: its target is the broadcast address. -/
def preqProactive (e : Preq) (s : State) : PreqVars :=
  let s := s.lookup rx.now e.origAddr
  match s.paths e.origAddr with
  | none => ⟨s, e.targetAddr, e.targetSn, e.targetF, 0, false, true, false, none⟩
  | some p =>
    let p' := p.announce e.isGate e.lifetime
    if e.proactivePrep then
      let s := { s with sn := s.sn + 1, lastSnUpdate := rx.now }
      ⟨s.set e.origAddr p', cfg.macAddr, s.sn, e.targetF, 0, true, true, false, some p'⟩
    else ⟨s.set e.origAddr p', e.targetAddr, e.targetSn, e.targetF, 0, false, true, false, some p'⟩

/-- A PREQ for another station: the entry of the target, if there is one, takes a newer sequence
number, or answers. -/
def preqForOther (e : Preq) (s : State) : PreqVars :=
  let s := s.lookup rx.now e.targetAddr
  match s.paths e.targetAddr with
  | none => ⟨s, e.targetAddr, e.targetSn, e.targetF, 0, false, true, false, none⟩
  | some p =>
    if !p.snValid || snLt p.sn e.targetSn then
      let p' := { p with sn := e.targetSn, snValid := true }
      ⟨s.set e.targetAddr p', e.targetAddr, e.targetSn, e.targetF, 0, false, true, false, some p'⟩
    else if !e.targetOnly && p.active then
      ⟨s, e.targetAddr, p.sn, e.targetF ||| 1, p.metric, true, true, false, some p⟩
    else ⟨s, e.targetAddr, e.targetSn, e.targetF, 0, false, true, false, some p⟩

/-- The first half of `rtw_hwmp_preq_frame_process`. -/
def preqVars (e : Preq) (s : State) : PreqVars :=
  if e.targetAddr == cfg.macAddr then preqForUs cfg rx e s
  else if e.targetAddr == Mac.broadcast && e.targetOnly then preqProactive cfg rx e s
  else preqForOther rx e s

/-- The PREP a PREQ is answered with. -/
def preqReply (e : Preq) (v : PreqVars) : List Tx :=
  if v.reply && cfg.elementTtl != 0 then
    [.sel
      { action := .prep
        flags := if v.toGateAsk && cfg.dot11MeshGateAnnouncementProtocol then 0x81 else 0
        origAddr := e.origAddr
        origSn := e.origSn
        targetFlags := 0
        target := some v.targetAddr
        targetSn := v.targetSn
        da := rx.ta
        hopcount := 0
        ttl := cfg.elementTtl
        lifetime := e.lifetime
        metric := v.targetMetric
        preqId := 0 }]
  else []

/-- The PREQ that is sent on. -/
def preqForward (e : Preq) (v : PreqVars) (originatorMetric : BitVec 32) : List Tx :=
  if v.forward && cfg.dot11MeshForwarding && !(decide (e.ttl ≤ 1)) then
    [.sel
      { action := .preq
        flags := e.flags
        origAddr := e.origAddr
        origSn := e.origSn
        targetFlags := v.targetFlags
        target := some (if e.proactivePrep then e.targetAddr else v.targetAddr)
        targetSn := if e.proactivePrep then e.targetSn else v.targetSn
        da := match v.path with
          | some p => if p.isRoot then p.rannSndAddr else Mac.broadcast
          | none => Mac.broadcast
        hopcount := e.hopcount + 1
        ttl := e.ttl - 1
        lifetime := e.lifetime
        metric := originatorMetric
        preqId := e.preqId }]
  else []

/-- `rtw_hwmp_preq_frame_process`. -/
def preqFrameProcess (e : Preq) (originatorMetric : BitVec 32) (s : State) : State × List Tx :=
  let v := preqVars cfg rx e s
  (v.state, preqReply cfg rx e v ++ preqForward cfg e v originatorMetric)

/-- `rtw_hwmp_prep_frame_process`. -/
def prepFrameProcess (e : Prep) (metric : BitVec 32) (s : State) : State × List Tx :=
  if e.origAddr == cfg.macAddr then
    let s := s.lookup rx.now e.targetAddr
    match s.paths e.targetAddr with
    | none => (s, [])
    | some p =>
      if p.gateAsked && e.flags.getLsbD 7 then
        (s.set e.targetAddr
          { p with gateAsked := false, isGate := p.isGate && e.flags.getLsbD 0 }, [])
      else (s, [])
  else if !cfg.dot11MeshForwarding then (s, [])
  else if e.ttl ≤ 1 then (s, [])
  else
    let s := s.lookup rx.now e.origAddr
    match s.paths e.origAddr with
    | none => (s, [])
    | some p =>
      match p.active, p.nextHop with
      | true, some nextHop =>
        (s, [.sel
          { action := .prep
            flags := e.flags
            origAddr := e.origAddr
            origSn := e.origSn
            targetFlags := 0
            target := some e.targetAddr
            targetSn := e.targetSn
            da := nextHop
            hopcount := e.hopcount + 1
            ttl := e.ttl - 1
            lifetime := e.lifetime
            metric := metric
            preqId := 0 }])
      | _, _ => (s, [])

/-- `rtw_hwmp_perr_frame_process`. -/
def perrFrameProcess (e : Perr) (s : State) : State × List Tx :=
  if e.ttl ≤ 1 then (s, [])
  else
    let s := s.lookup rx.now e.targetAddr
    match s.paths e.targetAddr with
    | none => (s, [])
    | some p =>
      if p.active && p.nextHop == some rx.ta && !p.fixed &&
          (!p.snValid || snGt e.targetSn p.sn || e.targetSn == 0) then
        let sn := if e.targetSn != 0 then e.targetSn else p.sn + 1
        (s.set e.targetAddr { p with active := false, sn := sn },
          if cfg.dot11MeshForwarding then
            [.perr (e.ttl - 1) e.targetAddr e.targetSn e.targetRcode Mac.broadcast]
          else [])
      else (s, [])

/-- The check of `rtw_hwmp_rann_frame_process` for a PREQ to the root. -/
def refreshRoot (p : Path) (ttl : BitVec 8) : Bool :=
  (!(p.active || p.resolving) ||
    timeAfter rx.now (p.lastPreqToRoot + cfg.rootPathConfirmation) ||
    timeAfter p.lastPreqToRoot rx.now) && !p.fixed && ttl != 0

/-- The end of `rtw_hwmp_rann_frame_process`, for the entry of the root. -/
def rannPath (e : Rann) (s : State) (p : Path) : State × List Tx :=
  if !snLt p.sn e.seq && !(p.sn == e.seq && decide (e.metric < p.rannMetric)) then (s, [])
  else
    let refresh := refreshRoot cfg rx p e.ttl
    let p' :=
      { p with
        lastPreqToRoot := if refresh then rx.now else p.lastPreqToRoot
        sn := e.seq
        rannMetric := e.metric + rx.lastHopMetric
        isRoot := true
        rannSndAddr := rx.ta }
    (s.set e.addr (p'.announce (e.flags.getLsbD 0) e.interval),
      (if refresh then [.queuePreq e.addr] else []) ++
        (if !(decide (e.ttl ≤ 1)) && cfg.dot11MeshForwarding then
          [.sel
            { action := .rann
              flags := e.flags
              origAddr := e.addr
              origSn := e.seq
              targetFlags := 0
              target := none
              targetSn := 0
              da := Mac.broadcast
              hopcount := e.hopcount + 1
              ttl := e.ttl - 1
              lifetime := e.interval
              metric := e.metric + rx.lastHopMetric
              preqId := 0 }]
        else []))

/-- `rtw_hwmp_rann_frame_process`. -/
def rannFrameProcess (e : Rann) (s : State) : State × List Tx :=
  if e.addr == cfg.macAddr then (s, [])
  else if !rx.staKnown then (s, [])
  else
    let s := s.lookup rx.now e.addr
    match s.paths e.addr with
    | some p => rannPath cfg rx e s p
    | none =>
      match s.meshPathAdd cfg rx e.addr with
      | (s, none) => (s, [])
      | (s, some p) => rannPath cfg rx e s p

/-- What `rtw_mesh_plink_broken` does to one entry. -/
def Path.linkBroken (sta : Mac) (p : Path) : Path :=
  if p.nextHop == some sta && p.active && !p.fixed then
    { p with active := false, sn := p.sn + 1 }
  else p

/-- `rtw_mesh_plink_broken`. -/
def plinkBroken (sta : Mac) (s : State) : State :=
  { s with paths := fun a => (s.paths a).map (Path.linkBroken sta) }

end Handlers

/-- An element of a received path selection frame, or a broken link. -/
inductive Ev
  | preq (rx : Rx) (e : Preq)
  | prep (rx : Rx) (e : Prep)
  | perr (rx : Rx) (e : Perr)
  | rann (rx : Rx) (e : Rann)
  | plinkBroken (now : Jiffies) (sta : Mac)

def Ev.now : Ev → Jiffies
  | .preq rx _ | .prep rx _ | .perr rx _ | .rann rx _ => rx.now
  | .plinkBroken now _ => now

/-- `rtw_mesh_rx_path_sel_frame` for one element, and `rtw_mesh_plink_broken`. -/
def step (cfg : Cfg) (s : State) : Ev → State
  | .preq rx e =>
    let r := routeInfoGet cfg rx e.origin s
    if r.2 == 0 then r.1 else (preqFrameProcess cfg rx e r.2 r.1).1
  | .prep rx e =>
    let r := routeInfoGet cfg rx e.origin s
    if r.2 == 0 then r.1 else (prepFrameProcess cfg rx e r.2 r.1).1
  | .perr rx e => (perrFrameProcess cfg rx e s).1
  | .rann rx e => (rannFrameProcess cfg rx e s).1
  | .plinkBroken _ sta => Hwmp.plinkBroken sta s

end Rtl8821cu.Hwmp
