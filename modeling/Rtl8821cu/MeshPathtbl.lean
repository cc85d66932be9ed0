import Rtl8821cu.LibKeyed
import Rtl8821cu.LibRun
import Rtl8821cu.StaTable

/-! The mesh path table (`core/mesh/rtw_mesh_pathtbl.c`, with `rtw_mesh_nexthop_resolve` and the
transmit tasklet of `core/mesh/rtw_mesh.c`): paths, known gates and the frames that wait for a next
hop. -/
namespace Rtl8821cu.Mesh
open Keyed

abbrev Jiffies := BitVec 64

def timeAfter (a b : Jiffies) : Bool := (b - a).slt 0

/-- The first four bytes of an address, as `be32_to_cpu` reads them. -/
def macHigh (a : Mac) : BitVec 32 :=
  getElem a 0 Mac.zero_lt_six ++ getElem a 1 Mac.one_lt_six ++ getElem a 2 Mac.two_lt_six ++
    getElem a 3 Mac.three_lt_six

/-- The last two bytes of an address, as `be16_to_cpu` reads them. -/
def macLow (a : Mac) : BitVec 16 :=
  getElem a 4 Mac.four_lt_six ++ getElem a 5 Mac.five_lt_six

def macaddrIsLarger (a b : Mac) : Bool :=
  let va := macHigh a
  let vb := macHigh b
  if vb < va then true
  else if va < vb then false
  else decide (macLow b < macLow a)

/-- `RTW_MESH_MAX_MPATHS`. -/
def maxMpaths : ℤ := 1024

/-- `RTW_MESH_FRAME_QUEUE_LEN`. -/
def frameQueueMax : ℕ := 10

/-- What the routines use of the configuration of the interface. -/
structure Cfg where
  macAddr : Mac
  dot11MeshGateAnnouncementProtocol : Bool
  pathGateTimeoutFactor : BitVec 8
  msToSystime : BitVec 32 → Jiffies
  hz : Jiffies

/-- `RTW_MESH_PATH_EXPIRE`. -/
def Cfg.pathExpire (cfg : Cfg) : Jiffies := 600 * cfg.hz

/-- The fields of `struct rtw_mesh_path` that path selection sets. -/
structure Route where
  nextHop : Option StaTable.Slot
  active : Bool
  resolving : Bool
  fixed : Bool
  expTime : Jiffies
  gateTimeout : Jiffies
  gateAnnInt : BitVec 32
  gateAsked : Bool

/-- `struct rtw_mesh_path`, over the frames `F` that wait for it. -/
structure Mpath (F : Type) where
  dst : Mac
  mpp : Mac
  route : Route
  isGate : Bool
  frameQueue : List F
  frameQueueLen : ℕ

def Mpath.setQueue {F : Type} (p : Mpath F) (q : List F) (n : ℕ) : Mpath F :=
  { p with frameQueue := q, frameQueueLen := n }

/-- The table of mesh paths and the one of proxy paths. -/
inductive Tbl
  | mesh
  | mpp
  deriving DecidableEq

/-- What the routines use of `struct rtw_mesh_info`. An entry of a table is told by its address.
`freed` and `posted` are the frames given to `rtw_free_xmitframe` and to `rtw_xmit_posthandle`, and
`arrived` those that came without a next hop. -/
structure MeshInfo (F : Type) where
  paths : Tbl → List (Mpath F)
  mpaths : ℤ
  knownGates : List Mac
  numGates : ℤ
  maxAddrGate : Option Mac
  maxAddrGateIsLargerThanSelf : Bool
  mpathTxQueue : List F
  mpathTxQueueLen : ℕ
  freed : List F
  posted : List F
  arrived : List F

/-- `rtw_mesh_init_mesh_info`. -/
def init (F : Type) : MeshInfo F where
  paths _ := []
  mpaths := 0
  knownGates := []
  numGates := 0
  maxAddrGate := none
  maxAddrGateIsLargerThanSelf := false
  mpathTxQueue := []
  mpathTxQueueLen := 0
  freed := []
  posted := []
  arrived := []

/-- The errors of `rtw_mesh_path_add`; `insert` stands for those of the hash table. -/
inductive Err
  | enotsupp
  | enospc
  | enomem
  | insert
  deriving DecidableEq

def meshPathNew (F : Type) (now : Jiffies) (dst mpp : Mac) : Mpath F where
  dst := dst
  mpp := mpp
  route := ⟨none, false, false, false, now, 0, 0, false⟩
  isGate := false
  frameQueue := []
  frameQueueLen := 0

def mpathExpired {F : Type} (now : Jiffies) (p : Mpath F) : Bool :=
  p.route.active && timeAfter now p.route.expTime && !p.route.fixed

namespace MeshInfo

variable {F : Type} (cfg : Cfg) (s : MeshInfo F)

def find (t : Tbl) (dst : Mac) : Option (Mpath F) := Keyed.find Mpath.dst (s.paths t) dst

def setPaths (t : Tbl) (l : List (Mpath F)) : MeshInfo F :=
  { s with paths := Function.update s.paths t l }

def modify (t : Tbl) (dst : Mac) (f : Mpath F → Mpath F) : MeshInfo F :=
  s.setPaths t (Keyed.modify Mpath.dst (s.paths t) dst f)

def remove (t : Tbl) (dst : Mac) : MeshInfo F :=
  s.setPaths t (Keyed.remove Mpath.dst (s.paths t) dst)

/-- `rtw_mesh_path_add`; `allocOk` and `insertOk` say whether the allocation and the hash table
give way. -/
def meshPathAdd (now : Jiffies) (dst : Mac) (allocOk insertOk : Bool) :
    MeshInfo F × Except Err Mac :=
  if dst = cfg.macAddr then (s, .error .enotsupp)
  else if dst.isMcast then (s, .error .enotsupp)
  else if s.mpaths = maxMpaths then (s, .error .enospc)
  else
    let s := { s with mpaths := s.mpaths + 1 }
    if !allocOk then (s, .error .enomem)
    else if (s.find .mesh dst).isSome then (s, .ok dst)
    else if !insertOk then (s, .error .insert)
    else (s.setPaths .mesh (meshPathNew F now dst Mac.zero :: s.paths .mesh), .ok dst)

def mppPathAdd (now : Jiffies) (dst mpp : Mac) (allocOk insertOk : Bool) : MeshInfo F :=
  if dst = cfg.macAddr then s
  else if dst.isMcast then s
  else if !allocOk then s
  else if (s.find .mpp dst).isSome then s
  else if !insertOk then s
  else s.setPaths .mpp (meshPathNew F now dst mpp :: s.paths .mpp)

/-- The new timeout of a gate in `rtw_mesh_path_add_gate`. -/
def setGateTimeout (now : Jiffies) (p : Mpath F) : Mpath F :=
  { p with
    route := { p.route with
      gateTimeout := now +
        cfg.msToSystime (cfg.pathGateTimeoutFactor.zeroExtend 32 * p.route.gateAnnInt) } }

/-- `rtw_mesh_path_add_gate` of a path of the table. -/
def meshPathAddGate (now : Jiffies) (dst : Mac) : MeshInfo F :=
  match s.find .mesh dst with
  | none => s
  | some p =>
    let s := s.modify .mesh dst (setGateTimeout cfg now)
    if p.isGate then s
    else
      let s := s.modify .mesh dst fun p => { p with isGate := true }
      let oriNumGates := s.numGates
      let s := { s with numGates := s.numGates + 1, knownGates := dst :: s.knownGates }
      if oriNumGates = 0 ∨ s.maxAddrGate.any (macaddrIsLarger dst) then
        { s with
          maxAddrGate := some dst
          maxAddrGateIsLargerThanSelf := macaddrIsLarger dst cfg.macAddr }
      else s

/-- The search of `rtw_mesh_gate_del` for the gate with the largest address. -/
def maxGate (gates : List Mac) : Option Mac :=
  gates.foldl (fun m gate => if m.all (macaddrIsLarger gate) then some gate else m) none

/-- `rtw_mesh_gate_del` of the path `p` of the table `t`. -/
def meshGateDel (t : Tbl) (p : Mpath F) : MeshInfo F :=
  if !p.isGate then s
  else
    let s := s.modify t p.dst fun p => { p with isGate := false }
    let oriNumGates := s.numGates
    let s := { s with knownGates := s.knownGates.erase p.dst, numGates := s.numGates - 1 }
    if oriNumGates = 1 then
      { s with maxAddrGate := none, maxAddrGateIsLargerThanSelf := false }
    else if s.maxAddrGate = some p.dst then
      { s with
        maxAddrGate := maxGate s.knownGates
        maxAddrGateIsLargerThanSelf := (maxGate s.knownGates).any (macaddrIsLarger · cfg.macAddr) }
    else s

/-- `rtw_mesh_gate_del` of the mesh path with an address. -/
def pathGateDel (dst : Mac) : MeshInfo F :=
  match s.find .mesh dst with
  | none => s
  | some p => s.meshGateDel cfg .mesh p

def meshIsPrimaryGate : Bool :=
  cfg.dot11MeshGateAnnouncementProtocol && !s.maxAddrGateIsLargerThanSelf

/-- `rtw_mesh_path_flush_pending` of a path of the table. -/
def meshPathFlushPending (dst : Mac) : MeshInfo F :=
  match s.find .mesh dst with
  | none => s
  | some p =>
    let s := s.modify .mesh dst fun p => p.setQueue [] 0
    { s with freed := s.freed ++ p.frameQueue }

/-- `rtw_mesh_path_free_rcu` of a path that has left the table `t`; its frames are freed. -/
def meshPathFreeRcu (t : Tbl) (p : Mpath F) : MeshInfo F :=
  let s := s.meshGateDel cfg t p
  { s with mpaths := s.mpaths - 1, freed := s.freed ++ p.frameQueue }

/-- `__rtw_mesh_path_del`, and `rtw_table_path_del`. -/
def tablePathDel (t : Tbl) (dst : Mac) : MeshInfo F :=
  match s.find t dst with
  | none => s
  | some p => (s.remove t dst).meshPathFreeRcu cfg t p

/-- A walk over the table `t` that deletes the paths of which `c` holds. -/
def tableFlush (t : Tbl) (c : Mpath F → Bool) : MeshInfo F :=
  (s.paths t).foldl (fun s p => if c p then s.tablePathDel cfg t p.dst else s) s

def meshPathFlushByNexthop (sta : StaTable.Slot) : MeshInfo F :=
  s.tableFlush cfg .mesh fun p => p.route.nextHop = some sta

def mppFlushByProxy (proxy : Mac) : MeshInfo F :=
  s.tableFlush cfg .mpp fun p => p.mpp = proxy

def meshPathFlushByIface : MeshInfo F :=
  (s.tableFlush cfg .mesh fun _ => true).tableFlush cfg .mpp fun _ => true

def meshPathDel (addr : Mac) : MeshInfo F :=
  (s.mppFlushByProxy cfg addr).tablePathDel cfg .mesh addr

/-- The test by which `rtw_mesh_path_tbl_expire` deletes a path. -/
def outdated (now : Jiffies) (p : Mpath F) : Bool :=
  !p.route.resolving && !p.route.fixed && timeAfter now (p.route.expTime + cfg.pathExpire)

/-- What `rtw_mesh_path_tbl_expire` does with a gate that has not been announced for long. -/
def gateExpire (now : Jiffies) (t : Tbl) (dst : Mac) : MeshInfo F :=
  match s.find t dst with
  | none => s
  | some p =>
    if p.isGate && timeAfter now p.route.gateTimeout then
      if p.route.gateAsked then s.meshGateDel cfg t p
      else s.modify t dst fun p => { p with
        route := { p.route with
          gateAsked := true
          gateTimeout := now + cfg.msToSystime p.route.gateAnnInt } }
    else s

def meshPathTblExpire (now : Jiffies) (t : Tbl) : MeshInfo F :=
  (s.paths t).foldl (fun s p =>
    let s := if outdated cfg now p then s.tablePathDel cfg t p.dst else s
    s.gateExpire cfg now t p.dst) s

def meshPathExpire (now : Jiffies) : MeshInfo F :=
  (s.meshPathTblExpire cfg now .mesh).meshPathTblExpire cfg now .mpp

/-- `rtw_mesh_path_lookup` marks a path that is out of date. -/
def lookupMark (now : Jiffies) (dst : Mac) : MeshInfo F :=
  s.modify .mesh dst fun p =>
    if mpathExpired now p then { p with route := { p.route with active := false } } else p

/-- The frame queue of a path, with the oldest frame freed when the queue is full. -/
def queueFrame (dst : Mac) (x : F) : MeshInfo F :=
  match s.find .mesh dst with
  | none => s
  | some p =>
    if p.frameQueueLen ≥ frameQueueMax then
      let s := s.modify .mesh dst fun p =>
        p.setQueue (p.frameQueue.tail ++ [x]) (p.frameQueueLen - 1 + 1)
      { s with freed := s.freed ++ p.frameQueue.take 1 }
    else
      s.modify .mesh dst fun p => p.setQueue (p.frameQueue ++ [x]) (p.frameQueueLen + 1)

/-- `rtw_mesh_nexthop_lookup` gives a next hop. -/
def hasNexthop (dst : Mac) : Bool :=
  (s.find .mesh dst).any fun p => p.route.active && p.route.nextHop.isSome

/-- `rtw_mesh_nexthop_resolve` of the frame `x` to `dst`. -/
def meshNexthopResolve (now : Jiffies) (x : F) (dst : Mac) (allocOk insertOk : Bool) :
    MeshInfo F :=
  let s := s.lookupMark now dst
  if s.hasNexthop dst then s
  else
    let s := { s with arrived := s.arrived ++ [x] }
    if (s.find .mesh dst).isSome then s.queueFrame dst x
    else
      match s.meshPathAdd cfg now dst allocOk insertOk with
      | (s, .error _) => { s with freed := s.freed ++ [x] }
      | (s, .ok dst) => s.queueFrame dst x

theorem meshNexthopResolve_eq (now : Jiffies) (x : F) (dst : Mac) (allocOk insertOk : Bool)
    {t : MeshInfo F}
    (ht : t = { s.lookupMark now dst with arrived := (s.lookupMark now dst).arrived ++ [x] }) :
    s.meshNexthopResolve cfg now x dst allocOk insertOk =
      if (s.lookupMark now dst).hasNexthop dst then s.lookupMark now dst
      else if (t.find .mesh dst).isSome then t.queueFrame dst x
      else
        match t.meshPathAdd cfg now dst allocOk insertOk with
        | (s, .error _) => { s with freed := s.freed ++ [x] }
        | (s, .ok dst) => s.queueFrame dst x := by
  rw [ht]
  rfl

/-- `rtw_mesh_path_tx_pending` of a path of the table. -/
def meshPathTxPending (dst : Mac) : MeshInfo F :=
  match s.find .mesh dst with
  | none => s
  | some p =>
    if p.route.active && p.frameQueueLen != 0 then
      let s := s.modify .mesh dst fun p => p.setQueue [] 0
      { s with
        mpathTxQueue := s.mpathTxQueue ++ p.frameQueue
        mpathTxQueueLen := s.mpathTxQueueLen + p.frameQueueLen }
    else s

/-- The loop of `rtw_mesh_path_move_to_queue`: what stays on `failq`, and its length, and what the
gate holds, and its length. -/
def moveLoop : List F → ℕ → List F → ℕ → (List F × ℕ) × (List F × ℕ)
  | [], failqLen, q, qLen => (([], failqLen), (q, qLen))
  | x :: failq, failqLen, q, qLen =>
    if qLen ≥ frameQueueMax then ((x :: failq, failqLen), (q, qLen))
    else moveLoop failq (failqLen - 1) (q ++ [x]) (qLen + 1)

/-- `rtw_mesh_path_move_to_queue` from the path `src` to the path `gate`. -/
def meshPathMoveToQueue (gate src : Mac) (copy : Bool) : MeshInfo F :=
  match s.find .mesh gate, s.find .mesh src with
  | some g, some p =>
    if gate = src then s
    else if g.route.nextHop = none then s
    else
      let (rest, moved) := moveLoop p.frameQueue p.frameQueueLen g.frameQueue g.frameQueueLen
      let s := s.modify .mesh src fun p => p.setQueue [] 0
      let s := s.modify .mesh gate fun g => g.setQueue moved.1 moved.2
      if !copy then s
      else s.modify .mesh src fun p =>
        p.setQueue (rest.1 ++ p.frameQueue) (p.frameQueueLen + rest.2)
  | _, _ => s

/-- A gate that frames are sent to. -/
def gateActive (gate : Mac) : Bool := (s.find .mesh gate).any fun g => g.route.active

/-- The first loop of `rtw_mesh_path_send_to_gates`, with the path the frames are on and whether
they were moved before. -/
def sendLoop : List Mac → MeshInfo F → Mac → Bool → MeshInfo F
  | [], s, _, _ => s
  | gate :: gates, s, src, copy =>
    if s.gateActive gate then sendLoop gates (s.meshPathMoveToQueue gate src copy) gate true
    else sendLoop gates s src copy

/-- `rtw_mesh_path_send_to_gates` of a path of the table. -/
def meshPathSendToGates (dst : Mac) : MeshInfo F :=
  match s.find .mesh dst with
  | none => s
  | some _ => s.knownGates.foldl meshPathTxPending (sendLoop s.knownGates s dst false)

def mpathTxTaskletHdl : MeshInfo F :=
  if s.mpathTxQueueLen = 0 then s
  else { s with
    mpathTxQueue := []
    mpathTxQueueLen := 0
    posted := s.posted ++ s.mpathTxQueue }

def mpathTxQueueFlush : MeshInfo F :=
  { s with
    mpathTxQueue := []
    mpathTxQueueLen := 0
    freed := s.freed ++ s.mpathTxQueue }

end MeshInfo

/-- What can happen to the tables. `select` is path selection, which sets the route of a path. -/
inductive Op (F : Type)
  | pathAdd (now : Jiffies) (dst : Mac) (allocOk insertOk : Bool)
  | mppPathAdd (now : Jiffies) (dst mpp : Mac) (allocOk insertOk : Bool)
  | pathDel (addr : Mac)
  | flushByNexthop (sta : StaTable.Slot)
  | flushByIface
  | expire (now : Jiffies)
  | addGate (now : Jiffies) (dst : Mac)
  | gateDel (dst : Mac)
  | select (dst : Mac) (route : Route)
  | nexthopResolve (now : Jiffies) (x : F) (dst : Mac) (allocOk insertOk : Bool)
  | txPending (dst : Mac)
  | sendToGates (dst : Mac)
  | flushPending (dst : Mac)
  | txTasklet
  | txQueueFlush

variable {F : Type}

def step (cfg : Cfg) (s : MeshInfo F) : Op F → MeshInfo F
  | .pathAdd now dst allocOk insertOk => (s.meshPathAdd cfg now dst allocOk insertOk).1
  | .mppPathAdd now dst mpp allocOk insertOk => s.mppPathAdd cfg now dst mpp allocOk insertOk
  | .pathDel addr => s.meshPathDel cfg addr
  | .flushByNexthop sta => s.meshPathFlushByNexthop cfg sta
  | .flushByIface => s.meshPathFlushByIface cfg
  | .expire now => s.meshPathExpire cfg now
  | .addGate now dst => s.meshPathAddGate cfg now dst
  | .gateDel dst => s.pathGateDel cfg dst
  | .select dst route => s.modify .mesh dst fun p => { p with route := route }
  | .nexthopResolve now x dst allocOk insertOk =>
    s.meshNexthopResolve cfg now x dst allocOk insertOk
  | .txPending dst => s.meshPathTxPending dst
  | .sendToGates dst => s.meshPathSendToGates dst
  | .flushPending dst => s.meshPathFlushPending dst
  | .txTasklet => s.mpathTxTaskletHdl
  | .txQueueFlush => s.mpathTxQueueFlush

end Rtl8821cu.Mesh
