import Rtl8821cu.MacAddr
import Rtl8821cu.LibRun

/-! The table of scanned networks (`core/rtw_mlme.c`): its records are in a queue or in a pool. -/
namespace Rtl8821cu.ScanTable
open Run

/-- `SCANQUEUE_LIFETIME`, in milliseconds. -/
def scanqueueLifetime : BitVec 32 := 20000

def bssTypeBcn : BitVec 8 := 2

def bssTypeProbRsp : BitVec 8 := 3

/-- The values of `InfrastructureMode` that are told apart. -/
inductive InfraMode
  | infrastructure
  | mesh
  | other
  deriving DecidableEq

/-- What is used of `WLAN_BSSID_EX`; `capability` is the field of its IEs. -/
structure BssidEx where
  macAddress : Mac
  bssType : BitVec 8
  ssid : List (BitVec 8)
  rssi : Int
  infrastructureMode : InfraMode
  signalStrength : BitVec 8
  signalQuality : BitVec 8
  capability : BitVec 16
  ies : List (BitVec 8)
  deriving DecidableEq

structure BeaconKeys where
  ssid : List (BitVec 8)
  others : List (BitVec 8)
  deriving DecidableEq

structure WlanNetwork where
  networkType : ℕ
  fixed : Bool
  lastScanned : BitVec 64
  lastNonHiddenSsidAp : BitVec 64
  aid : Int
  joinRes : Int
  bcnKeys : BeaconKeys
  bcnKeysValid : Bool
  network : BssidEx
  deriving DecidableEq

/-- What a call reads of the adapter: the time and its conversion to milliseconds, whether P2P is
in use, whether the state is that of an ad-hoc network, the network it is associated with together
with the receiver's signal strength and quality, and the reader and comparison of beacon keys. -/
structure Env where
  now : BitVec 64
  systimeToMs : BitVec 64 → BitVec 32
  p2p : Bool
  adhoc : Bool
  asoc : Option (BssidEx × BitVec 8 × BitVec 8)
  getBcnKeysFromBss : BssidEx → Bool × BeaconKeys
  bcnKeyCompare : BeaconKeys → BeaconKeys → Bool

/-- `rtw_get_passing_time_ms`. -/
def Env.passingTimeMs (env : Env) (start : BitVec 64) : BitVec 32 :=
  env.systimeToMs (env.now - start)

def isAllNull (ssid : List (BitVec 8)) : Bool := ssid.all (· == 0)

def isHiddenSsid (ssid : List (BitVec 8)) : Bool := ssid.isEmpty || isAllNull ssid

def isSameNetwork (src dst : BssidEx) (feature : Bool) : Bool :=
  if feature && src.macAddress == dst.macAddress then true
  else if src.macAddress == dst.macAddress &&
      src.capability.getLsbD 1 == dst.capability.getLsbD 1 &&
      src.capability.getLsbD 0 == dst.capability.getLsbD 0 then
    if src.ssid.length == dst.ssid.length &&
        (src.ssid == dst.ssid || isAllNull src.ssid || isAllNull dst.ssid) then true
    else src.ssid.isEmpty || dst.ssid.isEmpty
  else false

def updateNetwork (env : Env) (dst src : BssidEx) (updateIe : Bool) : BssidEx :=
  let mean (a b : BitVec 8) : BitVec 8 := BitVec.ofNat 8 ((a.toNat + b.toNat * 4) / 5)
  let rightCh := src.signalQuality != 101
  let rssi := if rightCh then (src.rssi + dst.rssi * 4).tdiv 5 else dst.rssi
  let signal :=
    match env.asoc.filter fun cur => isSameNetwork cur.1 src false with
    | some (_, strength, quality) => (strength, quality)
    | none =>
      if rightCh then
        (mean src.signalStrength dst.signalStrength, mean src.signalQuality dst.signalQuality)
      else (dst.signalStrength, dst.signalQuality)
  { if updateIe then src else dst with
    signalStrength := signal.1, signalQuality := signal.2, rssi := rssi }

/-- Whether a report is a beacon or a probe response. -/
def BssidEx.isFrame (target : BssidEx) : Bool :=
  target.bssType == bssTypeBcn || target.bssType == bssTypeProbRsp

/-- A record that gets a new network. -/
def WlanNetwork.overwritten (net : WlanNetwork) (env : Env) (target : BssidEx) : WlanNetwork :=
  let net := { net with network := target, bcnKeysValid := false }
  let net :=
    if target.isFrame then
      { net with
        bcnKeysValid := (env.getBcnKeysFromBss target).1
        bcnKeys := (env.getBcnKeysFromBss target).2 }
    else net
  if net.network.signalQuality == 101 then
    { net with network := { net.network with signalQuality := 0 } }
  else net

/-- The fields that are set when a record is taken for a new network. -/
def WlanNetwork.reset (net : WlanNetwork) (env : Env) : WlanNetwork :=
  { net with
    networkType := 0
    fixed := false
    lastScanned := env.now
    lastNonHiddenSsidAp := env.now
    aid := 0
    joinRes := 0 }

/-- Whether the report replaces the record's information elements, and the keys of its beacon: the
end of `rtw_update_scanned_network` for a network that was found. -/
def WlanNetwork.updateIe (net : WlanNetwork) (env : Env) (target : BssidEx) : Bool × BeaconKeys :=
  let (valid, keys) := env.getBcnKeysFromBss target
  if target.infrastructureMode == .mesh || net.network.bssType ≤ target.bssType then (true, keys)
  else if target.infrastructureMode == .infrastructure && !net.fixed &&
      scanqueueLifetime.slt (env.passingTimeMs net.lastNonHiddenSsidAp) then (true, keys)
  else if target.isFrame && valid then
    let keys := if isHiddenSsid keys.ssid then { keys with ssid := net.bcnKeys.ssid } else keys
    (!env.bcnKeyCompare net.bcnKeys keys, keys)
  else (false, keys)

/-- The record of a network that was found. -/
def WlanNetwork.updated (net : WlanNetwork) (env : Env) (target : BssidEx) : WlanNetwork × Bool :=
  let net := { net with lastScanned := env.now }
  let net :=
    if target.isFrame && target.infrastructureMode == .infrastructure &&
        !isHiddenSsid target.ssid then
      { net with lastNonHiddenSsidAp := env.now }
    else net
  let (updateIe, keys) := net.updateIe env target
  let net :=
    if target.isFrame && (env.getBcnKeysFromBss target).1 then
      { net with bcnKeys := keys, bcnKeysValid := true }
    else if updateIe then { net with bcnKeysValid := false }
    else net
  ({ net with network := updateNetwork env net.network target updateIe }, updateIe)

/-- What is used of `struct mlme_priv`; a record is known by its place in `free_bss_buf`. -/
structure Mlme where
  recs : ℕ → WlanNetwork
  scannedQueue : List ℕ
  freeBssPool : List ℕ
  numOfScanned : BitVec 32

/-- The record is that of the report's network. -/
def Same (env : Env) (net : WlanNetwork) (target : BssidEx) : Bool :=
  env.p2p && net.network.macAddress == target.macAddress ||
    isSameNetwork net.network target env.p2p

/-- The loop of `rtw_update_scanned_network`: the record found, and the one chosen to be replaced
so far. With `CONFIG_RSSI_PRIORITY` that is the one with the weakest signal. -/
def search (env : Env) (recs : ℕ → WlanNetwork) (target : BssidEx) :
    List ℕ → Option ℕ → Option ℕ × Option ℕ
  | [], choice => (none, choice)
  | id :: ids, choice =>
    if Same env (recs id) target then (some id, choice)
    else if (recs id).fixed then search env recs target ids choice
    else
      match choice with
      | none => search env recs target ids (some id)
      | some ch =>
        if (recs id).network.signalStrength < (recs ch).network.signalStrength then
          search env recs target ids (some id)
        else search env recs target ids (some ch)

namespace Mlme

def setRec (s : Mlme) (id : ℕ) (net : WlanNetwork) : Mlme :=
  { s with recs := Function.update s.recs id net }

def rtwUpdateScannedNetwork (env : Env) (s : Mlme) (target : BssidEx) : Mlme × Bool :=
  match search env s.recs target s.scannedQueue none with
  | (some id, _) =>
    let r := (s.recs id).updated env target
    (s.setRec id r.1, r.2)
  | (none, choice) =>
    match s.freeBssPool with
    | [] =>
      match choice with
      | none => (s, false)
      | some id => (s.setRec id (((s.recs id).overwritten env target).reset env), false)
    | id :: pool =>
      ({ s.setRec id (((s.recs id).reset env).overwritten env target) with
          freeBssPool := pool
          scannedQueue := s.scannedQueue ++ [id]
          numOfScanned := s.numOfScanned + 1 }, false)

/-- A record goes from its queue to the end of the pool. -/
def toPool (s : Mlme) (id : ℕ) : Mlme :=
  { s with
    scannedQueue := s.scannedQueue.erase id
    freeBssPool := s.freeBssPool ++ [id]
    numOfScanned := s.numOfScanned - 1 }

def rtwFreeNetwork (env : Env) (s : Mlme) (id : ℕ) (isfreeall : Bool) : Mlme :=
  let lifetime := if env.adhoc then 1 else scanqueueLifetime
  if (s.recs id).fixed then s
  else if !isfreeall && env.passingTimeMs (s.recs id).lastScanned < lifetime then s
  else s.toPool id

def rtwFreeNetworkNolock (s : Mlme) (id : ℕ) : Mlme :=
  if (s.recs id).fixed then s else s.toPool id

def rtwFreeNetworkQueue (env : Env) (s : Mlme) (isfreeall : Bool) : Mlme :=
  s.scannedQueue.foldl (fun s id => s.rtwFreeNetwork env id isfreeall) s

end Mlme

/-- A call, or what others write into a record. -/
inductive Ev
  | update (env : Env) (target : BssidEx)
  | freeQueue (env : Env) (isfreeall : Bool)
  | free (env : Env) (id : ℕ) (isfreeall : Bool)
  | freeNolock (id : ℕ)
  | write (id : ℕ) (net : WlanNetwork)

def step (s : Mlme) : Ev → Mlme
  | .update env target => (s.rtwUpdateScannedNetwork env target).1
  | .freeQueue env isfreeall => s.rtwFreeNetworkQueue env isfreeall
  | .free env id isfreeall => s.rtwFreeNetwork env id isfreeall
  | .freeNolock id => s.rtwFreeNetworkNolock id
  | .write id net => s.setRec id net

/-- The table that `rtw_init_mlme_priv` builds: `max_bss_cnt` records, all in the pool. -/
def init (maxBssCnt : BitVec 16) (recs : ℕ → WlanNetwork) : Mlme where
  recs := recs
  scannedQueue := []
  freeBssPool := List.range maxBssCnt.toNat
  numOfScanned := 0

/-- A network that is freed is listed. -/
def Listed (s : Mlme) : Ev → Prop
  | .free _ id _ => id ∈ s.scannedQueue
  | .freeNolock id => id ∈ s.scannedQueue
  | _ => True

end Rtl8821cu.ScanTable
