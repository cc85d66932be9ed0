import Rtl8821cu.LibLeWord
import Rtl8821cu.MacAddr

/-! The HT capabilities of an association response (`core/rtw_wlan_util.c`, `core/rtw_mlme_ext.c`):
the bytes of the frame that are read and those of the adapter that are written. -/
namespace Rtl8821cu.HtCaps
open LeWord

/-- What the handler reads of the adapter besides its HT state. -/
structure HtEnv where
  defaultSupportedMcsSet : ℕ → BitVec 8
  rxNss : ℕ
  apState : Bool

/-- What is used of `ht_priv` and `mlme_ext_info`; `info` are the cells from `HT_cap` on, the
26 bytes of `HT_cap` and what lies behind them. -/
structure HtState where
  htOption : Bool
  htCapsEnable : Bool
  ldpcCap : BitVec 8
  stbcCap : BitVec 8
  beamformCap : BitVec 8
  info : ℕ → BitVec 8

/-- A state, the places of the frame read on the way to it and those from `HT_cap` on written. -/
structure Machine where
  state : HtState
  reads : List ℕ
  writes : List ℕ

namespace Machine

def read (m : Machine) (l : List ℕ) : Machine := { m with reads := m.reads ++ l }

def write (m : Machine) (o : ℕ) (v : BitVec 8) : Machine :=
  { m with
    state := { m.state with info := Function.update m.state.info o v }
    writes := m.writes ++ [o] }

end Machine

def testFlag (cap flag : BitVec 8) : Bool := cap &&& flag != 0

/-- One turn of the loop over the element; at place 2 are the AMPDU parameters. -/
def capTurn (frame : ℕ → BitVec 8) (pIE : ℕ) (m : Machine) (i : ℕ) : Machine :=
  let data := frame (pIE + 2 + i)
  let own := m.state.info i
  let v :=
    if i ≠ 2 then own &&& data
    else
      let maxAmpduLen := if data &&& 0x3 < own &&& 0x3 then data &&& 0x3 else own &&& 0x3
      let minMpduSpacing := if data &&& 0x1c < own &&& 0x1c then own &&& 0x1c else data &&& 0x1c
      maxAmpduLen ||| minMpduSpacing
  (m.read [pIE + 2 + i]).write i v

/-- `MCS_rate[i] &= v`. -/
def andMcsRate (v : ℕ → BitVec 8) (m : Machine) (i : ℕ) : Machine :=
  m.write (3 + i) (m.state.info (3 + i) &&& v i)

def setMcsRateByMask (mask : BitVec 32) (m : Machine) : Machine :=
  (List.range 4).foldl (andMcsRate fun i => mask.extractLsb' (8 * i) 8) m

/-- The mask for a number of receive streams; another number is only warned about. -/
def mcsRateMask : ℕ → Option (BitVec 32)
  | 1 => some 0x000000ff
  | 2 => some 0x0000ffff
  | 3 => some 0x00ffffff
  | 4 => some 0xffffffff
  | _ => none

def updateMcsSet (env : HtEnv) (m : Machine) : Machine :=
  let m := (List.range 16).foldl (andMcsRate env.defaultSupportedMcsSet) m
  match mcsRateMask env.rxNss with
  | some mask => setMcsRateByMask mask m
  | none => m

/-- The LDPC setting, `LDPC_HT_ENABLE_TX` and `LDPC_HT_CAP_TX`; without the flag the element is not
read. -/
def configLdpc (frame : ℕ → BitVec 8) (pIE : ℕ) (m : Machine) : Machine :=
  if testFlag m.state.ldpcCap 0x2 then
    let cap := if (frame (pIE + 2)).getLsbD 0 then 0xa else 0
    let m := m.read [pIE + 2]
    { m with state := { m.state with ldpcCap := cap } }
  else { m with state := { m.state with ldpcCap := 0 } }

/-- The STBC setting; `enable` is what the element makes of `STBC_HT_ENABLE_TX`. -/
def configStbc (frame : ℕ → BitVec 8) (pIE : ℕ) (enable : BitVec 8) (m : Machine) : Machine :=
  if testFlag m.state.stbcCap 0x2 then
    let cap := if frame (pIE + 3) &&& 0x3 != 0 then enable else 0
    let m := m.read [pIE + 3]
    { m with state := { m.state with stbcCap := cap } }
  else { m with state := { m.state with stbcCap := 0 } }

/-- The four bytes of the beamforming capabilities. -/
def txbfPlaces (pIE : ℕ) : List ℕ := [pIE + 23, pIE + 24, pIE + 25, pIE + 26]

/-- The beamforming setting: `steering` is the flag for `EXPLICIT_COMP_STEERING_CAP`, `feedback` the
one for `EXPLICIT_COMP_FEEDBACK_CAP`. -/
def configBeamforming (frame : ℕ → BitVec 8) (pIE : ℕ) (steering feedback : BitVec 8)
    (m : Machine) : Machine :=
  let txbf := wordAt frame (pIE + 23)
  let test1 := testFlag m.state.beamformCap steering
  let test2 := testFlag m.state.beamformCap feedback
  let cap1 : BitVec 8 :=
    if test1 && getBits txbf 10 1 != 0 then
      steering ||| ((getBits txbf 27 2).setWidth 8 <<< 6)
    else 0
  let cap2 : BitVec 8 :=
    if test2 && getBits txbf 15 2 != 0 then
      feedback ||| ((getBits txbf 23 2).setWidth 8 <<< 4)
    else 0
  let m := if test1 then m.read (txbfPlaces pIE) else m
  let m := if test2 then m.read (txbfPlaces pIE) else m
  { m with state := { m.state with beamformCap := cap1 ||| cap2 } }

/-- `HT_caps_handler`. On a little-endian host the conversions of `HT_caps_info` and `HT_ext_caps`
do nothing. -/
def htCapsHandler (env : HtEnv) (frame : ℕ → BitVec 8) (pIE : ℕ) (s : HtState) : Machine :=
  if !s.htOption then ⟨s, [], []⟩
  else
    let m : Machine := ⟨{ s with htCapsEnable := true }, [pIE + 1], []⟩
    let m := (List.range (frame (pIE + 1)).toNat).foldl (capTurn frame pIE) m
    let m := updateMcsSet env m
    if env.apState then configBeamforming frame pIE 0x1 0x2 (configStbc frame pIE 0x2 m)
    else
      configBeamforming frame pIE 0x2 0x1
        (configStbc frame pIE 0xa (configLdpc frame pIE m))

/-- What `OnAssocRsp` reads of the adapter, and what the handlers of the other elements make of the
HT state. -/
structure AssocEnv where
  ht : HtEnv
  macAddr : Mac
  state : BitVec 32
  joinAbort : Bool
  other : ℕ → HtState → HtState

def htCapabilityIe : BitVec 8 := 45

def getDa (frame : ℕ → BitVec 8) : Mac :=
  let addr := if (frame 1).getLsbD 0 then 16 else 4
  Vector.ofFn fun i : Fin 6 => frame (addr + i)

/-- `le16_to_cpu` of two bytes. -/
def le16 (frame : ℕ → BitVec 8) (a : ℕ) : BitVec 16 := frame (a + 1) ++ frame a

/-- `OnAssocRsp` comes to the elements. -/
def accepts (env : AssocEnv) (frame : ℕ → BitVec 8) : Bool :=
  let aid := (le16 frame 28 &&& 0x3fff).toNat
  env.macAddr == getDa frame && env.state &&& 0x2400 != 0 && !env.joinAbort &&
    env.state &&& 0x4000 == 0 && le16 frame 26 == 0 && decide (1 ≤ aid ∧ aid ≤ 2007)

/-- The loop over the elements: the state at its end, and the calls of `HT_caps_handler` with the
place of the element and the state before the call. -/
def elementLoop (env : AssocEnv) (frame : ℕ → BitVec 8) (pktLen i : ℕ) (s : HtState) :
    HtState × List (ℕ × HtState) :=
  if i < pktLen then
    let next := i + ((frame (i + 1)).toNat + 2)
    if frame i = htCapabilityIe then
      let rest := elementLoop env frame pktLen next (htCapsHandler env.ht frame i s).state
      (rest.1, (i, s) :: rest.2)
    else elementLoop env frame pktLen next (env.other i s)
  else (s, [])
termination_by pktLen - i

/-- `OnAssocRsp`, as far as its elements are concerned. -/
def onAssocRsp (env : AssocEnv) (frame : ℕ → BitVec 8) (pktLen : ℕ) (s : HtState) :
    HtState × List (ℕ × HtState) :=
  if accepts env frame then elementLoop env frame pktLen 30 s else (s, [])

end Rtl8821cu.HtCaps
