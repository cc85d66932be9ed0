import Rtl8821cu.LibWordMap

/-! The mac-id table and the security CAM of one device (`core/rtw_wlan_util.c`). A station is
named by the address of its `sta_info`. -/
namespace Rtl8821cu.Dvobj
open Bitmap

abbrev MacAddr := BitVec 48

def bcAddr : MacAddr := BitVec.allOnes 48

def rtwDefaultMgmtMacid : ℕ := 1

def invalidSecMacCamId : ℕ := 0xFF

/-- What the build and the HAL fix for a device with `n` interfaces: software limits, table
sizes, `SEC_CAP_*` capabilities and the interface addresses. -/
structure Cfg (n : ℕ) where
  macidNumSwLimit : ℕ
  secCamEntNumSwLimit : ℕ
  macidNum : ℕ
  secCamNum : ℕ
  secCapChkBmc : Bool
  secCapChkExtraSec : Bool
  adapterMacAddr : Fin n → MacAddr
  ifaces_le : n ≤ 8
  macidLimit_le : macidNumSwLimit ≤ 128
  secCamLimit_le : secCamEntNumSwLimit ≤ 128
  macidNum_le : macidNum ≤ macidNumSwLimit
  secCamNum_le : secCamNum ≤ secCamEntNumSwLimit
  mgmtMacid_lt : 1 < macidNum

/-- The default build on an 8821C with one interface. -/
def cfg8821c (adapterMacAddr : MacAddr) : Cfg 1 :=
  { macidNumSwLimit := 32, secCamEntNumSwLimit := 32, macidNum := 32, secCamNum := 32
    secCapChkBmc := true, secCapChkExtraSec := true, adapterMacAddr := fun _ => adapterMacAddr
    ifaces_le := by decide, macidLimit_le := by decide, secCamLimit_le := by decide
    macidNum_le := by decide, secCamNum_le := by decide, mgmtMacid_lt := by decide }

/-- `struct macid_ctl_t`. -/
structure MacidCtl (n : ℕ) where
  used : WordMap
  bmc : WordMap
  ifG : Fin n → WordMap
  chG : Fin 2 → WordMap
  ifaceBmc : Fin n → ℕ
  sta : ℕ → Option ℕ
  h2cMsr : ℕ → BitVec 8
  opNum : ℕ → BitVec 8

structure SecCamEnt where
  ctrl : BitVec 16
  mac : MacAddr
  key : BitVec 128
  deriving DecidableEq

/-- The parts of `struct dvobj_priv` that mac-id and CAM allocation read and write. -/
structure DvobjPriv (n : ℕ) where
  macidCtl : MacidCtl n
  camUsed : WordMap
  camCache : ℕ → SecCamEnt

variable {n : ℕ}

section Macid
variable (cfg : Cfg n)

def rtwMacidIsSet (map : WordMap) (id : ℕ) : Bool := isSet cfg.macidNumSwLimit map id

def rtwMacidMapSet (map : WordMap) (id : ℕ) : WordMap := set cfg.macidNumSwLimit map id

def rtwMacidMapClr (map : WordMap) (id : ℕ) : WordMap := clr cfg.macidNumSwLimit map id

def rtwMacidIsUsed (m : MacidCtl n) (id : ℕ) : Bool := rtwMacidIsSet cfg m.used id

def rtwMacidGetIfaceBmp (m : MacidCtl n) (id : ℕ) : BitVec 8 :=
  (List.finRange n).foldl
    (fun bmp i => if rtwMacidIsSet cfg (m.ifG i) id then bmp ||| BitVec.twoPow 8 i else bmp) 0

def rtwIfaceBcmcIdSet (m : MacidCtl n) (iface : Fin n) (macId : ℕ) : MacidCtl n :=
  { m with ifaceBmc := Function.update m.ifaceBmc iface macId }

/-- On zeroed memory, as in `dvobj_priv` at start-up. -/
def rtwMacidCtlInit : MacidCtl n :=
  { used := rtwMacidMapSet cfg empty rtwDefaultMgmtMacid
    bmc := rtwMacidMapSet cfg empty rtwDefaultMgmtMacid
    ifG := fun _ => rtwMacidMapSet cfg empty rtwDefaultMgmtMacid
    chG := fun _ => empty
    ifaceBmc := fun _ => 0
    sta := fun _ => none
    h2cMsr := fun _ => 0
    opNum := fun _ => 0 }

end Macid

section Cam
variable (cfg : Cfg n)

def rtwSecCamidIsSet (map : WordMap) (id : ℕ) : Bool := isSet cfg.secCamEntNumSwLimit map id

def rtwSecCamMapSet (map : WordMap) (id : ℕ) : WordMap := set cfg.secCamEntNumSwLimit map id

def rtwSecCamMapClr (map : WordMap) (id : ℕ) : WordMap := clr cfg.secCamEntNumSwLimit map id

def rtwSecCamidIsUsed (d : DvobjPriv n) (id : ℕ) : Bool :=
  if cfg.secCamNum ≤ id then false else rtwSecCamidIsSet cfg d.camUsed id

/-- Marks `id`, and `id + 1` with it when the entry takes two slots. -/
def rtwSecCamMapSetPair (map : WordMap) (id : ℕ) (ext : Bool) : WordMap :=
  let map := rtwSecCamMapSet cfg map id
  if ext then rtwSecCamMapSet cfg map (id + 1) else map

end Cam

section Alloc
variable (cfg : Cfg n)

/-- The search of `rtw_alloc_macid`; `none` is the loop running out at `macid_ctl->num`. -/
def freeMacid (d : DvobjPriv n) (isBcSta : Bool) : Option ℕ :=
  (List.range cfg.macidNum).find? fun i =>
    !(isBcSta && rtwSecCamidIsUsed cfg d i) && !rtwMacidIsUsed cfg d.macidCtl i

/-- Returns the `mac_id` it stores; `staMode` is `MLME_IS_STA || MLME_IS_NULL`. -/
def rtwAllocMacid (d : DvobjPriv n) (iface : Fin n) (staMode : Bool) (psta : ℕ) (macAddr : MacAddr) :
    DvobjPriv n × ℕ :=
  if macAddr = cfg.adapterMacAddr iface then (d, cfg.macidNum)
  else
    let isBcSta := decide (macAddr = bcAddr)
    let d := if isBcSta then
        { d with macidCtl := rtwIfaceBcmcIdSet d.macidCtl iface invalidSecMacCamId } else d
    if isBcSta && staMode then (d, rtwDefaultMgmtMacid)
    else
      match freeMacid cfg d isBcSta with
      | none => (d, cfg.macidNum)
      | some i =>
          let m := { d.macidCtl with used := rtwMacidMapSet cfg d.macidCtl.used i }
          let m := if isBcSta then
              rtwIfaceBcmcIdSet { m with bmc := rtwMacidMapSet cfg m.bmc i } iface i else m
          let camUsed := if isBcSta then
              rtwSecCamMapSetPair cfg d.camUsed i cfg.secCapChkExtraSec else d.camUsed
          let m := { m with
            ifG := Function.update m.ifG iface (rtwMacidMapSet cfg (m.ifG iface) i)
            sta := Function.update m.sta i (some psta) }
          ({ d with macidCtl := m, camUsed := camUsed }, i)

/-- What releasing a broadcast station does to the CAM slots of its interface. -/
def releaseBcmcCam (d : DvobjPriv n) (iface : Fin n) : DvobjPriv n :=
  let id := d.macidCtl.ifaceBmc iface
  let camUsed :=
    if id ≠ invalidSecMacCamId ∧ id < cfg.secCamNum then
      let map := rtwSecCamMapClr cfg d.camUsed id
      if cfg.secCapChkExtraSec then rtwSecCamMapClr cfg map (id + 1) else map
    else d.camUsed
  { d with
    macidCtl := rtwIfaceBcmcIdSet d.macidCtl iface invalidSecMacCamId
    camUsed := camUsed }

/-- Afterwards the caller's `mac_id` is `macid_ctl->num`. -/
def rtwReleaseMacid (d : DvobjPriv n) (iface : Fin n) (macAddr : MacAddr) (macId : ℕ) : DvobjPriv n :=
  if macAddr = cfg.adapterMacAddr iface then d
  else if cfg.macidNum ≤ macId then d
  else if macId = rtwDefaultMgmtMacid then d
  else if !rtwMacidIsUsed cfg d.macidCtl macId then d
  else
    let ifbmp := rtwMacidGetIfaceBmp cfg d.macidCtl macId
    if ifbmp &&& BitVec.twoPow 8 iface = 0 then d
    else
      let d := if macAddr = bcAddr then releaseBcmcCam cfg d iface else d
      let m := d.macidCtl
      let m := { m with
        ifG := Function.update m.ifG iface (rtwMacidMapClr cfg (m.ifG iface) macId) }
      let m := if ifbmp &&& ~~~BitVec.twoPow 8 iface = 0 then
          { m with
            used := rtwMacidMapClr cfg m.used macId
            bmc := rtwMacidMapClr cfg m.bmc macId
            chG := fun i => rtwMacidMapClr cfg (m.chG i) macId
            sta := Function.update m.sta macId none }
        else m
      { d with macidCtl := m }

end Alloc

end Rtl8821cu.Dvobj
