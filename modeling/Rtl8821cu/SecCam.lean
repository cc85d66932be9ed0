import Rtl8821cu.Dvobj

/-! Keys in the security CAM: search, allocation, writing and freeing
(`core/rtw_wlan_util.c`), in the order in which `set_stakey_hdl` and `setkey_hdl` use them. -/
namespace Rtl8821cu.Dvobj
open Bitmap

variable {n : ℕ}

/-- What `rtw_camid_alloc` reads of the interface: its role, association and BSSID. -/
structure MlmeInfo where
  apOrAdhocState : Bool
  assocSuccess : Bool
  bssid : MacAddr
  deriving DecidableEq

section Search
variable (cfg : Cfg n)

def rtwCamidIsGk (d : DvobjPriv n) (camId : ℕ) : Bool :=
  if cfg.secCamNum ≤ camId then false
  else if !rtwSecCamidIsUsed cfg d camId then false
  else (d.camCache camId).ctrl.getLsbD 6

/-- `gk = none` is the argument -1, which leaves the group bit unchecked. -/
def camCacheChk (d : DvobjPriv n) (id : ℕ) (addr : MacAddr) (kid : BitVec 8) (gk : Option Bool) :
    Bool :=
  (d.camCache id).mac == addr && kid.setWidth 16 == (d.camCache id).ctrl &&& 3 &&
    match gk with
    | none => true
    | some gk => gk == rtwCamidIsGk cfg d id

def rtwCamidSearch (d : DvobjPriv n) (addr : MacAddr) (kid : BitVec 8) (gk : Option Bool) :
    Option ℕ :=
  (List.range cfg.secCamNum).find? fun i => camCacheChk cfg d i addr kid gk

/-- The first free slot, or the first of two free slots in a row. -/
def freeCamid (d : DvobjPriv n) (extSec : Bool) : Option ℕ :=
  (List.range cfg.secCamNum).find? fun i =>
    !rtwSecCamidIsUsed cfg d i &&
      (!extSec || decide (i + 1 < cfg.secCamNum) && !rtwSecCamidIsUsed cfg d (i + 1))

def rtwGetCamid (d : DvobjPriv n) (addr : MacAddr) (kid : BitVec 8) (gk extSec : Bool) :
    Option ℕ :=
  match rtwCamidSearch cfg d addr kid (if cfg.secCapChkBmc then some gk else none) with
  | some i => some i
  | none => freeCamid cfg d extSec

/-- The address a key is filed under; `none` is a group key set before the BSSID is known. -/
def keyAddr (iface : Fin n) (mlme : MlmeInfo) (sta : Option MacAddr) : Option MacAddr :=
  match sta with
  | some addr => some addr
  | none =>
      if mlme.apOrAdhocState then some (cfg.adapterMacAddr iface)
      else if !mlme.assocSuccess then none
      else some mlme.bssid

/-- Returns the slot and whether it was in use before. -/
def rtwCamidAlloc (d : DvobjPriv n) (iface : Fin n) (mlme : MlmeInfo) (sta : Option MacAddr)
    (kid : BitVec 8) (gk extSec : Bool) : DvobjPriv n × Option ℕ × Bool :=
  match (keyAddr cfg iface mlme sta).bind fun addr => rtwGetCamid cfg d addr kid gk extSec with
  | none => (d, none, false)
  | some camId =>
      ({ d with camUsed := rtwSecCamMapSetPair cfg d.camUsed camId extSec }, some camId,
        rtwSecCamidIsUsed cfg d camId)

def rtwCamidFree (d : DvobjPriv n) (camId : ℕ) : DvobjPriv n :=
  if camId < cfg.secCamNum then { d with camUsed := rtwSecCamMapClr cfg d.camUsed camId } else d

end Search

def writeCamCache (d : DvobjPriv n) (id : ℕ) (ctrl : BitVec 16) (mac : MacAddr)
    (key : BitVec 128) : DvobjPriv n :=
  { d with camCache := Function.update d.camCache id ⟨ctrl, mac, key⟩ }

/-- A 256-bit key takes the slot and its successor. -/
def writeCam (d : DvobjPriv n) (id : ℕ) (ctrl : BitVec 16) (mac : MacAddr) (key : BitVec 256) :
    DvobjPriv n :=
  if ctrl.getLsbD 9 then
    let d := writeCamCache d id ctrl mac (key.extractLsb' 0 128)
    writeCamCache d (id + 1) (ctrl ||| BitVec.twoPow 16 5) mac (key.extractLsb' 128 128)
  else writeCamCache d id ctrl mac (key.extractLsb' 0 128)

def clearCamEntry (d : DvobjPriv n) (id : ℕ) : DvobjPriv n := writeCamCache d id 0 0 0

/-- The parameters of `set_stakey_hdl`: `alg` is the algorithm's low three bits, `ext` its
`_SEC_TYPE_256_` bit and `spp` the A-MSDU setting. -/
structure SetKeyParm where
  sta : Option MacAddr
  kid : BitVec 8
  gk : Bool
  ext : Bool
  alg : BitVec 3
  spp : Bool
  key : BitVec 256
  deriving DecidableEq

/-- Valid, algorithm, key id, group bit, 256-bit flag and SPP mode. -/
def keyCtrl (alg : BitVec 3) (kid : BitVec 8) (gk ext spp : Bool) : BitVec 16 :=
  BitVec.twoPow 16 15 ||| alg.setWidth 16 <<< 2 ||| kid.setWidth 16 |||
    (if gk then BitVec.twoPow 16 6 else 0) ||| (if ext then BitVec.twoPow 16 9 else 0) |||
    (if spp then BitVec.twoPow 16 7 else 0)

def SetKeyParm.ctrl (p : SetKeyParm) : BitVec 16 := keyCtrl p.alg p.kid p.gk p.ext p.spp

/-- Allocate, then write: returns the address and the slot of the key it set. -/
def setKey (cfg : Cfg n) (d : DvobjPriv n) (iface : Fin n) (mlme : MlmeInfo) (p : SetKeyParm) :
    DvobjPriv n × Option (MacAddr × ℕ) :=
  let r := rtwCamidAlloc cfg d iface mlme p.sta p.kid p.gk p.ext
  match keyAddr cfg iface mlme p.sta, r.2.1 with
  | some addr, some camId => (writeCam r.1 camId p.ctrl addr p.key, some (addr, camId))
  | _, _ => (r.1, none)

/-- The callers of `rtw_camid_free` clear the entry with it. -/
def clearKey (cfg : Cfg n) (d : DvobjPriv n) (camId : ℕ) : DvobjPriv n :=
  rtwCamidFree cfg (clearCamEntry d camId) camId

end Rtl8821cu.Dvobj
