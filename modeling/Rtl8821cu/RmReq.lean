import Rtl8821cu.LibBytes
import Rtl8821cu.LibReads

/-! Radio measurement requests as they are received (`core/rtw_rm.c`): what the parsers read of the
action frame, from its category on, and what they store. -/
namespace Rtl8821cu.RmReq
open Store Reads Reading Bytes

abbrev Byte := BitVec 8

def measReqIe : Byte := 38

def chLoadReq : Byte := 3

def noiseHistoReq : Byte := 4

def bcnReq : Byte := 5

def bcnReqOptMaxNum : ℕ := 16

def bcnReqReqOptMaxNum : ℕ := 16

def bcnReqOptApChRptMaxNum : ℕ := 12

def maxChNumInOpClass : ℕ := 11

/-- `struct _RT_OPERATING_CLASS`, with the channels that are filled in. -/
structure OpClass where
  globalOpClass : ℤ
  len : ℤ
  channel : List Byte

/-- `struct bcn_req_opt`: the lists are the arrays up to their counters, `fault` is whether anything
was written outside of an array, or a length stored that is more than its array has room for. -/
structure BcnReqOpt where
  optId : List Byte
  reqId : List Byte
  repDetail : Byte
  ssidLength : ℕ
  ssid : List Byte
  repCond : List Byte
  apChRpt : List OpClass
  reqStart : Option (List Byte)
  reqLen : ℕ
  fault : Bool

/-- `struct rm_meas_req`; `repCond` is that of a channel load or of a noise histogram request. -/
structure RmMeasReq where
  category : Byte
  actionCode : Byte
  diagToken : Byte
  rpt : ℕ
  eId : Byte
  len : Byte
  mToken : Byte
  mMode : Byte
  mType : Byte
  opClass : Byte
  chNum : Byte
  randIntvl : ℕ
  measDur : ℕ
  bssid : List Byte
  optSElemLen : ℤ
  bcn : BcnReqOpt
  repCond : List Byte

/-- The request of an object after `_rtw_memset`. -/
def zeroReq : RmMeasReq where
  category := 0
  actionCode := 0
  diagToken := 0
  rpt := 0
  eId := 0
  len := 0
  mToken := 0
  mMode := 0
  mType := 0
  opClass := 0
  chNum := 0
  randIntvl := 0
  measDur := 0
  bssid := List.replicate 6 0
  optSElemLen := 0
  bcn := ⟨[], [], 0, 0, List.replicate 32 0, [0, 0], [], none, 0, false⟩
  repCond := [0, 0]

/-- The conversion of an `int` to `size_t`. -/
def sizeT (i : ℤ) : ℕ := (i % 2 ^ 64).toNat

/-- The `switch` of `rm_parse_bcn_req_s_elem` for the subelement at `p`; `alloc` is whether
`rtw_malloc` succeeds. -/
def bcnReqSubelem (alloc : Bool) (p : ℕ) (opt : BcnReqOpt) : Reading Byte BcnReqOpt := do
  let id ← cell p
  if id = 0 then do
    let len ← cell (p + 1)
    let ssid ← cells (p + 2) (min len.toNat 31)
    pure
      { opt with
        ssidLength := len.toNat, ssid := ssid ++ opt.ssid.drop ssid.length
        optId := opt.optId ++ [id], fault := opt.fault || decide (32 < len.toNat) }
  else if id = 1 then do
    let cond ← cells (p + 2) 2
    pure { opt with repCond := cond }
  else if id = 2 then do
    let detail ← cell (p + 2)
    pure { opt with repDetail := detail, optId := opt.optId ++ [id] }
  else if id = 10 then do
    let len ← cell (p + 1)
    if alloc then do
      let req ← cells (p + 2) len.toNat
      pure { opt with reqStart := some req, reqLen := len.toNat, optId := opt.optId ++ [id] }
    else pure { opt with reqStart := none }
  else if id = 51 then
    if bcnReqOptApChRptMaxNum < opt.apChRpt.length then pure opt
    else do
      let cls ← cell (p + 2)
      let len ← cell (p + 1)
      let i : ℤ := len.toNat - 1
      let num := sizeT (min i maxChNumInOpClass)
      let chs ← cells (p + 3) num
      pure
        { opt with
          optId := opt.optId ++ [id], apChRpt := opt.apChRpt ++ [⟨cls.toNat, i, chs⟩]
          fault := opt.fault || !alloc || decide (maxChNumInOpClass < num) ||
            decide (maxChNumInOpClass < i) ||
            decide (bcnReqOptApChRptMaxNum ≤ opt.apChRpt.length) }
  else pure opt

/-- The loop of `rm_parse_bcn_req_s_elem` for as many turns as are allowed. -/
def rmParseBcnReqSElem (alloc : ℕ → Bool) (pbody : ℕ) :
    ℕ → ℕ → ℤ → BcnReqOpt → Reading Byte (Option BcnReqOpt)
  | 0, _, _, _ => pure none
  | turns + 1, p, len, opt =>
    if len = 0 ∨ bcnReqOptMaxNum ≤ opt.optId.length then pure (some opt)
    else do
      let opt ← bcnReqSubelem (alloc p) (pbody + p) opt
      let l ← cell (pbody + p + 1)
      rmParseBcnReqSElem alloc pbody turns (p + l.toNat + 2) (len - l.toNat - 2) opt

/-- The `switch` of the other two parsers: the reporting condition, if it is at `p`. -/
def repCondSubelem (id : Byte) (p : ℕ) (cond : List Byte) : Reading Byte (List Byte) := do
  let x ← cell p
  if x = id then cells (p + 2) 2 else pure cond

/-- The loop of the parsers that look for a reporting condition only. -/
def parseRepCond (id : Byte) (pbody : ℕ) :
    ℕ → ℕ → ℤ → List Byte → Reading Byte (Option (List Byte))
  | 0, _, _, _ => pure none
  | turns + 1, p, len, cond =>
    if len = 0 then pure (some cond)
    else do
      let cond ← repCondSubelem id (pbody + p) cond
      let l ← cell (pbody + p + 1)
      parseRepCond id pbody turns (p + l.toNat + 2) (len - l.toNat - 2) cond

/-- `rm_parse_ch_load_s_elem`: `ch_load_rep_info` is 1. -/
def rmParseChLoadSElem := parseRepCond 1

/-- `rm_parse_noise_histo_s_elem`: `noise_histo_rep_info` is 1. -/
def rmParseNoiseHistoSElem := parseRepCond 1

/-- What `rm_parse_meas_req` reads before the BSSID. -/
def parseFixed (pbody : ℕ) (q : RmMeasReq) : Reading Byte RmMeasReq := do
  let opClass ← cell (pbody + 5)
  let chNum ← cell (pbody + 6)
  let randIntvl ← cells (pbody + 7) 2
  let measDur ← cells (pbody + 9) 2
  pure
    { q with
      opClass := opClass, chNum := chNum, randIntvl := ofLe randIntvl, measDur := ofLe measDur }

/-- The part of `rm_parse_meas_req` for a beacon request, whose element has `reqLen` bytes. -/
def parseBcnReq (alloc : ℕ → Bool) (pbody reqLen turns : ℕ) (q : RmMeasReq) :
    Reading Byte (Option RmMeasReq) := do
  let mode ← cell (pbody + 11)
  let bssid ← cells (pbody + 12) 6
  let q := { q with mMode := mode, bssid := bssid, bcn := { q.bcn with repDetail := 2 } }
  if reqLen ≤ 16 then pure (some q)
  else do
    let bcn ← rmParseBcnReqSElem alloc (pbody + 18) turns 0 ((reqLen : ℤ) - 16) q.bcn
    pure (bcn.map fun bcn => { q with optSElemLen := (reqLen : ℤ) - 16, bcn := bcn })

/-- The part of `rm_parse_meas_req` for the other requests. -/
def parseOther (pbody reqLen turns : ℕ) (q : RmMeasReq) : Reading Byte (Option RmMeasReq) :=
  if reqLen ≤ 9 then pure (some q)
  else if q.mType = chLoadReq then do
    let cond ← rmParseChLoadSElem (pbody + 11) turns 0 ((reqLen : ℤ) - 9) q.repCond
    pure (cond.map fun cond => { q with optSElemLen := (reqLen : ℤ) - 9, repCond := cond })
  else if q.mType = noiseHistoReq then do
    let cond ← rmParseNoiseHistoSElem (pbody + 11) turns 0 ((reqLen : ℤ) - 9) q.repCond
    pure (cond.map fun cond => { q with optSElemLen := (reqLen : ℤ) - 9, repCond := cond })
  else pure (some q)

def rmParseMeasReq (alloc : ℕ → Bool) (pbody turns : ℕ) (q : RmMeasReq) :
    Reading Byte (Option RmMeasReq) := do
  let reqLen ← cell (pbody + 1)
  let q ← parseFixed pbody q
  if q.mType = bcnReq then parseBcnReq alloc pbody reqLen.toNat turns q
  else parseOther pbody reqLen.toNat turns q

/-- What `rm_recv_radio_mens_req` reads itself. -/
def recvFixed : Reading Byte RmMeasReq := do
  let diagToken ← cell 2
  let rpt ← cells 3 2
  let eId ← cell 5
  let mToken ← cell 7
  let mMode ← cell 8
  let mType ← cell 9
  pure
    { zeroReq with
      diagToken := diagToken, rpt := ofLe rpt, eId := eId, mToken := mToken, mMode := mMode
      mType := mType }

/-- The request that `rm_recv_radio_mens_req` makes of a frame, and whether it returns `_SUCCESS`
and enqueues it. -/
def rmRecvRadioMensReq (alloc : ℕ → Bool) (turns : ℕ) :
    Reading Byte (Option (RmMeasReq × Bool)) := do
  let q ← recvFixed
  if q.eId ≠ measReqIe then pure (some (q, false))
  else if q.mType = bcnReq ∨ q.mType = chLoadReq ∨ q.mType = noiseHistoReq then do
    let q ← rmParseMeasReq alloc 5 turns q
    pure (q.map fun q => (q, true))
  else pure (some (q, true))

section Turns

variable {mem : ℕ → Byte} {alloc : ℕ → Bool} {pbody p reqLen turns turns' : ℕ} {len : ℤ} {id : Byte}

/-- More turns do not change what a loop returns. -/
theorem rmParseBcnReqSElem_mono {opt r : BcnReqOpt} (hle : turns ≤ turns')
    (h : (rmParseBcnReqSElem alloc pbody turns p len opt).value mem = some r) :
    (rmParseBcnReqSElem alloc pbody turns' p len opt).value mem = some r := by
  induction turns generalizing turns' p len opt with
  | zero => cases h
  | succ turns ih =>
    obtain ⟨turns', rfl⟩ := Nat.exists_eq_add_of_lt (Nat.lt_of_succ_le hle)
    rw [rmParseBcnReqSElem] at h ⊢
    split_ifs at h ⊢
    · exact h
    · rw [value_bind, value_bind] at h ⊢
      exact ih (by omega) h

theorem parseRepCond_mono {cond r : List Byte} (hle : turns ≤ turns')
    (h : (parseRepCond id pbody turns p len cond).value mem = some r) :
    (parseRepCond id pbody turns' p len cond).value mem = some r := by
  induction turns generalizing turns' p len cond with
  | zero => cases h
  | succ turns ih =>
    obtain ⟨turns', rfl⟩ := Nat.exists_eq_add_of_lt (Nat.lt_of_succ_le hle)
    rw [parseRepCond] at h ⊢
    split_ifs at h ⊢
    · exact h
    · rw [value_bind, value_bind] at h ⊢
      exact ih (by omega) h

theorem parseBcnReq_mono {q r : RmMeasReq} (hle : turns ≤ turns')
    (h : (parseBcnReq alloc pbody reqLen turns q).value mem = some r) :
    (parseBcnReq alloc pbody reqLen turns' q).value mem = some r := by
  rw [parseBcnReq, value_bind, value_bind] at h ⊢
  split_ifs at h ⊢
  · exact h
  · rw [value_bind, value_pure] at h ⊢
    obtain ⟨bcn, hbcn, rfl⟩ := Option.map_eq_some_iff.mp h
    rw [rmParseBcnReqSElem_mono hle hbcn, Option.map_some]

theorem parseOther_mono {q r : RmMeasReq} (hle : turns ≤ turns')
    (h : (parseOther pbody reqLen turns q).value mem = some r) :
    (parseOther pbody reqLen turns' q).value mem = some r := by
  unfold parseOther rmParseChLoadSElem rmParseNoiseHistoSElem at *
  split_ifs at h ⊢
  · exact h
  · rw [value_bind, value_pure] at h ⊢
    obtain ⟨cond, hcond, rfl⟩ := Option.map_eq_some_iff.mp h
    rw [parseRepCond_mono hle hcond, Option.map_some]
  · rw [value_bind, value_pure] at h ⊢
    obtain ⟨cond, hcond, rfl⟩ := Option.map_eq_some_iff.mp h
    rw [parseRepCond_mono hle hcond, Option.map_some]
  · exact h

theorem rmRecvRadioMensReq_mono {r : RmMeasReq × Bool} (hle : turns ≤ turns')
    (h : (rmRecvRadioMensReq alloc turns).value mem = some r) :
    (rmRecvRadioMensReq alloc turns').value mem = some r := by
  rw [rmRecvRadioMensReq, value_bind] at h ⊢
  split_ifs at h ⊢
  · exact h
  · rw [rmParseMeasReq, value_bind, value_bind, value_bind, value_pure] at h ⊢
    obtain ⟨q, hq, rfl⟩ := Option.map_eq_some_iff.mp h
    split_ifs at hq ⊢
    · rw [parseBcnReq_mono hle hq, Option.map_some]
    · rw [parseOther_mono hle hq, Option.map_some]
  · exact h

/-- All the runs that end make the same request of a frame. -/
theorem rmRecvRadioMensReq_unique {r r' : RmMeasReq × Bool}
    (h : (rmRecvRadioMensReq alloc turns).value mem = some r)
    (h' : (rmRecvRadioMensReq alloc turns').value mem = some r') : r = r' := by
  have hmax := rmRecvRadioMensReq_mono (le_max_left turns turns') h
  have hmax' := rmRecvRadioMensReq_mono (le_max_right turns turns') h'
  exact Option.some.inj (hmax.symm.trans hmax')

end Turns

end Rtl8821cu.RmReq
