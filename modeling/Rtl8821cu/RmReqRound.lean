import Rtl8821cu.LibElements
import Rtl8821cu.RmReq

/-! Beacon requests as they are sent (`core/rtw_rm.c`), and what the receiver makes of them. -/
namespace Rtl8821cu.RmReq
open Store Reads Reading Bytes Elements

def bcnReqActive : Byte := 1

/-- The optional SSID of `rm_gen_bcn_req_s_elem`. -/
def ssidSubelem (opt : BcnReqOpt) : List Byte :=
  let l := BitVec.ofNat 8 opt.ssidLength
  if 0 < l.toNat ∧ l.toNat ≤ 32 then 0 :: l :: opt.ssid.take l.toNat else []

/-- The optional request of `rm_gen_bcn_req_s_elem`. -/
def reqSubelem (opt : BcnReqOpt) : List Byte :=
  if 0 < opt.reqId.length then 10 :: BitVec.ofNat 8 opt.reqId.length :: opt.reqId else []

/-- An AP channel report of `rm_gen_bcn_req_s_elem`. -/
def apChRptSubelem (op : OpClass) : List Byte :=
  51 :: BitVec.ofInt 8 (op.len + 1) :: BitVec.ofInt 8 op.globalOpClass ::
    op.channel.take op.len.toNat

def rmGenBcnReqSElem (q : RmMeasReq) : List Byte :=
  bcnReqActive :: (q.bssid ++ (ssidSubelem q.bcn ++ ([2, 1, q.bcn.repDetail] ++
    (reqSubelem q.bcn ++ q.bcn.apChRpt.flatMap apChRptSubelem))))

/-- The optional subelements of `issue_radio_meas_req`. -/
def optSubelems (q : RmMeasReq) : List Byte :=
  if q.mType = bcnReq then rmGenBcnReqSElem q
  else if q.mType = chLoadReq ∨ q.mType = noiseHistoReq then [1, 2, 0, 0]
  else []

/-- The element of `issue_radio_meas_req` before its length is written. -/
def measReqElem (q : RmMeasReq) : List Byte :=
  [q.eId, q.len, q.mToken, q.mMode, q.mType, q.opClass, q.chNum] ++ (leBytes 2 q.randIntvl ++
    (leBytes 2 q.measDur ++ optSubelems q))

/-- The frame body of `issue_radio_meas_req`. -/
def issueRadioMeasReq (q : RmMeasReq) : List Byte :=
  [q.category, q.actionCode, q.diagToken] ++ (leBytes 2 q.rpt ++
    (measReqElem q).set 1 (BitVec.ofNat 8 (measReqElem q).length - 2))

/-- The description of a beacon request. -/
structure Described (q : RmMeasReq) : Prop where
  eId : q.eId = measReqIe
  mType : q.mType = bcnReq
  randIntvl : q.randIntvl < 2 ^ 16
  measDur : q.measDur < 2 ^ 16
  bssid : q.bssid.length = 6
  ssid : q.bcn.ssid.length = 32
  ssidLength : q.bcn.ssidLength ≤ 32
  reqId : q.bcn.reqId.length ≤ bcnReqReqOptMaxNum
  apChRpt : q.bcn.apChRpt.length ≤ bcnReqOptApChRptMaxNum
  channels : ∀ op ∈ q.bcn.apChRpt,
    op.len = op.channel.length ∧ op.channel.length ≤ maxChNumInOpClass

/-- The encoding fits one element. -/
def Fits (q : RmMeasReq) : Prop := (measReqElem q).length - 2 ≤ 255

instance (q : RmMeasReq) : Decidable (Fits q) := inferInstanceAs (Decidable (_ ≤ _))

/-- The receiver has the request of the sender. -/
structure Recovered (q q' : RmMeasReq) : Prop where
  opClass : q'.opClass = q.opClass
  chNum : q'.chNum = q.chNum
  randIntvl : q'.randIntvl = q.randIntvl
  measDur : q'.measDur = q.measDur
  bssid : q'.bssid = q.bssid
  ssidLength : q'.bcn.ssidLength = q.bcn.ssidLength
  ssid : q'.bcn.ssid.take q'.bcn.ssidLength = q.bcn.ssid.take q.bcn.ssidLength
  repDetail : q'.bcn.repDetail = q.bcn.repDetail
  reqId : (q'.bcn.reqStart.getD []).take q'.bcn.reqLen = q.bcn.reqId
  apChRpt : q'.bcn.apChRpt = q.bcn.apChRpt

/-- The length byte of the frame sent is right, and where the encoding fits one element the receiver
recovers the request, whatever is behind the frame in its memory. -/
structure RoundTrips (q : RmMeasReq) : Prop where
  length : ((issueRadioMeasReq q).getD 6 0).toNat = (issueRadioMeasReq q).length - 7
  recovered : Fits q → ∀ mem, HoldsAt mem 0 (issueRadioMeasReq q) → ∃ turns q',
    (rmRecvRadioMensReq (fun _ => true) turns).value mem = some (q', true) ∧ Recovered q q'

section Subelements

variable {mem : ℕ → Byte} {p pbody : ℕ} {e : Element} {opt : BcnReqOpt}

/-- What the parser makes of a subelement. -/
def BcnReqOpt.take (opt : BcnReqOpt) (e : Element) : BcnReqOpt :=
  if e.id = 0 then
    { opt with
      ssidLength := e.body.length
      ssid := e.body.take 31 ++ opt.ssid.drop (min e.body.length 31)
      optId := opt.optId ++ [e.id] }
  else if e.id = 2 then
    { opt with repDetail := e.body.headD 0, optId := opt.optId ++ [e.id] }
  else if e.id = 10 then
    { opt with
      reqStart := some e.body, reqLen := e.body.length, optId := opt.optId ++ [e.id] }
  else
    { opt with
      optId := opt.optId ++ [e.id]
      apChRpt := opt.apChRpt ++
        [⟨(e.body.headD 0).toNat, (e.body.length : ℤ) - 1, e.body.tail.take 11⟩] }

/-- The subelements of a beacon request. -/
def Known (e : Element) : Prop :=
  e.id = 0 ∧ e.body.length ≤ 32 ∨ e.id = 2 ∧ e.body ≠ [] ∨ e.id = 10 ∨
    e.id = 51 ∧ e.body ≠ [] ∧ e.body.length ≤ 12

theorem load_take {l : List Byte} (h : HoldsAt mem p l) (n : ℕ) (hn : n ≤ l.length) :
    load mem p n = l.take n := by
  have hsplit := load_of_holdsAt h
  rw [show l.length = n + (l.length - n) by omega, load_add] at hsplit
  have := congrArg (List.take n) hsplit
  rwa [List.take_left' (length_load mem p n)] at this

theorem value_bcnReqSubelem (h : HoldsAt mem p e.bytes) (hknown : Known e)
    (hrpt : e.id = 51 → opt.apChRpt.length < bcnReqOptApChRptMaxNum) :
    (bcnReqSubelem true p opt).value mem = opt.take e := by
  obtain ⟨hid, hlen, hbody⟩ := holdsAt_bytes h
  rw [bcnReqSubelem, value_bind, value_cell, hid, BcnReqOpt.take]
  rcases hknown with ⟨h0, hle⟩ | ⟨h2, hne⟩ | h10 | ⟨h51, hne, hle⟩
  · have htake : e.body.take (min e.body.length 31) = e.body.take 31 := by
      rw [List.take_eq_take_iff]
      omega
    simp only [h0, if_true, value_bind, value_cell, value_cells, value_pure, hlen,
      decide_eq_false (not_lt.mpr hle), Bool.or_false]
    rw [load_take hbody _ (by omega), htake, List.length_take, min_comm]
  · obtain ⟨x, body, hx⟩ := List.exists_cons_of_ne_nil hne
    rw [hx, holdsAt_cons] at hbody
    simp [h2, hx, hbody.1]
  · have hload := load_of_holdsAt hbody
    simp [h10, hlen, hload]
  · obtain ⟨x, body, hx⟩ := List.exists_cons_of_ne_nil hne
    have hlt := hrpt h51
    rw [hx, holdsAt_cons] at hbody
    rw [hx, List.length_cons] at hlen hle
    have hnum : sizeT (min ((body.length + 1 : ℕ) - 1 : ℤ) maxChNumInOpClass) =
        min body.length 11 := by
      unfold sizeT maxChNumInOpClass
      omega
    have htake : body.take (min body.length 11) = body.take 11 := by
      rw [List.take_eq_take_iff]
      omega
    have hload := @load_take mem (p + 2 + 1) body hbody.2 (min body.length 11) (by omega)
    rw [htake] at hload
    have hfault : (opt.fault || !true || decide (maxChNumInOpClass < min body.length 11) ||
        decide ((maxChNumInOpClass : ℤ) < (body.length + 1 : ℕ) - 1) ||
        decide (bcnReqOptApChRptMaxNum ≤ opt.apChRpt.length)) = opt.fault := by
      rw [decide_eq_false (by unfold maxChNumInOpClass; omega),
        decide_eq_false (by unfold maxChNumInOpClass; omega), decide_eq_false (by omega)]
      simp
    have h0 : ¬(51 : Byte) = 0 := by decide
    have h1 : ¬(51 : Byte) = 1 := by decide
    have h2 : ¬(51 : Byte) = 2 := by decide
    have h10 : ¬(51 : Byte) = 10 := by decide
    simp only [h51, h0, h1, h2, h10, hx, if_false, if_true, if_neg (not_lt.mpr hlt.le), value_bind,
      value_cell, value_cells, value_pure, hbody.1, hlen, hnum, hload, hfault, List.length_cons,
      List.headD_cons, List.tail_cons]

theorem optId_take (opt : BcnReqOpt) (e : Element) :
    (opt.take e).optId = opt.optId ++ [e.id] := by
  unfold BcnReqOpt.take
  split_ifs <;> rfl

theorem apChRpt_take (opt : BcnReqOpt) (hknown : Known e) :
    (opt.take e).apChRpt.length = opt.apChRpt.length + [e].countP fun e => e.id = 51 := by
  unfold BcnReqOpt.take
  rcases hknown with ⟨h, -⟩ | ⟨h, -⟩ | h | ⟨h, -⟩ <;> simp [h]

/-- The loop takes one subelement after the other. -/
theorem value_rmParseBcnReqSElem (es : List Element) (h : HoldsAt mem (pbody + p) (encode es))
    (hknown : ∀ e ∈ es, Known e)
    (hrpt : opt.apChRpt.length + (es.countP fun e => e.id = 51) ≤ bcnReqOptApChRptMaxNum)
    (hnum : opt.optId.length + es.length ≤ bcnReqOptMaxNum) :
    (rmParseBcnReqSElem (fun _ => true) pbody (es.length + 1) p (encode es).length opt).value mem =
      some (es.foldl BcnReqOpt.take opt) := by
  induction es generalizing p opt with
  | nil =>
    rw [rmParseBcnReqSElem, if_pos (.inl rfl)]
    rfl
  | cons e es ih =>
    obtain ⟨he, hes⟩ := holdsAt_encode_cons.mp h
    rw [← List.singleton_append, List.countP_append, ← Nat.add_assoc] at hrpt
    rw [List.length_cons] at hnum
    have hne : ¬(((encode (e :: es)).length : ℤ) = 0 ∨ bcnReqOptMaxNum ≤ opt.optId.length) := by
      rw [encode_cons, List.length_append, length_bytes]
      omega
    have hvalue : (bcnReqSubelem true (pbody + p) opt).value mem = opt.take e := by
      refine value_bcnReqSubelem he (hknown e (by simp)) fun h51 => ?_
      have hone : [e].countP (fun e => e.id = 51) = 1 := by simp [h51]
      omega
    have hlen := (holdsAt_bytes he).2.1
    have hrest : ((encode (e :: es)).length : ℤ) - e.body.length - 2 = (encode es).length := by
      rw [encode_cons, List.length_append, length_bytes]
      omega
    rw [List.length_cons, rmParseBcnReqSElem, if_neg hne, value_bind, hvalue, value_bind,
      value_cell, hlen, hrest, List.foldl_cons]
    refine ih ?_ (fun e' he' => hknown e' (by simp [he'])) ?_ ?_
    · rwa [show pbody + (p + e.body.length + 2) = pbody + p + (e.body.length + 2) by omega]
    · rwa [apChRpt_take opt (hknown e (by simp))]
    · rw [optId_take, List.length_append, List.length_singleton]
      omega

end Subelements

section Generated

variable {q : RmMeasReq} {opt : BcnReqOpt} {op : OpClass}

/-- The subelements that are sent. -/
def ssidElem (opt : BcnReqOpt) : Element :=
  ⟨0, opt.ssid.take (min opt.ssidLength 32), by rw [List.length_take]; omega⟩

def detailElem (opt : BcnReqOpt) : Element := ⟨2, [opt.repDetail], by simp⟩

def reqElem (opt : BcnReqOpt) : Element :=
  ⟨10, opt.reqId.take bcnReqReqOptMaxNum, by
    rw [List.length_take]
    unfold bcnReqReqOptMaxNum
    omega⟩

def rptElem (op : OpClass) : Element :=
  ⟨51, BitVec.ofInt 8 op.globalOpClass :: op.channel.take maxChNumInOpClass, by
    rw [List.length_cons, List.length_take]
    unfold maxChNumInOpClass
    omega⟩

def elems (opt : BcnReqOpt) : List Element :=
  (if 0 < opt.ssidLength then [ssidElem opt] else []) ++
    (detailElem opt :: ((if 0 < opt.reqId.length then [reqElem opt] else []) ++
      opt.apChRpt.map rptElem))

theorem ssidSubelem_eq (hlen : opt.ssid.length = 32) (hle : opt.ssidLength ≤ 32) :
    ssidSubelem opt = encode (if 0 < opt.ssidLength then [ssidElem opt] else []) := by
  have hl : (BitVec.ofNat 8 opt.ssidLength).toNat = opt.ssidLength := by
    rw [BitVec.toNat_ofNat]
    omega
  unfold ssidSubelem
  dsimp only
  rw [hl]
  split_ifs with h h' h'
  · simp [encode, Element.bytes, ssidElem, min_eq_left hle, hlen]
  · omega
  · omega
  · rfl

theorem reqSubelem_eq (hle : opt.reqId.length ≤ bcnReqReqOptMaxNum) :
    reqSubelem opt = encode (if 0 < opt.reqId.length then [reqElem opt] else []) := by
  unfold reqSubelem
  split_ifs
  · simp [encode, Element.bytes, reqElem, List.take_of_length_le hle]
  · rfl

theorem apChRptSubelem_eq (hlen : op.len = op.channel.length)
    (hle : op.channel.length ≤ maxChNumInOpClass) : apChRptSubelem op = (rptElem op).bytes := by
  have hl : BitVec.ofInt 8 ((op.channel.length : ℤ) + 1) =
      BitVec.ofNat 8 (op.channel.length + 1) := by
    rw [← BitVec.ofInt_natCast]
    rfl
  simp only [apChRptSubelem, Element.bytes, rptElem, hlen, Int.toNat_natCast, List.take_length,
    List.take_of_length_le hle, List.length_cons, hl]

/-- The subelements of a description are a list of elements. -/
theorem rmGenBcnReqSElem_eq (h : Described q) :
    rmGenBcnReqSElem q = bcnReqActive :: (q.bssid ++ encode (elems q.bcn)) := by
  have hrpts : q.bcn.apChRpt.flatMap apChRptSubelem = encode (q.bcn.apChRpt.map rptElem) := by
    rw [encode, List.flatMap_map]
    exact List.flatMap_congr fun op hop =>
      apChRptSubelem_eq (h.channels op hop).1 (h.channels op hop).2
  rw [rmGenBcnReqSElem, ssidSubelem_eq h.ssid h.ssidLength, reqSubelem_eq h.reqId, hrpts, elems,
    encode_append, encode_cons, encode_append]
  rfl

theorem known_elems : ∀ e ∈ elems opt, Known e := by
  intro e he
  rw [elems, List.mem_append, List.mem_cons, List.mem_append, List.mem_map] at he
  rcases he with hssid | rfl | hreq | ⟨op, -, rfl⟩
  · split_ifs at hssid
    · rw [List.mem_singleton.mp hssid]
      refine .inl ⟨rfl, ?_⟩
      simp only [ssidElem, List.length_take]
      omega
    · cases hssid
  · exact .inr (.inl ⟨rfl, by simp [detailElem]⟩)
  · split_ifs at hreq
    · exact .inr (.inr (.inl (by rw [List.mem_singleton.mp hreq]; rfl)))
    · cases hreq
  · refine .inr (.inr (.inr ⟨rfl, by simp [rptElem], ?_⟩))
    simp only [rptElem, List.length_cons, List.length_take, maxChNumInOpClass]
    omega

theorem countP_elems : (elems opt).countP (fun e => e.id = 51) = opt.apChRpt.length := by
  have hrpts : (opt.apChRpt.map rptElem).countP (fun e => e.id = 51) = opt.apChRpt.length := by
    rw [List.countP_map, List.countP_eq_length.mpr (by simp [rptElem])]
  have hdetail : decide ((detailElem opt).id = 51) = false := rfl
  rw [elems, List.countP_append, List.countP_cons, List.countP_append, hrpts, hdetail]
  have hfalse : ¬(false = true) := Bool.false_ne_true
  rw [if_neg hfalse]
  split_ifs <;> simp [ssidElem, reqElem]

theorem length_elems : (elems opt).length ≤ 3 + opt.apChRpt.length := by
  rw [elems, List.length_append, List.length_cons, List.length_append, List.length_map]
  split_ifs <;> simp <;> omega

/-- The AP channel reports are taken one after the other. -/
theorem foldl_take_rpts (rpts : List OpClass) :
    (rpts.map rptElem).foldl BcnReqOpt.take opt =
      { opt with
        optId := opt.optId ++ List.replicate rpts.length 51
        apChRpt := opt.apChRpt ++ rpts.map fun op =>
          ⟨(BitVec.ofInt 8 op.globalOpClass).toNat, (op.channel.take maxChNumInOpClass).length,
            op.channel.take maxChNumInOpClass⟩ } := by
  induction rpts generalizing opt with
  | nil => simp
  | cons op rpts ih =>
    rw [List.map_cons, List.foldl_cons, ih]
    simp [BcnReqOpt.take, rptElem, List.replicate_succ, maxChNumInOpClass]

/-- What the parser has behind the subelements of a description. -/
theorem foldl_take_elems (h : Described q) {opt : BcnReqOpt}
    (hzero : opt.ssidLength = 0 ∧ opt.ssid = List.replicate 32 0 ∧ opt.apChRpt = [] ∧
      opt.reqStart = none ∧ opt.reqLen = 0) :
    let r := (elems q.bcn).foldl BcnReqOpt.take opt
    r.ssidLength = q.bcn.ssidLength ∧
      r.ssid.take r.ssidLength =
        (q.bcn.ssid.take (min q.bcn.ssidLength 31) ++ List.replicate (32 - min q.bcn.ssidLength 31)
          0).take q.bcn.ssidLength ∧
      r.repDetail = q.bcn.repDetail ∧ (r.reqStart.getD []).take r.reqLen = q.bcn.reqId ∧
      r.apChRpt = q.bcn.apChRpt.map fun op =>
        ⟨(BitVec.ofInt 8 op.globalOpClass).toNat, op.len, op.channel⟩ := by
  obtain ⟨hsl, hs, har, hrs, hrl⟩ := hzero
  have hle := h.ssidLength
  have hlen := h.ssid
  have hreq := h.reqId
  have hrpts : (q.bcn.apChRpt.map fun op => (⟨(BitVec.ofInt 8 op.globalOpClass).toNat,
      (op.channel.take maxChNumInOpClass).length, op.channel.take maxChNumInOpClass⟩ : OpClass)) =
      q.bcn.apChRpt.map fun op =>
        ⟨(BitVec.ofInt 8 op.globalOpClass).toNat, op.len, op.channel⟩ := by
    refine List.map_congr_left fun op hop => ?_
    obtain ⟨hl, hmax⟩ := h.channels op hop
    rw [List.take_of_length_le hmax, hl]
  have hssid : (q.bcn.ssid.take (min q.bcn.ssidLength 32)).length = q.bcn.ssidLength := by
    rw [List.length_take]
    omega
  have htake : (q.bcn.ssid.take (min q.bcn.ssidLength 32)).take 31 =
      q.bcn.ssid.take (min q.bcn.ssidLength 31) := by
    rw [List.take_take]
    congr 1
    omega
  dsimp only
  rw [elems, List.foldl_append, List.foldl_cons, List.foldl_append, foldl_take_rpts]
  dsimp only
  rw [hrpts]
  have hreqId : q.bcn.reqId.take bcnReqReqOptMaxNum = q.bcn.reqId := List.take_of_length_le hreq
  have hzeros : ∀ n, opt.ssid.drop n = List.replicate (32 - n) 0 := by
    intro n
    rw [hs, List.drop_replicate]
  have hnone : q.bcn.reqId.length = 0 → q.bcn.reqId = [] := List.length_eq_zero_iff.mp
  rcases Nat.eq_zero_or_pos q.bcn.ssidLength with hs0 | hs0 <;>
    rcases Nat.eq_zero_or_pos q.bcn.reqId.length with hr0 | hr0
  · simp [hs0, hnone hr0, BcnReqOpt.take, detailElem, har, hsl, hrs]
  · simp [hs0, hr0, BcnReqOpt.take, detailElem, reqElem, har, hsl, hreqId]
  · simp [hs0, hnone hr0, BcnReqOpt.take, ssidElem, detailElem, hssid, htake, hzeros, har, hrs]
  · simp [hs0, hr0, BcnReqOpt.take, ssidElem, detailElem, reqElem, hssid, htake, hzeros, har,
      hreqId]

theorem optSubelems_eq (h : Described q) :
    optSubelems q = bcnReqActive :: (q.bssid ++ encode (elems q.bcn)) := by
  rw [optSubelems, if_pos h.mType, rmGenBcnReqSElem_eq h]

theorem length_measReqElem (h : Described q) :
    (measReqElem q).length = (encode (elems q.bcn)).length + 18 := by
  rw [measReqElem, optSubelems_eq h]
  simp only [List.length_append, List.length_cons, List.length_nil, length_leBytes, h.bssid]
  omega

theorem length_encode_rpts (rpts : List OpClass) :
    (encode (rpts.map rptElem)).length ≤ 14 * rpts.length := by
  induction rpts with
  | nil => rfl
  | cons op rpts ih =>
    have hle : (rptElem op).body.length ≤ 12 := by
      simp only [rptElem, List.length_cons, List.length_take, maxChNumInOpClass]
      omega
    rw [List.map_cons, encode_cons, List.length_append, length_bytes, List.length_cons]
    omega

/-- Every description fits: twelve reports, an SSID and sixteen ids take 239 bytes at most. -/
theorem Described.fits (h : Described q) : Fits q := by
  have hrpts := length_encode_rpts q.bcn.apChRpt
  have hnum := h.apChRpt
  have hssid : (encode (if 0 < q.bcn.ssidLength then [ssidElem q.bcn] else [])).length ≤ 34 := by
    split_ifs
    · rw [encode_cons, List.length_append, length_bytes]
      simp only [ssidElem, List.length_take, encode_nil, List.length_nil]
      omega
    · exact Nat.zero_le _
  have hreq : (encode (if 0 < q.bcn.reqId.length then [reqElem q.bcn] else [])).length ≤ 18 := by
    split_ifs
    · rw [encode_cons, List.length_append, length_bytes]
      simp only [reqElem, List.length_take, encode_nil, List.length_nil, bcnReqReqOptMaxNum]
      omega
    · exact Nat.zero_le _
  unfold bcnReqOptApChRptMaxNum at hnum
  rw [Fits, length_measReqElem h, elems, encode_append, encode_cons, encode_append,
    List.length_append, List.length_append, List.length_append, length_bytes]
  simp only [detailElem, List.length_singleton]
  omega

/-- The length byte is right just when the encoding fits one element. -/
theorem lengthByte_iff (h : Described q) :
    ((issueRadioMeasReq q).getD 6 0).toNat = (issueRadioMeasReq q).length - 7 ↔ Fits q := by
  have hlen := length_measReqElem h
  have hget : (issueRadioMeasReq q).getD 6 0 = BitVec.ofNat 8 (measReqElem q).length - 2 := rfl
  have htotal : (issueRadioMeasReq q).length = (measReqElem q).length + 5 := by
    simp only [issueRadioMeasReq, List.length_append, List.length_cons, List.length_nil,
      length_leBytes, List.length_set]
    omega
  rw [hget, htotal, Fits, BitVec.toNat_sub, BitVec.toNat_ofNat, hlen]
  change _ = _ ↔ _
  have h2 : (2 : Byte).toNat = 2 := rfl
  rw [h2]
  omega

/-- The request that the receiver makes of the frame. -/
def parsed (q : RmMeasReq) : RmMeasReq :=
  { zeroReq with
    diagToken := q.diagToken, rpt := q.rpt % 256 ^ 2, eId := q.eId, mToken := q.mToken
    mMode := bcnReqActive, mType := q.mType, opClass := q.opClass, chNum := q.chNum
    randIntvl := q.randIntvl % 256 ^ 2, measDur := q.measDur % 256 ^ 2, bssid := q.bssid
    optSElemLen := (encode (elems q.bcn)).length
    bcn := (elems q.bcn).foldl BcnReqOpt.take { zeroReq.bcn with repDetail := 2 } }

theorem value_rmRecvRadioMensReq (h : Described q) {mem : ℕ → Byte}
    (hmem : HoldsAt mem 0 (issueRadioMeasReq q)) :
    (rmRecvRadioMensReq (fun _ => true) ((elems q.bcn).length + 1)).value mem =
      some (parsed q, true) := by
  have hlen := length_measReqElem h
  have hpos : 3 ≤ (encode (elems q.bcn)).length := by
    rw [elems, encode_append, encode_cons, List.length_append, List.length_append, length_bytes]
    simp [detailElem]
    omega
  have hbyte : (BitVec.ofNat 8 (measReqElem q).length - 2).toNat =
      (encode (elems q.bcn)).length + 16 := by
    have := (lengthByte_iff h).mpr h.fits
    have hget : (issueRadioMeasReq q).getD 6 0 = BitVec.ofNat 8 (measReqElem q).length - 2 := rfl
    rw [hget, issueRadioMeasReq, List.length_append, List.length_append, List.length_set, hlen,
      length_leBytes] at this
    rw [hlen, this, List.length_cons, List.length_cons, List.length_singleton]
    omega
  generalize hb : BitVec.ofNat 8 (measReqElem q).length - 2 = b at hbyte
  have hissue : issueRadioMeasReq q = [q.category, q.actionCode, q.diagToken] ++ (leBytes 2 q.rpt ++
      ([q.eId, b, q.mToken, q.mMode, q.mType, q.opClass, q.chNum] ++ (leBytes 2 q.randIntvl ++
        (leBytes 2 q.measDur ++ ([bcnReqActive] ++ (q.bssid ++ encode (elems q.bcn))))))) := by
    rw [issueRadioMeasReq, hb, measReqElem, optSubelems_eq h]
    rfl
  rw [hissue] at hmem
  simp only [holdsAt_append, holdsAt_cons, length_leBytes, List.length_cons, List.length_nil,
    h.bssid, Nat.reduceAdd, zero_add] at hmem
  obtain ⟨⟨-, -, h2, -⟩, h3, ⟨h5, h6, h7, h8, h9, h10, h11, -⟩, h12, h14, ⟨h16, -⟩, h17, h23⟩ :=
    hmem
  have hload : ∀ {p v}, HoldsAt mem p (leBytes 2 v) → ofLe (load mem p 2) = v % 256 ^ 2 := by
    intro p v hv
    have := load_of_holdsAt hv
    rw [length_leBytes] at this
    rw [this, ofLe_leBytes]
  have hbssid := load_of_holdsAt h17
  rw [h.bssid] at hbssid
  have hloop := @value_rmParseBcnReqSElem mem 0 23 { zeroReq.bcn with repDetail := 2 }
    (elems q.bcn) h23 known_elems
    (by rw [countP_elems]; simpa [zeroReq] using h.apChRpt)
    (by
      have := @length_elems q.bcn
      have := h.apChRpt
      unfold bcnReqOptApChRptMaxNum at this
      simp [zeroReq, bcnReqOptMaxNum]
      omega)
  have hrem : (((encode (elems q.bcn)).length + 16 : ℕ) : ℤ) - 16 =
      (encode (elems q.bcn)).length := by omega
  have heId : q.eId = measReqIe := h.eId
  have hmType : q.mType = bcnReq := h.mType
  rw [rmRecvRadioMensReq, value_bind]
  simp only [recvFixed, value_bind, value_cell, value_cells, value_pure, h2, h5, h7, h8, h9,
    hload h3, heId, hmType, ne_eq, not_true_eq_false, if_false, true_or, if_true]
  rw [rmParseMeasReq, value_bind]
  simp only [parseFixed, value_bind, value_cell, value_cells, value_pure, Nat.reduceAdd, h6, h10,
    h11, hload h12, hload h14, if_true]
  rw [parseBcnReq, value_bind]
  simp only [value_bind, value_cell, value_cells, Nat.reduceAdd, h16, hbssid, hbyte]
  rw [if_neg (by omega), value_bind, hrem, hloop, value_pure, parsed, heId, hmType]
  rfl

theorem ssid_recovered_iff {s : List Byte} {l : ℕ} (hs : s.length = 32) (hl : l ≤ 32) :
    (s.take (min l 31) ++ List.replicate (32 - min l 31) 0).take l = s.take l ↔
      (l = 32 → s.getD 31 0 = 0) := by
  rcases Nat.lt_or_ge l 32 with hlt | hge
  · refine iff_of_true ?_ fun h => by omega
    rw [min_eq_left (by omega), List.take_left' (by rw [List.length_take]; omega)]
  · obtain rfl : l = 32 := le_antisymm hl hge
    have hlast : s = s.take 31 ++ [s.getD 31 0] := by
      rw [List.getD_eq_getElem _ _ (by omega), List.take_append_getElem, List.take_of_length_le]
      omega
    have hmin : min 32 31 = 31 := rfl
    rw [hmin, List.take_of_length_le (by simp), List.take_of_length_le hs.le]
    conv_lhs => rhs; rw [hlast]
    simp [eq_comm]

/-- The receiver's request is the sender's but for a last byte of a long SSID and for operating
classes that are no bytes. -/
theorem recovered_parsed_iff (h : Described q) : Recovered q (parsed q) ↔
    (q.bcn.ssidLength = 32 → q.bcn.ssid.getD 31 0 = 0) ∧
      ∀ op ∈ q.bcn.apChRpt, 0 ≤ op.globalOpClass ∧ op.globalOpClass < 256 := by
  obtain ⟨hsl, hs, hd, hr, hc⟩ := @foldl_take_elems q h { zeroReq.bcn with repDetail := 2 }
    ⟨rfl, rfl, rfl, rfl, rfl⟩
  have hclass : (q.bcn.apChRpt.map fun op =>
      (⟨(BitVec.ofInt 8 op.globalOpClass).toNat, op.len, op.channel⟩ : OpClass)) = q.bcn.apChRpt ↔
      ∀ op ∈ q.bcn.apChRpt, 0 ≤ op.globalOpClass ∧ op.globalOpClass < 256 := by
    conv_lhs => rhs; rw [← List.map_id q.bcn.apChRpt]
    rw [List.map_inj_left]
    refine forall₂_congr fun op _ => ?_
    have hint : ∀ c : ℤ, ((BitVec.ofInt 8 c).toNat : ℤ) = c ↔ 0 ≤ c ∧ c < 256 := by
      intro c
      rw [BitVec.toNat_ofInt]
      omega
    rw [← hint]
    exact ⟨fun h => congrArg OpClass.globalOpClass h, fun h => by rw [h]; rfl⟩
  rw [← ssid_recovered_iff h.ssid h.ssidLength, ← hclass]
  constructor
  · intro hrec
    refine ⟨?_, ?_⟩
    · rw [← hs]
      exact hrec.ssid
    · rw [← hc]
      exact hrec.apChRpt
  · rintro ⟨hssid, hrpts⟩
    refine ⟨rfl, rfl, ?_, ?_, rfl, hsl, hs.trans hssid, hd, hr, hc.trans hrpts⟩
    · exact Nat.mod_eq_of_lt h.randIntvl
    · exact Nat.mod_eq_of_lt h.measDur

end Generated

/-- A beacon request comes through just when an SSID of 32 bytes ends in a zero byte and the
operating classes are bytes. -/
theorem roundTrips_iff (q : RmMeasReq) (h : Described q) : RoundTrips q ↔
    (q.bcn.ssidLength = 32 → q.bcn.ssid.getD 31 0 = 0) ∧
      ∀ op ∈ q.bcn.apChRpt, 0 ≤ op.globalOpClass ∧ op.globalOpClass < 256 := by
  rw [← recovered_parsed_iff h]
  constructor
  · intro hq
    have hmem := holdsAt_store (fun _ => (0 : Byte)) 0 (issueRadioMeasReq q)
    obtain ⟨turns, q', hvalue, hrec⟩ := hq.recovered h.fits _ hmem
    obtain ⟨rfl, -⟩ := Prod.mk.inj
      (rmRecvRadioMensReq_unique hvalue (value_rmRecvRadioMensReq h hmem))
    exact hrec
  · intro hrec
    exact ⟨(lengthByte_iff h).mpr h.fits, fun _ mem hmem =>
      ⟨_, parsed q, value_rmRecvRadioMensReq h hmem, hrec⟩⟩

/-- A request for an SSID, with a report on the channels 1, 6 and 11. -/
def ssidReq (ssid : List Byte) : RmMeasReq :=
  { zeroReq with
    category := 5, diagToken := 1, eId := measReqIe, mType := bcnReq, opClass := 81, chNum := 255
    bssid := List.replicate 6 0xff
    bcn :=
      { zeroReq.bcn with
        ssidLength := ssid.length, ssid := ssid ++ List.replicate (32 - ssid.length) 0
        reqId := [0, 48], apChRpt := [⟨81, 3, [1, 6, 11]⟩] } }

theorem described_ssidReq {ssid : List Byte} (h : ssid.length ≤ 32) : Described (ssidReq ssid) where
  eId := rfl
  mType := rfl
  randIntvl := by simp [ssidReq, zeroReq]
  measDur := by simp [ssidReq, zeroReq]
  bssid := rfl
  ssid := by simp [ssidReq, h]
  ssidLength := h
  reqId := by simp [ssidReq, bcnReqReqOptMaxNum]
  apChRpt := by simp [ssidReq, bcnReqOptApChRptMaxNum]
  channels := by simp [ssidReq, maxChNumInOpClass]

theorem ssidReq_roundTrips : RoundTrips (ssidReq [97, 98, 99]) :=
  (roundTrips_iff (ssidReq [97, 98, 99]) (described_ssidReq (by decide))).mpr
    ⟨by decide, by decide⟩

/-- The last byte of a long SSID is lost. -/
theorem longSsid_not_roundTrips : ¬RoundTrips (ssidReq (List.replicate 32 97)) := by
  intro hq
  have h : Described (ssidReq (List.replicate 32 97)) := described_ssidReq (by decide)
  have hmem := holdsAt_store (fun _ => (0 : Byte)) 0
    (issueRadioMeasReq (ssidReq (List.replicate 32 97)))
  obtain ⟨turns, q', hvalue, hrec⟩ := hq.recovered h.fits _ hmem
  obtain ⟨rfl, -⟩ := Prod.mk.inj
    (rmRecvRadioMensReq_unique hvalue (value_rmRecvRadioMensReq h hmem))
  exact absurd (((recovered_parsed_iff h).mp hrec).1 (by decide)) (by decide)

end Rtl8821cu.RmReq
