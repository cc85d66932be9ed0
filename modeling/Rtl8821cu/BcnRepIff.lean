import Rtl8821cu.BcnRepPack

/-! Beacon reports are well formed and complete just when they fit (`core/rtw_rm.c`). -/
namespace Rtl8821cu.BcnRep
open Store Elements Ies Pack
open RmReq (Byte BcnReqOpt RmMeasReq)
open BcnEdit (fixedIeLength)

/-- The element is one of those that the network sent. -/
def InIes (net : Network) (e : Element) : Prop :=
  ∃ front, HoldsAt net.ies fixedIeLength (encode (front ++ [e])) ∧
    fixedIeLength + (encode (front ++ [e])).length ≤ net.ieLength

/-- The ids that a request element asks for. -/
def requestedIds (opt : BcnReqOpt) : List Byte := if 10 ∈ opt.optId then reqIds opt else []

/-- What a report has behind its fixed part. -/
inductive DetailOf (opt : BcnReqOpt) (net : Network) : List Byte → Prop
  | none (h0 : opt.repDetail ≠ 1) (h2 : opt.repDetail ≠ 2) : DetailOf opt net []
  | requested (h : opt.repDetail = 1) {e : Element} (hid : e.id = 1) (es : List Element)
      (hbody : e.body = load net.ies 0 fixedIeLength ++ encode es)
      (hes : ∀ x, InIes net x → x.id ∈ requestedIds opt → x ∈ es) : DetailOf opt net e.bytes
  | all (h : opt.repDetail = 2) {e : Element} (hid : e.id = 1)
      (hbody : e.body = load net.ies 0 (net.ieLength - 4)) : DetailOf opt net e.bytes

/-- A measurement report element for the network. -/
inductive ReportOf (prm : RmObj) (net : Network) : List Byte → Prop
  | mk {e : Element} {detail : List Byte} (hid : e.id = measRspIe)
      (hbody : e.body = repFixed prm net ++ detail) (hdetail : DetailOf prm.q.bcn net detail) :
      ReportOf prm net e.bytes

/-- The SSID of the network is the requested one, if one is. -/
def SsidIs (opt : BcnReqOpt) (net : Network) : Prop :=
  opt.ssidLength = 0 ∨ net.ssid.take net.ssidLength = opt.ssid.take opt.ssidLength

/-- A network that the request is about. -/
def Matches (prm : RmObj) (net : Network) : Prop :=
  rtwValidateSsid net = true ∧ bssidMatch prm.q net = true ∧ SsidIs prm.q.bcn net ∧
    chMatch prm net = true

instance (opt : BcnReqOpt) (net : Network) : Decidable (SsidIs opt net) :=
  inferInstanceAs (Decidable (_ ∨ _))

instance (prm : RmObj) (net : Network) : Decidable (Matches prm net) :=
  inferInstanceAs (Decidable (_ ∧ _))

/-- The scan table was walked to its end inside of all bounds, or no network of it passes the
checks, and the buffers that are sent hold a report for each network that matches. -/
structure Complete (prm : RmObj) (table : ScanTable) (r : Retrieved × ℕ) : Prop where
  finished : r.1.failed = true → ∀ net ∈ table.nets, ¬selected prm net = true
  safe : r.1.fault = false
  count : r.2 ≤ maxBufNum
  short : ∀ b ∈ packets r, b.flatten.length < maxXmitExtbufSz
  reports : List.Forall₂ (ReportOf prm) (table.nets.filter fun net => Matches prm net)
    (packets r).flatten

/-- The element is found below the limit that the search for it gets. -/
def FirstWithin (net : Network) (e : Element) : Prop :=
  ∃ front, HoldsAt net.ies fixedIeLength (encode (front ++ [e])) ∧ (∀ x ∈ front, x.id ≠ e.id) ∧
    (encode front).length < searchLimit net

/-- The SSID of the network, as an element. -/
def ssidElem (net : Network) : Element where
  id := 0
  body := net.ssid.take net.ssidLength
  length_le := by
    have := net.length_ssid
    rw [List.length_take]
    omega

def searched (net : Network) (eid : Byte) : Option Element :=
  (Ies.rtwGetIe net.ies fixedIeLength eid (searchLimit net)).map fun r => elementAt net.ies r.1

/-- The elements that are reported for an option of the request. -/
def optReported (opt : BcnReqOpt) (net : Network) (id : Byte) : List Element :=
  if id = 0 then [ssidElem net]
  else if id = 10 then (reqIds opt).filterMap (searched net)
  else []

def reported (opt : BcnReqOpt) (net : Network) : List Element :=
  opt.optId.flatMap (optReported opt net)

/-- The bytes of the reported frame body. -/
def detailSize (opt : BcnReqOpt) (net : Network) : ℕ :=
  if opt.repDetail = 2 then 2 + (net.ieLength - 4)
  else if opt.repDetail = 1 then 2 + (fixedIeLength + (encode (reported opt net)).length)
  else 0

def reportSize (prm : RmObj) (net : Network) : ℕ := 31 + detailSize prm.q.bcn net

/-- A report whose lengths fit into a byte each, with all requested elements before the limit of the
search. -/
structure RepFits (prm : RmObj) (net : Network) : Prop where
  size : reportSize prm net ≤ 257
  all : prm.q.bcn.repDetail = 2 → 4 ≤ net.ieLength
  requested : prm.q.bcn.repDetail = 1 → ∀ e, InIes net e → e.id ∈ requestedIds prm.q.bcn →
    FirstWithin net e ∨ (0 ∈ prm.q.bcn.optId ∧ e = ssidElem net)

/-- There is memory for each buffer, the requested SSID fits its array and is not just the start of
that of a network that matches otherwise, each report fits, and without reports no buffer was
left. -/
structure Reportable (alloc : ℕ → Bool) (prm : RmObj) (table : ScanTable) : Prop where
  ssidLength : ∀ net ∈ table.nets, rtwValidateSsid net = true → bssidMatch prm.q net = true →
    prm.q.bcn.ssidLength ≤ 32
  ssid : ∀ net ∈ table.nets, selected prm net = true → SsidIs prm.q.bcn net
  fits : ∀ net ∈ table.nets, Matches prm net → RepFits prm net
  alloc : ∀ i < (pack (reportSize prm) packCap
    (table.nets.filter fun net => Matches prm net)).length, alloc i = true
  buf : (∃ net ∈ table.nets, Matches prm net) ∨ (prm.buf 0).getD [] = []

/-- No network matches, or passes the checks. -/
def NothingFound (prm : RmObj) (table : ScanTable) : Prop :=
  ∀ net ∈ table.nets, ¬selected prm net = true ∧ ¬Matches prm net

section Report

variable {prm : RmObj} {net : Network} {opt : BcnReqOpt} {e : Element} {eid : Byte}

theorem id_of_searched (h : searched net eid = some e) : e.id = eid := by
  obtain ⟨⟨p, len⟩, hr, rfl⟩ := Option.map_eq_some_iff.mp h
  exact (rtwGetIe_some hr).1

theorem searched_iff : searched net e.id = some e ↔ FirstWithin net e := by
  constructor
  · intro h
    obtain ⟨⟨p, len⟩, hr, he⟩ := Option.map_eq_some_iff.mp h
    obtain ⟨front, hfront, hids, hp, hlimit⟩ := rtwGetIe_front hr
    refine ⟨front, ?_, hids, hlimit⟩
    rw [encode_append, holdsAt_append, ← hp, encode_cons, encode_nil, List.append_nil, ← he]
    exact ⟨hfront, holdsAt_elementAt net.ies p⟩
  · rintro ⟨front, hholds, hids, hlimit⟩
    rw [searched, rtwGetIe_of_holdsAt hholds hids rfl hlimit, Option.map_some]
    congr 1
    rw [encode_append, holdsAt_append] at hholds
    refine List.singleton_inj.mp (eq_of_holdsAt (a := fixedIeLength + (encode front).length) ?_
      hholds.2 ?_)
    · rw [encode_cons, encode_nil, List.append_nil]
      exact holdsAt_elementAt _ _
    · obtain ⟨-, hlen, -⟩ := holdsAt_bytes (holdsAt_encode_cons.mp hholds.2).1
      simp [encode_cons, length_elementAt, hlen]

theorem mem_reported_iff (hid : e.id ∈ requestedIds opt) :
    e ∈ reported opt net ↔ FirstWithin net e ∨ (0 ∈ opt.optId ∧ e = ssidElem net) := by
  unfold requestedIds at hid
  split_ifs at hid with h10
  · rw [reported, List.mem_flatMap, ← searched_iff]
    constructor
    · rintro ⟨id, hopt, he⟩
      unfold optReported at he
      split_ifs at he with h0 h1
      · exact .inr ⟨h0 ▸ hopt, List.mem_singleton.mp he⟩
      · obtain ⟨eid, -, hs⟩ := List.mem_filterMap.mp he
        obtain rfl := id_of_searched hs
        exact .inl hs
      · cases he
    · rintro (hs | ⟨h0, rfl⟩)
      · exact ⟨10, h10, List.mem_filterMap.mpr ⟨e.id, hid, hs⟩⟩
      · exact ⟨0, h0, List.mem_singleton.mpr rfl⟩
  · cases hid

theorem reqElem_eq : reqElem net eid = encode (searched net eid).toList := by
  unfold reqElem searched
  split
  · next h => rw [h, Option.map_none, Option.toList_none, encode_nil]
  · next p len h =>
    obtain ⟨hp, rfl⟩ := rtwGetIe_some h
    rw [h, Option.map_some, Option.toList_some, encode_cons, encode_nil, List.append_nil, rtwSetIe,
      length_load, Element.bytes, length_elementAt, ← hp]
    rfl

theorem optElems_eq (id : Byte) : optElems opt net id = encode (optReported opt net id) := by
  unfold optElems optReported
  split_ifs
  · simp [encode, Element.bytes, ssidElem, rtwSetIe]
  · induction reqIds opt with
    | nil => rfl
    | cons eid l ih =>
      rw [List.flatMap_cons, ih, reqElem_eq, List.filterMap_cons]
      cases searched net eid with
      | none => rfl
      | some e => rw [Option.toList_some, ← encode_append, List.singleton_append]
  · rfl

theorem flatMap_optElems : opt.optId.flatMap (optElems opt net) = encode (reported opt net) := by
  unfold reported encode
  rw [List.flatMap_assoc]
  congr 1
  funext id
  exact optElems_eq id

theorem detail_of_requested (h : opt.repDetail = 1) : rmGenBcnDetailElem opt net =
    rtwSetIe 1 (load net.ies 0 fixedIeLength ++ encode (reported opt net)) := by
  rw [rmGenBcnDetailElem, if_neg (by rw [h]; decide), if_neg (by rw [h]; decide), flatMap_optElems]

theorem detail_of_all (h : opt.repDetail = 2) :
    rmGenBcnDetailElem opt net = rtwSetIe 1 (load net.ies 0 (net.ieLength - 4)) := by
  rw [rmGenBcnDetailElem, if_neg (by rw [h]; decide), if_pos h]

theorem detail_of_none (h1 : opt.repDetail ≠ 1) (h2 : opt.repDetail ≠ 2) :
    rmGenBcnDetailElem opt net = [] := by
  rw [rmGenBcnDetailElem, if_pos]
  by_contra hnot
  have h0 : opt.repDetail.toNat ≠ 0 := fun h => hnot (.inl (BitVec.eq_of_toNat_eq h))
  have h1' : opt.repDetail.toNat ≠ 1 := fun h => h1 (BitVec.eq_of_toNat_eq h)
  have h2' : opt.repDetail.toNat ≠ 2 := fun h => h2 (BitVec.eq_of_toNat_eq h)
  exact hnot (.inr (by omega))

theorem length_rtwSetIe (index : Byte) (source : List Byte) :
    (rtwSetIe index source).length = source.length + 2 := rfl

theorem length_rmGenBcnDetailElem : (rmGenBcnDetailElem opt net).length = detailSize opt net := by
  unfold detailSize
  by_cases h2 : opt.repDetail = 2
  · rw [detail_of_all h2, if_pos h2, length_rtwSetIe, length_load]
    omega
  by_cases h1 : opt.repDetail = 1
  · rw [detail_of_requested h1, if_neg h2, if_pos h1, length_rtwSetIe, List.length_append,
      length_load]
    omega
  · rw [detail_of_none h1 h2, if_neg h2, if_neg h1, List.length_nil]

theorem length_repFixed : (repFixed prm net).length = 29 := by
  simp [repFixed, net.length_macAddress]

theorem length_rmGenBcnRepIe : (rmGenBcnRepIe prm net).length = reportSize prm net := by
  rw [rmGenBcnRepIe, length_rtwSetIe, List.length_append, length_repFixed,
    length_rmGenBcnDetailElem, reportSize]
  omega

/-- An element is written as one when its length fits into a byte. -/
theorem rtwSetIe_eq_bytes {index : Byte} {source : List Byte} (h : source.length ≤ 255) :
    rtwSetIe index source = (Element.mk index source h).bytes := rfl

theorem bytes_eq_rtwSetIe {index : Byte} {source : List Byte}
    (h : e.bytes = rtwSetIe index source) : e.id = index ∧ e.body = source := by
  obtain ⟨hid, hrest⟩ := List.cons.inj h
  exact ⟨hid, (List.cons.inj hrest).2⟩

theorem detailOf_iff (hsize : detailSize opt net ≤ 257) :
    DetailOf opt net (rmGenBcnDetailElem opt net) ↔
      (opt.repDetail = 1 → ∀ e, InIes net e → e.id ∈ requestedIds opt →
        FirstWithin net e ∨ (0 ∈ opt.optId ∧ e = ssidElem net)) := by
  rw [← length_rmGenBcnDetailElem] at hsize
  by_cases h1 : opt.repDetail = 1
  · rw [detail_of_requested h1, length_rtwSetIe] at *
    constructor
    · intro h _ x hx hid
      generalize hbytes : rtwSetIe 1 _ = bytes at h
      cases h with
      | none hn => exact absurd h1 hn
      | requested _ he es hbody hes =>
        obtain ⟨-, hbody'⟩ := bytes_eq_rtwSetIe hbytes.symm
        rw [hbody', List.append_cancel_left_eq] at hbody
        rw [← mem_reported_iff hid, encode_injective hbody]
        exact hes x hx hid
      | all h2 => rw [h1] at h2; cases h2
    · intro h
      rw [rtwSetIe_eq_bytes (by omega)]
      exact .requested h1 rfl (reported opt net) rfl fun x hx hid =>
        (mem_reported_iff hid).mpr (h h1 x hx hid)
  · refine iff_of_true ?_ fun h => absurd h h1
    by_cases h2 : opt.repDetail = 2
    · rw [detail_of_all h2, length_rtwSetIe] at *
      rw [rtwSetIe_eq_bytes (by omega)]
      exact .all h2 rfl rfl
    · rw [detail_of_none h1 h2]
      exact .none h1 h2

theorem reportOf_iff : ReportOf prm net (rmGenBcnRepIe prm net) ↔ reportSize prm net ≤ 257 ∧
    DetailOf prm.q.bcn net (rmGenBcnDetailElem prm.q.bcn net) := by
  rw [← length_rmGenBcnRepIe, rmGenBcnRepIe, length_rtwSetIe]
  constructor
  · intro h
    generalize hbytes : rtwSetIe measRspIe _ = bytes at h
    obtain ⟨hid, hbody, hdetail⟩ := h
    obtain ⟨-, hbody'⟩ := bytes_eq_rtwSetIe hbytes.symm
    rename Element => e
    have := e.length_le
    rw [hbody'] at this
    rw [hbody', List.append_cancel_left_eq] at hbody
    exact ⟨by omega, hbody ▸ hdetail⟩
  · rintro ⟨hsize, hdetail⟩
    rw [rtwSetIe_eq_bytes (by omega)]
    exact .mk rfl rfl hdetail

/-- A report is one, written inside of all bounds, just when it fits. -/
theorem repFits_iff : ReportOf prm net (rmGenBcnRepIe prm net) ∧ repFault prm net = false ↔
    RepFits prm net := by
  rw [reportOf_iff]
  have hfault (hsize : reportSize prm net ≤ 257) : repFault prm net = false ↔
      (prm.q.bcn.repDetail = 2 → 4 ≤ net.ieLength) := by
    unfold repFault maxXmitExtbufSz
    rw [length_rmGenBcnRepIe, Bool.or_eq_false_iff, decide_eq_false_iff_not, Bool.and_eq_false_iff,
      beq_eq_false_iff_ne, decide_eq_false_iff_not]
    constructor
    · rintro ⟨h | h, -⟩ h2
      · exact absurd h2 h
      · omega
    · intro h
      refine ⟨?_, by omega⟩
      by_cases h2 : prm.q.bcn.repDetail = 2
      · exact .inr (Nat.not_lt.mpr (h h2))
      · exact .inl h2
  have hdetail (hsize : reportSize prm net ≤ 257) : detailSize prm.q.bcn net ≤ 257 := by
    unfold reportSize at hsize
    omega
  constructor
  · rintro ⟨⟨hsize, h⟩, hf⟩
    exact ⟨hsize, (hfault hsize).mp hf, (detailOf_iff (hdetail hsize)).mp h⟩
  · rintro ⟨hsize, hall, hreq⟩
    exact ⟨⟨hsize, (detailOf_iff (hdetail hsize)).mpr hreq⟩, (hfault hsize).mpr hall⟩

end Report

section Table

variable {prm : RmObj} {net : Network} {nets : List Network} {table : ScanTable} {tmpBuf : Bool}
  {alloc : ℕ → Bool}

theorem ssidMatch_of_ssidIs (hlen : prm.q.bcn.ssidLength ≤ 32) (hv : rtwValidateSsid net = true)
    (h : SsidIs prm.q.bcn net) : ssidMatch prm.q net = true := by
  unfold rtwValidateSsid at hv
  rw [decide_eq_true_eq] at hv
  unfold ssidMatch
  rcases h with h0 | heq
  · simp [h0]
  · have hl := congrArg List.length heq
    rw [List.length_take, List.length_take, net.length_ssid, prm.length_ssid, min_eq_left hv,
      min_eq_left hlen] at hl
    rw [← heq, hl]
    simp

/-- The loop reports the networks that match, and those whose SSID only starts like the one
requested. -/
theorem matches_iff_selected
    (hlen : rtwValidateSsid net = true → bssidMatch prm.q net = true → prm.q.bcn.ssidLength ≤ 32) :
    Matches prm net ↔ selected prm net = true ∧ SsidIs prm.q.bcn net := by
  unfold Matches selected
  simp only [Bool.and_eq_true]
  constructor
  · rintro ⟨hv, hb, hs, hc⟩
    exact ⟨⟨⟨hv, hb⟩, ssidMatch_of_ssidIs (hlen hv hb) hv hs, hc⟩, hs⟩
  · rintro ⟨⟨⟨hv, hb⟩, -, hc⟩, hs⟩
    exact ⟨hv, hb, hs, hc⟩

/-- As many networks are reported as match just when they are the same. -/
theorem length_filter_eq_iff (hlen : ∀ net ∈ nets, rtwValidateSsid net = true →
    bssidMatch prm.q net = true → prm.q.bcn.ssidLength ≤ 32) :
    (nets.filter fun net => Matches prm net).length = (nets.filter (selected prm)).length ↔
      ∀ net ∈ nets, selected prm net = true → SsidIs prm.q.bcn net := by
  have hsub : (nets.filter fun net => Matches prm net) =
      (nets.filter (selected prm)).filter fun net => Matches prm net := by
    rw [List.filter_filter]
    refine List.filter_congr fun net hnet => ?_
    rw [Bool.eq_iff_iff, Bool.and_eq_true, decide_eq_true_eq]
    exact ⟨fun h => ⟨h, ((matches_iff_selected (hlen net hnet)).mp h).1⟩, And.left⟩
  rw [hsub, List.length_filter_eq_length_iff]
  constructor
  · intro h net hnet hsel
    have hmatches := of_decide_eq_true (h net (List.mem_filter.mpr ⟨hnet, hsel⟩))
    exact ((matches_iff_selected (hlen net hnet)).mp hmatches).2
  · intro h net hnet
    obtain ⟨hnet, hsel⟩ := List.mem_filter.mp hnet
    exact decide_eq_true ((matches_iff_selected (hlen net hnet)).mpr ⟨hsel, h net hnet hsel⟩)

theorem filter_matches_eq (hlen : ∀ net ∈ nets, rtwValidateSsid net = true →
    bssidMatch prm.q net = true → prm.q.bcn.ssidLength ≤ 32)
    (hssid : ∀ net ∈ nets, selected prm net = true → SsidIs prm.q.bcn net) :
    (nets.filter fun net => Matches prm net) = nets.filter (selected prm) := by
  refine List.filter_congr fun net hnet => ?_
  rw [Bool.eq_iff_iff, decide_eq_true_eq, matches_iff_selected (hlen net hnet)]
  exact and_iff_left_of_imp (hssid net hnet)

theorem forall₂_reports_iff (nets : List Network) :
    List.Forall₂ (ReportOf prm) nets (nets.map (rmGenBcnRepIe prm)) ↔
      ∀ net ∈ nets, ReportOf prm net (rmGenBcnRepIe prm net) := by
  rw [List.forall₂_map_right_iff, List.forall₂_same]

theorem length_pack_reports (hsame : (table.nets.filter fun net => Matches prm net) =
      table.nets.filter (selected prm)) :
    (pack List.length packCap (reports prm table.nets)).length =
      (pack (reportSize prm) packCap (table.nets.filter fun net => Matches prm net)).length := by
  rw [hsame, reports, length_pack_map]
  congr 2
  funext net
  exact length_rmGenBcnRepIe

theorem mem_reports {rep : List Byte} : rep ∈ reports prm nets ↔
    ∃ net ∈ nets, selected prm net = true ∧ rmGenBcnRepIe prm net = rep := by
  rw [reports, List.mem_map]
  simp only [List.mem_filter, and_assoc]

theorem flatten_packets (h : (retrieveScanResult true alloc prm table).1.failed = false) :
    (packets (retrieveScanResult true alloc prm table)).flatten =
      if reports prm table.nets = [] then (prm.buf 0).getD [] else reports prm table.nets := by
  rw [packets_retrieveScanResult h]
  split_ifs
  · cases prm.buf 0 <;> simp
  · rw [pack, flatten_foldl_push, List.reverse_nil, List.flatten_nil, List.nil_append]

/-- The loop is left early for a network only. -/
theorem failed_eq_false (h : Complete prm table (retrieveScanResult true alloc prm table)) :
    (retrieveScanResult true alloc prm table).1.failed = false := by
  by_contra hfailed
  rw [Bool.not_eq_false] at hfailed
  have hnil : reports prm table.nets = [] := by
    rw [reports, List.map_eq_nil_iff]
    exact List.filter_eq_nil_iff.mpr (h.finished hfailed)
  have hdone := (@retrieveScanResult_failed_iff alloc prm table).mpr (by
    rw [hnil]
    exact ⟨fun _ hrep => absurd hrep List.not_mem_nil, fun i hi => absurd hi (Nat.not_lt_zero i)⟩)
  rw [hdone] at hfailed
  cases hfailed

theorem reportable_of_complete (hlen : ∀ net ∈ table.nets, rtwValidateSsid net = true →
      bssidMatch prm.q net = true → prm.q.bcn.ssidLength ≤ 32)
    (h : Complete prm table (retrieveScanResult true alloc prm table)) :
    Reportable alloc prm table := by
  have hfinished := failed_eq_false h
  obtain ⟨-, halloc⟩ := retrieveScanResult_failed_iff.mp hfinished
  have hsafe := (retrieveScanResult_fault_iff hfinished).mp h.safe
  have hreports := h.reports
  rw [flatten_packets hfinished] at hreports
  obtain ⟨hssid, hforall, hbuf⟩ : (∀ net ∈ table.nets, selected prm net = true →
      SsidIs prm.q.bcn net) ∧ List.Forall₂ (ReportOf prm)
        (table.nets.filter fun net => Matches prm net) (reports prm table.nets) ∧
      ((∃ net ∈ table.nets, Matches prm net) ∨ (prm.buf 0).getD [] = []) := by
    split_ifs at hreports with hnil
    · have hnone (net : Network) (hnet : net ∈ table.nets) : ¬selected prm net = true := fun hs =>
        List.not_mem_nil (hnil ▸ mem_reports.mpr ⟨net, hnet, hs, rfl⟩)
      have hempty : (table.nets.filter fun net => Matches prm net) = [] := by
        refine List.filter_eq_nil_iff.mpr fun net hnet hm => hnone net hnet ?_
        exact ((matches_iff_selected (hlen net hnet)).mp (of_decide_eq_true hm)).1
      rw [hempty, List.forall₂_nil_left_iff] at hreports
      refine ⟨fun net hnet hs => absurd hs (hnone net hnet), ?_, .inr hreports⟩
      rw [hempty, hnil]
      exact .nil
    · have hlength := hreports.length_eq
      rw [reports, List.length_map] at hlength
      refine ⟨(length_filter_eq_iff hlen).mp hlength, hreports, .inl ?_⟩
      obtain ⟨rep, hrep⟩ := List.exists_mem_of_ne_nil _ hnil
      obtain ⟨net, hnet, hs, -⟩ := mem_reports.mp hrep
      exact ⟨net, hnet, (matches_iff_selected (hlen net hnet)).mpr
        ⟨hs, (length_filter_eq_iff hlen).mp hlength net hnet hs⟩⟩
  have hsame := filter_matches_eq hlen hssid
  rw [reports, ← hsame, forall₂_reports_iff] at hforall
  refine ⟨hlen, hssid, fun net hnet hm => ?_, ?_, hbuf⟩
  · have hs := ((matches_iff_selected (hlen net hnet)).mp hm).1
    refine repFits_iff.mp ⟨hforall net ?_, (hsafe net hnet).rep hs⟩
    exact List.mem_filter.mpr ⟨hnet, decide_eq_true hm⟩
  · rw [← length_pack_reports hsame]
    exact halloc

theorem complete_of_reportable (h : Reportable alloc prm table) :
    Complete prm table (retrieveScanResult true alloc prm table) := by
  have hsame := filter_matches_eq h.ssidLength h.ssid
  have hfits (net : Network) (hnet : net ∈ table.nets) (hs : selected prm net = true) :
      RepFits prm net :=
    h.fits net hnet ((matches_iff_selected (h.ssidLength net hnet)).mpr ⟨hs, h.ssid net hnet hs⟩)
  have hcap (rep : List Byte) (hrep : rep ∈ reports prm table.nets) : rep.length ≤ packCap := by
    obtain ⟨net, hnet, hs, rfl⟩ := mem_reports.mp hrep
    have hsize := (hfits net hnet hs).size
    rw [length_rmGenBcnRepIe, packCap]
    omega
  have hfinished := retrieveScanResult_failed_iff.mpr
    ⟨hcap, by rw [length_pack_reports hsame]; exact h.alloc⟩
  have hpackets := packets_retrieveScanResult hfinished
  have hold (hnil : reports prm table.nets = []) : (prm.buf 0).getD [] = [] := by
    refine h.buf.resolve_left ?_
    rintro ⟨net, hnet, hm⟩
    have hs := ((matches_iff_selected (h.ssidLength net hnet)).mp hm).1
    exact List.not_mem_nil (hnil ▸ mem_reports.mpr ⟨net, hnet, hs, rfl⟩)
  refine ⟨fun hfailed => ?_, (retrieveScanResult_fault_iff hfinished).mpr fun net hnet => ?_, ?_,
    ?_, ?_⟩
  · rw [hfinished] at hfailed
    cases hfailed
  · exact ⟨h.ssidLength net hnet, fun hs => (repFits_iff.mpr (hfits net hnet hs)).2⟩
  · have hcount := congrArg List.length hpackets
    rw [packets, List.length_map, List.length_range] at hcount
    rw [hcount]
    split_ifs
    · cases prm.buf 0 <;> simp [maxBufNum]
    · rw [List.length_reverse]
      exact length_pack_reports_le
  · intro b hb
    rw [hpackets] at hb
    have hshort : b.flatten.length ≤ packCap := by
      split_ifs at hb with hnil
      · have := hold hnil
        rw [Option.mem_toList.mp hb, Option.getD_some] at this
        simp [this]
      · rw [List.length_flatten]
        exact @total_le_of_mem_foldl_push _ List.length packCap [] _
          (fun _ hnil => absurd hnil List.not_mem_nil) hcap b (List.mem_reverse.mp hb)
    unfold packCap at hshort
    unfold maxXmitExtbufSz
    omega
  · have hforall := (forall₂_reports_iff (table.nets.filter fun net => Matches prm net)).mpr
      fun net hnet => by
        obtain ⟨hnet, hm⟩ := List.mem_filter.mp hnet
        exact (repFits_iff.mpr (h.fits net hnet (of_decide_eq_true hm))).1
    rw [flatten_packets hfinished]
    split_ifs with hnil
    · rw [hold hnil]
      rw [hsame, ← reports, hnil] at hforall
      rwa [hsame]
    · rwa [reports, ← hsame]

/-- Without `tmp_buf` nothing is sent. -/
theorem complete_without_tmpBuf_iff :
    Complete prm table (retrieveScanResult false alloc prm table) ↔ NothingFound prm table := by
  have hpackets : packets (retrieveScanResult false alloc prm table) = [] := rfl
  constructor
  · intro h net hnet
    have hreports := h.reports
    rw [hpackets, List.flatten_nil, List.forall₂_nil_right_iff, List.filter_eq_nil_iff] at hreports
    exact ⟨h.finished rfl net hnet, by simpa using hreports net hnet⟩
  · intro h
    refine ⟨fun _ net hnet => (h net hnet).1, rfl, Nat.zero_le _, ?_, ?_⟩
    · rw [hpackets]
      exact nofun
    · rw [hpackets, List.flatten_nil, List.forall₂_nil_right_iff, List.filter_eq_nil_iff]
      exact fun net hnet => by simpa using (h net hnet).2

end Table

/-- A request for all elements of the networks on channel 6. -/
def allReq : RmObj where
  q :=
    { RmReq.zeroReq with
      mType := RmReq.bcnReq, opClass := 81, chNum := 6, bssid := List.replicate 6 0xff
      bcn := { RmReq.zeroReq.bcn with repDetail := 2 } }
  chSet := [6]
  mMode := 0
  measStartTime := 0
  measEndTime := 0
  freeRunCounterValid := false
  buf _ := none
  length_ssid := rfl

/-- A network on channel 6 whose elements take 300 bytes. -/
def longNet : Network where
  macAddress := [0, 1, 2, 3, 4, 5]
  ssidLength := 0
  ssid := List.replicate 32 0
  dsConfig := 6
  signalStrength := 60
  isCckRate := false
  rxSnr := [20]
  freeCnt := 0
  ieLength := 300
  ies _ := 0
  length_macAddress := rfl
  length_ssid := rfl
  ieLength_le := by decide

end Rtl8821cu.BcnRep
