import Rtl8821cu.IeSearch
import Rtl8821cu.LibBounded
import Rtl8821cu.LibBytes

/-! BSS transition frames (`core/rtw_wnm.c`): what the parsers of a request and of a response read
and store. -/
namespace Rtl8821cu.WnmBtm
open Store Reads Reading Bytes IeSearch

abbrev Byte := BitVec 8

def subU32 (a b : ℕ) : ℕ := (a + 2 ^ 32 - b % 2 ^ 32) % 2 ^ 32

def rtwMaxNbRptNum : ℕ := 8

/-- `RTW_WLAN_ACTION_WNM_NB_RPT_ELEM`. -/
def nbRptElem : Byte := 0x34

def wnmBtmCandPrefSubeid : Byte := 3

def wnmBtmTermDurSubeid : Byte := 4

/-- `sizeof(struct nb_rpt_hdr)`. -/
def nbRptHdrSize : ℕ := 16

/-- `sizeof(struct wnm_btm_cant)`. -/
def wnmBtmCantSize : ℕ := 20

structure BtmTermDuration where
  id : Byte
  len : Byte
  tsf : ℕ
  duration : ℕ

structure BtmReqHdr where
  dialogToken : Byte
  reqMode : Byte
  disassocTimer : ℕ
  validityInterval : Byte
  termDuration : BtmTermDuration

/-- The duration of a termination in `rtw_wnm_btm_req_hdr_parsing`. -/
def termDuration : Reading Byte BtmTermDuration := do
  let mode ← cell 3
  if mode.getLsbD 3 then do
    let id ← cell 7
    if id = wnmBtmTermDurSubeid then do
      let len ← cell 8
      let tsf ← cells 9 8
      let duration ← cells 17 2
      pure ⟨id, len, ofLe tsf, ofLe duration⟩
    else pure ⟨0, 0, 0, 0⟩
  else pure ⟨0, 0, 0, 0⟩

def rtwWnmBtmReqHdrParsing : Reading Byte BtmReqHdr := do
  let dialogToken ← cell 2
  let reqMode ← cell 3
  let disassocTimer ← cells 4 2
  let validityInterval ← cell 6
  let duration ← termDuration
  pure ⟨dialogToken, reqMode, ofLe disassocTimer, validityInterval, duration⟩

/-- Where the URL of the session is, or else the candidates. -/
def fixedLen (mode : Byte) : ℕ := 7 + if mode.getLsbD 3 then 12 else 0

def rtwWnmBtmCandidatesOffsetGet : Reading Byte ℕ := do
  let mode ← cell 3
  if mode.getLsbD 4 then do
    let url ← cell (fixedLen mode)
    pure (1 + url.toNat)
  else pure (fixedLen mode)

/-- `struct wnm_btm_cant`: the header of the report as it is copied, and its preference when a
subelement gives one (otherwise 0 is stored). -/
structure WnmBtmCant where
  nbRpt : List Byte
  preference : Option Byte

/-- The preference in `rtw_wnm_nb_elem_parsing`. -/
def preference (op : Option Found) : Reading Byte (Option Byte) :=
  match op with
  | none => pure none
  | some op =>
    if op.len ≠ 0 then do
      let pref ← cell (op.place + 2)
      pure (some pref)
    else pure none

/-- The loop of `rtw_wnm_nb_elem_parsing` for a request, for the turns that are left. -/
def nbElemLoop (pend : ℕ) : ℕ → ℕ → ℕ → ℕ → Reading Byte (List WnmBtmCant)
  | 0, _, _, _ => pure []
  | k + 1, ptr, elemLen, subelemLen =>
    if pend < ptr + 7 ∨ elemLen < subelemLen then pure []
    else do
      let id ← cell ptr
      if id ≠ nbRptElem then pure []
      else do
        let op ← rtwGetIe (ptr + 15) wnmBtmCandPrefSubeid ((subelemLen : ℤ) - 15)
        let next ← cell (ptr + subelemLen + 2 + 1)
        let hdr ← cells ptr nbRptHdrSize
        let pref ← preference op
        let rest ← nbElemLoop pend k (ptr + subelemLen + 2) (subU32 elemLen (subelemLen + 2))
          next.toNat
        pure (⟨hdr, pref⟩ :: rest)

/-- `rtw_wnm_nb_elem_parsing` for a request. -/
def rtwWnmNbElemParsing (pdata dataLen : ℕ) : Reading Byte (List WnmBtmCant) := do
  let subelemLen ← cell (pdata + 1)
  nbElemLoop (pdata + dataLen) rtwMaxNbRptNum pdata dataLen subelemLen.toNat

/-- What is made of a request. -/
inductive BtmReq
  | ignored
  | rejected (hdr : BtmReqHdr)
  | surveyed (hdr : BtmReqHdr) (reqMode : Byte) (candidates : List WnmBtmCant)

/-- The candidates that are stored. -/
def BtmReq.candidates : BtmReq → List WnmBtmCant
  | .surveyed _ _ l => l
  | _ => []

/-- The candidates of `rtw_wnm_btm_candidates_survey`; `alloc` is whether they get memory. -/
def rtwWnmBtmCandidatesSurvey (alloc : Bool) (pframe elemLen : ℕ) :
    Reading Byte (List WnmBtmCant) :=
  if alloc then rtwWnmNbElemParsing pframe elemLen else pure []

def rtwWnmProcessBtmReq (alloc : Bool) (frameLen : ℕ) : Reading Byte BtmReq := do
  let hdr ← rtwWnmBtmReqHdrParsing
  let offset ← rtwWnmBtmCandidatesOffsetGet
  if offset = 0 then pure .ignored
  else if subU32 frameLen offset ≤ 15 then pure (.rejected hdr)
  else do
    let candidates ← rtwWnmBtmCandidatesSurvey alloc offset (subU32 frameLen offset)
    let reqMode ← cell 3
    pure (.surveyed hdr reqMode candidates)

/-- A candidate of a response. -/
structure RspCant where
  id : Byte
  len : Byte
  bssid : List Byte
  bssInfo : ℕ
  regClass : Byte
  chNum : Byte
  phyType : Byte
  preference : Byte

def rspPreference (ptr : ℕ) (sub : Byte) : Reading Byte Byte :=
  if sub = wnmBtmCandPrefSubeid then cell (ptr + 17) else pure 0

/-- The fields of a candidate in `rtw_wnm_process_btm_rsp`. -/
def rspCant (ptr : ℕ) : Reading Byte RspCant := do
  let id ← cell ptr
  let len ← cell (ptr + 1)
  let bssid ← cells (ptr + 2) 6
  let bssInfo ← cells (ptr + 8) 4
  let regClass ← cell (ptr + 12)
  let chNum ← cell (ptr + 13)
  let phyType ← cell (ptr + 14)
  let sub ← cell (ptr + 15)
  let preference ← rspPreference ptr sub
  pure ⟨id, len, bssid, ofLe bssInfo, regClass, chNum, phyType, preference⟩

/-- The loop of `rtw_wnm_process_btm_rsp` for as many turns as are allowed; `given` is whether
there is a buffer for the candidates. -/
def rspLoop (given : Bool) (pend : ℕ) : ℕ → ℕ → Reading Byte (Option (List RspCant))
  | 0, _ => pure none
  | turns + 1, ptr =>
    if pend ≤ ptr then pure (some [])
    else do
      let id ← cell ptr
      if id ≠ nbRptElem then pure (some [])
      else do
        let cant ← rspCant ptr
        let rest ← rspLoop given pend turns (ptr + cant.len.toNat + 2)
        pure (rest.map fun l => if given then cant :: l else l)

structure BtmRspHdr where
  dialogToken : Byte
  status : Byte
  terminationDelay : Byte
  bssid : List Byte
  candidates : List RspCant

/-- The target of a response that accepts. -/
def rspBssid (status : Byte) (frameLen : ℕ) : Reading Byte (List Byte) :=
  if status = 0 ∧ 11 ≤ frameLen then cells 5 6 else pure (List.replicate 6 0)

def rtwWnmProcessBtmRsp (given : Bool) (frameLen turns : ℕ) : Reading Byte (Option BtmRspHdr) := do
  let dialogToken ← cell 2
  let status ← cell 3
  let delay ← cell 4
  if frameLen ≤ 5 then pure (some ⟨dialogToken, status, delay, List.replicate 6 0, []⟩)
  else do
    let bssid ← rspBssid status frameLen
    if (status = 0 ∨ status = 6) ∧ 23 ≤ frameLen then do
      let ptr := 5 + if status = 0 then 6 else 0
      let candidates ← rspLoop given (ptr + frameLen) turns ptr
      pure (candidates.map fun l => ⟨dialogToken, status, delay, bssid, l⟩)
    else pure (some ⟨dialogToken, status, delay, bssid, []⟩)

def rtwWnmBtmRspCandidatesSzGet (frameLen : ℕ) : Reading Byte ℕ :=
  if frameLen ≤ 5 then pure 0
  else do
    let status ← cell 3
    if (status ≠ 0 ∧ status ≠ 6) ∨ frameLen < 23 then pure 0
    else
      let num := if status = 0 then (frameLen - 5 - 6) / 18 else (frameLen - 5) / 18
      pure (wnmBtmCantSize * num % 2 ^ 32)

/-- The parser of a request keeps to the frame and stores at most as many candidates as there is
room for. -/
structure ReqBounded (mem : ℕ → Byte) (frameLen : ℕ) : Prop where
  inside : ∀ alloc, (rtwWnmProcessBtmReq alloc frameLen).Inside mem 0 frameLen
  stored : ∀ alloc,
    ((rtwWnmProcessBtmReq alloc frameLen).value mem).candidates.length ≤ rtwMaxNbRptNum

/-- The parser of a response keeps to the frame and stores no more candidates than fit in the buffer
that its caller gives it, if there is any. -/
structure RspBounded (mem : ℕ → Byte) (frameLen : ℕ) : Prop where
  size : (rtwWnmBtmRspCandidatesSzGet frameLen).Inside mem 0 frameLen
  rsp : ∀ given, (given = true → 0 < (rtwWnmBtmRspCandidatesSzGet frameLen).value mem) →
    Bounded (rtwWnmProcessBtmRsp given frameLen) mem frameLen fun r =>
      r.candidates.length * wnmBtmCantSize ≤ (rtwWnmBtmRspCandidatesSzGet frameLen).value mem

/-- The next `k` reports that are taken: each has the size of its header, and two more bytes of the
frame behind it. -/
def ReportsFit (mem : ℕ → Byte) (n : ℕ) : ℕ → ℕ → Prop
  | 0, _ => True
  | k + 1, ptr => ptr + 7 ≤ n → ptr + (mem (ptr + 1)).toNat ≤ n → mem ptr = nbRptElem →
    ptr + nbRptHdrSize ≤ n ∧ ptr + (mem (ptr + 1)).toNat + 4 ≤ n ∧
      ReportsFit mem n k (ptr + (mem (ptr + 1)).toNat + 2)

/-- A request that is as long as its parser takes it for. -/
structure ReqFits (mem : ℕ → Byte) (n : ℕ) : Prop where
  hdr : 7 ≤ n
  term : (mem 3).getLsbD 3 = true → 8 ≤ n ∧ (mem 7 = wnmBtmTermDurSubeid → 19 ≤ n)
  url : (mem 3).getLsbD 4 = true → fixedLen (mem 3) < n
  offset : rtwWnmBtmCandidatesOffsetGet.value mem ≤ n
  reports : rtwWnmBtmCandidatesOffsetGet.value mem + 15 < n →
    ReportsFit mem n rtwMaxNbRptNum (rtwWnmBtmCandidatesOffsetGet.value mem)

/-- The `k` candidates from a position on lie in the frame, up to something else in the frame or to
the end that the parser takes. -/
inductive Candidates (mem : ℕ → Byte) (n pend : ℕ) : ℕ → ℕ → Prop
  | past {ptr : ℕ} (h : pend ≤ ptr) : Candidates mem n pend ptr 0
  | other {ptr : ℕ} (h : ptr < pend) (hin : ptr < n) (hid : mem ptr ≠ nbRptElem) :
      Candidates mem n pend ptr 0
  | elem {ptr k : ℕ} (h : ptr < pend) (hid : mem ptr = nbRptElem) (hin : ptr + 16 ≤ n)
      (hpref : mem (ptr + 15) = wnmBtmCandPrefSubeid → ptr + 18 ≤ n)
      (rest : Candidates mem n pend (ptr + (mem (ptr + 1)).toNat + 2) k) :
      Candidates mem n pend ptr (k + 1)

/-- Where the candidates of a response start. -/
def rspStart (mem : ℕ → Byte) : ℕ := 5 + if mem 3 = 0 then 6 else 0

/-- A response that is as long as its parser takes it for. -/
structure RspFits (mem : ℕ → Byte) (n : ℕ) : Prop where
  hdr : 5 ≤ n
  candidates : mem 3 = 0 ∨ mem 3 = 6 → 23 ≤ n →
    ∃ k, Candidates mem n (rspStart mem + n) (rspStart mem) k ∧
      (0 < (rtwWnmBtmRspCandidatesSzGet n).value mem →
        k * wnmBtmCantSize ≤ (rtwWnmBtmRspCandidatesSzGet n).value mem)

section Req

variable {mem : ℕ → Byte} {n k ptr a : ℕ}

theorem subU32_of_le {b : ℕ} (hle : b ≤ a) (ha : a < 2 ^ 32) : subU32 a b = a - b := by
  rw [subU32, Nat.mod_eq_of_lt (hle.trans_lt ha), show a + 2 ^ 32 - b = a - b + 2 ^ 32 by omega,
    Nat.add_mod_right, Nat.mod_eq_of_lt (by omega)]

theorem inside_getIeLoop {index : Byte} {limit i : ℕ} (hi : i < limit) (h : a + limit < n) :
    (getIeLoop a index limit i).Inside mem 0 n ∧
      ∀ op ∈ (getIeLoop a index limit i).value mem, op.place < a + limit := by
  fun_induction getIeLoop a index limit i with
  | case1 i ih =>
    have ih := ih (mem (a + i + 1))
    rw [inside_bind, inside_bind, inside_cell, inside_cell, value_cell, value_cell, value_bind,
      value_bind, value_cell, value_cell]
    split_ifs with hid hend
    · refine ⟨⟨by omega, by omega, inside_pure _⟩, ?_⟩
      rintro _ ⟨⟩
      dsimp only
      omega
    · refine ⟨⟨by omega, by omega, inside_pure _⟩, ?_⟩
      rintro _ ⟨⟩
    · obtain ⟨hin, hplace⟩ := ih hend (by omega)
      exact ⟨⟨by omega, by omega, hin⟩, hplace⟩

/-- The search for the preference and what is read of it stay in the report. -/
theorem inside_rtwGetIe {index : Byte} {len : ℕ} (h : ptr + len + 2 ≤ n) :
    (rtwGetIe (ptr + 15) index ((len : ℤ) - 15)).Inside mem 0 n ∧
      (preference ((rtwGetIe (ptr + 15) index ((len : ℤ) - 15)).value mem)).Inside mem 0 n := by
  rw [rtwGetIe]
  split_ifs with hlimit
  · exact ⟨inside_pure _, inside_pure _⟩
  · obtain ⟨hin, hplace⟩ := @inside_getIeLoop mem n (ptr + 15) index ((len : ℤ) - 15).toNat 0
      (by omega) (by omega)
    refine ⟨hin, ?_⟩
    cases hop : (getIeLoop (ptr + 15) index ((len : ℤ) - 15).toNat 0).value mem with
    | none => exact inside_pure _
    | some op =>
      have := hplace op hop
      rw [preference, inside_ite, inside_bind, inside_cell]
      exact ⟨fun _ => ⟨⟨by omega, by omega⟩, inside_pure _⟩, fun _ => inside_pure _⟩

theorem inside_nbElemLoop (hn : n < 2 ^ 32) (hptr : ptr ≤ n) :
    (nbElemLoop n k ptr (n - ptr) (mem (ptr + 1)).toNat).Inside mem 0 n ↔
      ReportsFit mem n k ptr := by
  induction k generalizing ptr with
  | zero => exact iff_of_true (inside_pure _) trivial
  | succ k ih =>
    rw [nbElemLoop, ReportsFit]
    by_cases hshort : n < ptr + 7 ∨ n - ptr < (mem (ptr + 1)).toNat
    · rw [if_pos hshort]
      refine iff_of_true (inside_pure _) fun h7 hlen => ?_
      omega
    · rw [if_neg hshort, inside_bind, inside_cell, value_cell]
      by_cases hid : mem ptr ≠ nbRptElem
      · rw [if_pos hid]
        exact iff_of_true ⟨⟨by omega, by omega⟩, inside_pure _⟩ fun _ _ h => absurd h hid
      · rw [if_neg hid, inside_bind, inside_bind, inside_bind, inside_bind, inside_bind,
          inside_cell, value_cell, inside_cells, value_cells]
        have hrest : ptr + (mem (ptr + 1)).toNat + 4 ≤ n →
            ((nbElemLoop n k (ptr + (mem (ptr + 1)).toNat + 2)
              (subU32 (n - ptr) ((mem (ptr + 1)).toNat + 2))
                (mem (ptr + (mem (ptr + 1)).toNat + 2 + 1)).toNat).Inside mem 0 n ↔
              ReportsFit mem n k (ptr + (mem (ptr + 1)).toNat + 2)) := by
          intro hend
          rw [subU32_of_le (by omega) (by omega), ← ih (by omega),
            show n - ptr - ((mem (ptr + 1)).toNat + 2) = n - (ptr + (mem (ptr + 1)).toNat + 2) by
              omega]
        constructor
        · rintro ⟨-, -, ⟨-, hnext⟩, hhdr, -, hin, -⟩ - - -
          unfold nbRptHdrSize at *
          exact ⟨by omega, by omega, (hrest (by omega)).mp hin⟩
        · intro h
          obtain ⟨hhdr, hend, hfit⟩ := h (by omega) (by omega) (not_not.mp hid)
          obtain ⟨hie, hpref⟩ := @inside_rtwGetIe mem n ptr wnmBtmCandPrefSubeid
            (mem (ptr + 1)).toNat (by omega)
          exact ⟨⟨by omega, by omega⟩, hie, ⟨by omega, by omega⟩, .inr ⟨by omega, by omega⟩, hpref,
            (hrest hend).mpr hfit, inside_pure _⟩

theorem length_nbElemLoop (pend elemLen subelemLen : ℕ) :
    ((nbElemLoop pend k ptr elemLen subelemLen).value mem).length ≤ k := by
  induction k generalizing ptr elemLen subelemLen with
  | zero => exact le_rfl
  | succ k ih =>
    rw [nbElemLoop]
    split_ifs
    · exact Nat.zero_le _
    · rw [value_bind, value_cell]
      split_ifs
      · exact Nat.zero_le _
      · simp only [value_bind, value_pure, List.length_cons]
        exact Nat.succ_le_succ (ih _ _)

theorem inside_termDuration : termDuration.Inside mem 0 n ↔ 4 ≤ n ∧
    ((mem 3).getLsbD 3 = true → 8 ≤ n ∧ (mem 7 = wnmBtmTermDurSubeid → 19 ≤ n)) := by
  rw [termDuration, inside_bind, inside_cell, value_cell, inside_ite, inside_bind, inside_cell,
    value_cell, inside_ite, inside_bind, inside_cell, inside_bind, inside_bind, inside_cells,
    inside_cells]
  constructor
  · rintro ⟨⟨-, h3⟩, hterm, -⟩
    refine ⟨by omega, fun hinc => ?_⟩
    obtain ⟨⟨-, h7⟩, hdur, -⟩ := hterm hinc
    refine ⟨by omega, fun hid => ?_⟩
    obtain ⟨-, -, h17, -⟩ := hdur hid
    omega
  · rintro ⟨h3, hterm⟩
    refine ⟨by omega, fun hinc => ?_, fun _ => inside_pure _⟩
    obtain ⟨h8, hdur⟩ := hterm hinc
    refine ⟨by omega, fun hid => ?_, fun _ => inside_pure _⟩
    have := hdur hid
    exact ⟨by omega, by omega, by omega, inside_pure _⟩

theorem inside_reqHdr : rtwWnmBtmReqHdrParsing.Inside mem 0 n ↔
    7 ≤ n ∧ ((mem 3).getLsbD 3 = true → 8 ≤ n ∧ (mem 7 = wnmBtmTermDurSubeid → 19 ≤ n)) := by
  rw [rtwWnmBtmReqHdrParsing, inside_bind, inside_bind, inside_bind, inside_bind, inside_bind,
    inside_cell, inside_cell, inside_cells, inside_cell, inside_termDuration]
  constructor
  · rintro ⟨-, -, -, ⟨-, h6⟩, ⟨-, hterm⟩, -⟩
    exact ⟨by omega, hterm⟩
  · rintro ⟨h7, hterm⟩
    exact ⟨by omega, by omega, by omega, by omega, ⟨by omega, hterm⟩, inside_pure _⟩

theorem inside_offset (h : 7 ≤ n) : rtwWnmBtmCandidatesOffsetGet.Inside mem 0 n ↔
    ((mem 3).getLsbD 4 = true → fixedLen (mem 3) < n) := by
  rw [rtwWnmBtmCandidatesOffsetGet, inside_bind, inside_cell, value_cell, inside_ite, inside_bind,
    inside_cell]
  constructor
  · rintro ⟨-, hurl, -⟩ hinc
    have := (hurl hinc).1
    omega
  · intro hurl
    refine ⟨by omega, fun hinc => ⟨?_, inside_pure _⟩, fun _ => inside_pure _⟩
    have := hurl hinc
    omega

theorem offset_pos : rtwWnmBtmCandidatesOffsetGet.value mem ≠ 0 ∧
    rtwWnmBtmCandidatesOffsetGet.value mem ≤ 256 := by
  rw [rtwWnmBtmCandidatesOffsetGet, value_bind, value_cell, value_ite, value_bind, value_pure,
    value_pure, value_cell, fixedLen]
  split_ifs <;> omega

theorem inside_btmReq (alloc : Bool) : (rtwWnmProcessBtmReq alloc n).Inside mem 0 n ↔
    rtwWnmBtmReqHdrParsing.Inside mem 0 n ∧ rtwWnmBtmCandidatesOffsetGet.Inside mem 0 n ∧
      (¬subU32 n (rtwWnmBtmCandidatesOffsetGet.value mem) ≤ 15 →
        (rtwWnmBtmCandidatesSurvey alloc (rtwWnmBtmCandidatesOffsetGet.value mem)
          (subU32 n (rtwWnmBtmCandidatesOffsetGet.value mem))).Inside mem 0 n ∧ 3 < n) := by
  rw [rtwWnmProcessBtmReq, inside_bind, inside_bind, if_neg offset_pos.1, inside_ite, inside_bind,
    inside_bind, inside_cell]
  simp only [inside_pure, implies_true, true_and, and_true, Nat.zero_add, Nat.zero_le]

theorem inside_nbElemParsing {off : ℕ} (hn : n < 2 ^ 32) (hle : off ≤ n) (hlong : off + 15 < n) :
    (rtwWnmNbElemParsing off (subU32 n off)).Inside mem 0 n ↔
      ReportsFit mem n rtwMaxNbRptNum off := by
  rw [rtwWnmNbElemParsing, inside_bind, inside_cell, value_cell, subU32_of_le hle hn,
    show off + (n - off) = n by omega, inside_nbElemLoop hn hle]
  exact ⟨fun h => h.2, fun h => ⟨⟨by omega, by omega⟩, h⟩⟩

/-- A request whose candidates start behind its end is read there. -/
theorem offset_le_of_inside {off : ℕ} (hoff : off ≤ 256)
    (h : ¬subU32 n off ≤ 15 → (rtwWnmBtmCandidatesSurvey true off (subU32 n off)).Inside mem 0 n) :
    off ≤ n := by
  by_contra hlt
  have hshort : ¬subU32 n off ≤ 15 := by
    unfold subU32
    omega
  have hin := h hshort
  rw [rtwWnmBtmCandidatesSurvey, if_pos rfl, rtwWnmNbElemParsing, inside_bind, inside_cell] at hin
  omega

theorem reqBounded_iff (hn : n < 2 ^ 32) : ReqBounded mem n ↔ ReqFits mem n := by
  obtain ⟨-, hoff⟩ := @offset_pos mem
  constructor
  · intro h
    obtain ⟨hhdr, hurl, hparse⟩ := (inside_btmReq true).mp (h.inside true)
    obtain ⟨h7, hterm⟩ := inside_reqHdr.mp hhdr
    have hle := offset_le_of_inside hoff fun hshort => (hparse hshort).1
    refine ⟨h7, hterm, (inside_offset h7).mp hurl, hle, fun hlong => ?_⟩
    rw [subU32_of_le hle hn] at hparse
    refine (inside_nbElemParsing hn hle hlong).mp ?_
    rw [subU32_of_le hle hn]
    exact (hparse (by omega)).1
  · intro h
    refine ⟨fun alloc => (inside_btmReq alloc).mpr ⟨inside_reqHdr.mpr ⟨h.hdr, h.term⟩,
      (inside_offset h.hdr).mpr h.url, fun hshort => ⟨?_, ?_⟩⟩, fun alloc => ?_⟩
    · rw [rtwWnmBtmCandidatesSurvey]
      split_ifs
      · rw [subU32_of_le h.offset hn] at hshort
        have hlong : rtwWnmBtmCandidatesOffsetGet.value mem + 15 < n := by omega
        exact (inside_nbElemParsing hn h.offset hlong).mpr (h.reports hlong)
      · exact inside_pure _
    · have := h.hdr
      omega
    · rw [rtwWnmProcessBtmReq, value_bind, value_bind]
      split_ifs
      · exact Nat.zero_le _
      · exact Nat.zero_le _
      · rw [value_bind, value_bind, value_pure, BtmReq.candidates, rtwWnmBtmCandidatesSurvey]
        split_ifs
        · rw [rtwWnmNbElemParsing, value_bind]
          exact length_nbElemLoop _ _ _
        · exact Nat.zero_le _

end Req

section Rsp

variable {mem : ℕ → Byte} {n k pend ptr : ℕ} {given : Bool}

theorem inside_rspCant : (rspCant ptr).Inside mem 0 n ↔
    ptr + 16 ≤ n ∧ (mem (ptr + 15) = wnmBtmCandPrefSubeid → ptr + 18 ≤ n) := by
  rw [rspCant]
  iterate 9 rw [inside_bind]
  rw [inside_cell, inside_cell, inside_cells, inside_cells, inside_cell, inside_cell, inside_cell,
    inside_cell, value_cell, rspPreference, inside_ite, inside_cell]
  constructor
  · rintro ⟨-, -, -, -, -, -, -, ⟨-, h15⟩, ⟨hpref, -⟩, -⟩
    refine ⟨by omega, fun hsub => ?_⟩
    have := hpref hsub
    omega
  · rintro ⟨h16, hpref⟩
    refine ⟨by omega, by omega, by omega, by omega, by omega, by omega, by omega, by omega,
      ⟨fun hsub => ?_, fun _ => inside_pure _⟩, inside_pure _⟩
    have := hpref hsub
    omega

theorem len_rspCant : ((rspCant ptr).value mem).len = mem (ptr + 1) := by
  rw [rspCant]
  simp only [value_bind, value_pure, value_cell]

theorem bounded_rspLoop_elem {P : List RspCant → Prop} (h : ptr < pend)
    (hid : mem ptr = nbRptElem) :
    Bounded (fun turns => rspLoop given pend turns ptr) mem n P ↔
      (ptr + 16 ≤ n ∧ (mem (ptr + 15) = wnmBtmCandPrefSubeid → ptr + 18 ≤ n)) ∧
        Bounded (fun turns => rspLoop given pend turns (ptr + (mem (ptr + 1)).toNat + 2)) mem n
          fun l => P (if given then (rspCant ptr).value mem :: l else l) := by
  rw [← @bounded_succ _ _ mem n P (fun turns => rspLoop given pend turns ptr) rfl]
  simp only [rspLoop, if_neg (not_le.mpr h)]
  rw [bounded_bind, inside_cell, value_cell]
  simp only [hid, ne_eq, not_true_eq_false, if_false]
  rw [bounded_bind, bounded_map, inside_rspCant, len_rspCant]
  constructor
  · rintro ⟨-, hcant, hrest⟩
    exact ⟨hcant, hrest⟩
  · rintro ⟨hcant, hrest⟩
    exact ⟨⟨by omega, by omega⟩, hcant, hrest⟩

theorem bounded_rspLoop_other {P : List RspCant → Prop} (h : ptr < pend)
    (hid : mem ptr ≠ nbRptElem) :
    Bounded (fun turns => rspLoop given pend turns ptr) mem n P ↔ ptr < n ∧ P [] := by
  rw [← @bounded_succ _ _ mem n P (fun turns => rspLoop given pend turns ptr) rfl]
  simp only [rspLoop, if_neg (not_le.mpr h)]
  rw [bounded_bind, inside_cell, value_cell]
  simp [hid, bounded_pure]

theorem bounded_rspLoop_past {P : List RspCant → Prop} (h : pend ≤ ptr) :
    Bounded (fun turns => rspLoop given pend turns ptr) mem n P ↔ P [] := by
  rw [← @bounded_succ _ _ mem n P (fun turns => rspLoop given pend turns ptr) rfl]
  simp only [rspLoop, if_pos h]
  exact bounded_pure

/-- The loop over the candidates stores as many as there are, if it has a buffer for them. -/
theorem bounded_rspLoop_iff {P : ℕ → Prop} :
    Bounded (fun turns => rspLoop given pend turns ptr) mem n (fun l => P l.length) ↔
      ∃ k, Candidates mem n pend ptr k ∧ P (if given then k else 0) := by
  constructor
  · intro h
    obtain ⟨turns, hturns⟩ := h.halts
    induction turns generalizing ptr P with
    | zero => exact absurd rfl hturns
    | succ turns ih =>
      rcases Nat.lt_or_ge ptr pend with hlt | hge
      · by_cases hid : mem ptr = nbRptElem
        · obtain ⟨⟨hin, hpref⟩, hrest⟩ := (bounded_rspLoop_elem hlt hid).mp h
          have hlen : Bounded
              (fun turns => rspLoop given pend turns (ptr + (mem (ptr + 1)).toNat + 2)) mem n
              fun l => P (if given then l.length + 1 else l.length) := by
            cases given <;> exact hrest
          obtain ⟨k, hk, hP⟩ := @ih _ (fun m => P (if given then m + 1 else m)) hlen fun hnone => by
            simp only [rspLoop, if_neg (not_le.mpr hlt), value_bind, value_cell, hid, ne_eq,
              not_true_eq_false, if_false, len_rspCant, hnone] at hturns
            exact hturns rfl
          refine ⟨k + 1, .elem hlt hid hin hpref hk, ?_⟩
          cases given <;> exact hP
        · obtain ⟨hin, hP⟩ := (bounded_rspLoop_other hlt hid).mp h
          refine ⟨0, .other hlt hin hid, ?_⟩
          rwa [ite_self]
      · refine ⟨0, .past hge, ?_⟩
        rw [ite_self]
        exact (bounded_rspLoop_past hge).mp h
  · rintro ⟨k, hk, hP⟩
    induction hk generalizing P with
    | past h =>
      rw [bounded_rspLoop_past h]
      rwa [ite_self] at hP
    | other h hin hid =>
      rw [bounded_rspLoop_other h hid]
      rw [ite_self] at hP
      exact ⟨hin, hP⟩
    | @elem ptr k h hid hin hpref hrest ih =>
      rw [bounded_rspLoop_elem h hid]
      refine ⟨⟨hin, hpref⟩, ?_⟩
      have hlen := @ih (fun m => P (if given then m + 1 else m)) (by cases given <;> exact hP)
      cases given <;> exact hlen

theorem inside_rspBssid (status : Byte) : (rspBssid status n).Inside mem 0 n := by
  rw [rspBssid, inside_ite, inside_cells]
  exact ⟨fun h => .inr ⟨by omega, by omega⟩, fun _ => inside_pure _⟩

theorem inside_szGet : (rtwWnmBtmRspCandidatesSzGet n).Inside mem 0 n := by
  rw [rtwWnmBtmRspCandidatesSzGet, inside_ite]
  refine ⟨fun _ => inside_pure _, fun h => ?_⟩
  rw [inside_bind, inside_cell, inside_ite]
  exact ⟨⟨by omega, by omega⟩, fun _ => inside_pure _, fun _ => inside_pure _⟩

theorem bounded_btmRsp_iff {P : ℕ → Prop} (hzero : P 0) :
    Bounded (rtwWnmProcessBtmRsp given n) mem n (fun r => P r.candidates.length) ↔
      5 ≤ n ∧ (mem 3 = 0 ∨ mem 3 = 6 → 23 ≤ n →
        ∃ k, Candidates mem n (rspStart mem + n) (rspStart mem) k ∧
          P (if given then k else 0)) := by
  unfold rtwWnmProcessBtmRsp
  rw [bounded_bind, bounded_bind, bounded_bind, bounded_ite, bounded_bind, bounded_ite,
    bounded_map, bounded_pure, bounded_pure, inside_cell, inside_cell, inside_cell, value_cell]
  dsimp only [List.length_nil]
  rw [bounded_rspLoop_iff]
  constructor
  · rintro ⟨-, -, ⟨-, h4⟩, -, hlong⟩
    exact ⟨by omega, fun hstatus h23 => (hlong (by omega)).2.1 ⟨hstatus, h23⟩⟩
  · rintro ⟨h5, h⟩
    exact ⟨by omega, by omega, by omega, fun _ => hzero, fun _ => ⟨inside_rspBssid _,
      fun hc => h hc.1 hc.2, fun _ => hzero⟩⟩

theorem rspBounded_iff : RspBounded mem n ↔ RspFits mem n := by
  constructor
  · intro h
    have hrsp := h.rsp (decide (0 < (rtwWnmBtmRspCandidatesSzGet n).value mem)) (by simp)
    obtain ⟨h5, hcands⟩ := (@bounded_btmRsp_iff mem n _
      (fun k => k * wnmBtmCantSize ≤ (rtwWnmBtmRspCandidatesSzGet n).value mem) (by simp)).mp hrsp
    refine ⟨h5, fun hstatus h23 => ?_⟩
    obtain ⟨k, hk, hfit⟩ := hcands hstatus h23
    refine ⟨k, hk, fun hpos => ?_⟩
    rwa [if_pos (by simpa using hpos)] at hfit
  · intro h
    refine ⟨inside_szGet, fun given hgiven => (@bounded_btmRsp_iff mem n given
      (fun k => k * wnmBtmCantSize ≤ (rtwWnmBtmRspCandidatesSzGet n).value mem) (by simp)).mpr
        ⟨h.hdr, fun hstatus h23 => ?_⟩⟩
    obtain ⟨k, hk, hfit⟩ := h.candidates hstatus h23
    refine ⟨k, hk, ?_⟩
    split_ifs with hg
    · exact hfit (hgiven hg)
    · omega

end Rsp

/-- The parsers of BSS transition frames are bounded just when the frames are as long as they take
them for. -/
theorem btm_bounded_iff (mem : ℕ → Byte) (frameLen : ℕ) (hlen : frameLen < 2 ^ 32) :
    (ReqBounded mem frameLen ↔ ReqFits mem frameLen) ∧
      (RspBounded mem frameLen ↔ RspFits mem frameLen) :=
  ⟨reqBounded_iff hlen, rspBounded_iff⟩

/-- A frame with a report that gives a preference, and zeros behind it. -/
def reportFrame (hdr : List Byte) : ℕ → Byte :=
  store (fun _ => 0) 0 (hdr ++ ([0x34, 16] ++ List.replicate 13 0 ++ [3, 1, 200]))

/-- The header of a request, and one of a response that accepts. -/
def btmReqHdr : List Byte := [10, 7, 1, 1, 0, 0, 0]

def btmRspHdr : List Byte := [10, 8, 1, 0, 0] ++ List.replicate 6 2

theorem reportFrame_bounded : ReqBounded (reportFrame btmReqHdr) 27 ∧
    RspBounded (reportFrame btmRspHdr) 30 := by
  obtain ⟨hreq, -⟩ := btm_bounded_iff (reportFrame btmReqHdr) 27 (by decide)
  obtain ⟨-, hrsp⟩ := btm_bounded_iff (reportFrame btmRspHdr) 30 (by decide)
  have hoff : rtwWnmBtmCandidatesOffsetGet.value (reportFrame btmReqHdr) = 7 := by decide
  constructor
  · refine hreq.mpr ⟨by decide, fun h => absurd h (by decide), fun h => absurd h (by decide),
      by decide, fun _ => ?_⟩
    rw [hoff]
    exact fun _ _ _ => ⟨by decide, by decide, fun h => absurd h (by decide)⟩
  · refine hrsp.mpr ⟨by decide, fun _ _ => ⟨1, ?_, by decide⟩⟩
    refine .elem (by decide) (by decide) (by decide) (by decide) ?_
    exact .other (by decide) (by decide) (by decide)

/-- A request with one report, which ends with the frame. -/
def oneReport : ℕ → Byte :=
  store (fun _ => 0) 0 ([10, 7, 1, 1, 0, 0, 0, 0x34, 14] ++ List.replicate 14 0)

/-- What is behind the last report is read as another one. -/
theorem oneReport_not_bounded : ¬ReqBounded oneReport 23 := by
  intro h
  have hfit := (reqBounded_iff (by decide)).mp h
  have hoff : rtwWnmBtmCandidatesOffsetGet.value oneReport = 7 := by decide
  have hreports := hfit.reports
  rw [hoff] at hreports
  have := (hreports (by decide) (by decide) (by decide) (by decide)).2.1
  exact absurd this (by decide)

end Rtl8821cu.WnmBtm
