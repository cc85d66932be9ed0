import Rtl8821cu.WnmBtmReports

/-! BSS transition requests (`core/rtw_wnm.c`): which of those that are built are read back. -/
namespace Rtl8821cu.WnmBtm
open Store Reads Reading Bytes IeSearch

/-- A request that `rtw_wnm_issue_btm_req` may be given. -/
structure Request where
  hdr : BtmReqHdr
  url : List Byte
  candidates : List NbRptCant
  timer : hdr.disassocTimer < 2 ^ 16
  tsf : hdr.termDuration.tsf < 2 ^ 64
  duration : hdr.termDuration.duration < 2 ^ 16
  urlLen : url.length ≤ 255
  urlMode : hdr.reqMode.getLsbD 4 = true ↔ url ≠ []
  count : 1 ≤ candidates.length ∧ candidates.length ≤ rtwMaxNbRptNum
  elem : ∀ c ∈ candidates, c.id = nbRptElem ∧ c.len = 16

namespace Request

def frame (req : Request) : List Byte := rtwWnmIssueBtmReq req.hdr req.url req.candidates

def byte (req : Request) (i : ℕ) : Byte := req.frame.getD i 0

/-- The memory where the frame is received, with anything behind it. -/
def mem (req : Request) (rest : ℕ → Byte) : ℕ → Byte := store rest 0 req.frame

/-- Where the candidates are. -/
def start (req : Request) : ℕ := fixedLen req.hdr.reqMode + (urlBytes req.hdr req.url).length

/-- Where the receiver looks for them. -/
def offset (req : Request) : ℕ :=
  if req.hdr.reqMode.getLsbD 4 then 1 + req.url.length else fixedLen req.hdr.reqMode

/-- How much earlier that is. -/
def early (req : Request) : ℕ :=
  if req.hdr.reqMode.getLsbD 4 then fixedLen req.hdr.reqMode else 0

end Request

/-- The header that was read is the one that was sent. -/
structure SameHdr (sent got : BtmReqHdr) : Prop where
  token : got.dialogToken = sent.dialogToken
  mode : got.reqMode = sent.reqMode
  timer : got.disassocTimer = sent.disassocTimer
  validity : got.validityInterval = sent.validityInterval
  term : sent.reqMode.getLsbD 3 = true → got.termDuration = sent.termDuration

/-- The receiver reads the header that was sent and stores the candidates. -/
def RoundTrips (req : Request) (alloc : Bool) (rest : ℕ → Byte) : Prop :=
  ∀ pnb : RoamNbInfo, ∃ hdr mode l,
    (rtwWnmProcessBtmReq alloc req.frame.length).value (req.mem rest) = .surveyed hdr mode l ∧
      SameHdr req.hdr hdr ∧ Stored req.candidates (pnb.process alloc (.surveyed hdr mode l))

/-- The headers of the candidates are at a stride of 18 bytes. -/
def HdrsAt (mem : ℕ → Byte) (p : ℕ) (cs : List NbRptCant) : Prop :=
  ∀ i (h : i < cs.length), HoldsAt mem (p + 18 * i) cs[i].hdr

/-- Where the receiver looks for the candidates behind a URL there are reports of the same
candidates by chance, and no other one follows. -/
structure ReadsEarly (req : Request) : Prop where
  reports : ∃ cs : List NbRptCant, cs.Perm req.candidates ∧
    HdrsAt req.byte (1 + req.url.length) cs
  stops : req.candidates.length = rtwMaxNbRptNum ∨
    req.byte (1 + req.url.length + 18 * req.candidates.length) ≠ nbRptElem ∨
    fixedLen req.hdr.reqMode <
      (req.byte (1 + req.url.length + 18 * req.candidates.length + 1)).toNat

/-- There is memory for the candidates, the duration of a termination says what it is, and no URL
is in front of the candidates, or only one that misleads the receiver to where they are as well. -/
structure Decodable (req : Request) (alloc : Bool) : Prop where
  alloc : alloc = true
  term : req.hdr.reqMode.getLsbD 3 = true →
    req.hdr.termDuration.id = wnmBtmTermDurSubeid ∨ req.hdr.termDuration = ⟨0, 0, 0, 0⟩
  url : req.hdr.reqMode.getLsbD 4 = true → ReadsEarly req

/-- Where the fields of a request are. -/
structure Layout (req : Request) (mem : ℕ → Byte) : Prop where
  token : mem 2 = req.hdr.dialogToken
  mode : mem 3 = req.hdr.reqMode
  timer : HoldsAt mem 4 (leBytes 2 req.hdr.disassocTimer)
  validity : mem 6 = req.hdr.validityInterval
  term : HoldsAt mem 7 (termBytes req.hdr)
  url : HoldsAt mem (fixedLen req.hdr.reqMode) (urlBytes req.hdr req.url)
  candidates : HoldsAt mem req.start (req.candidates.flatMap NbRptCant.bytes)

section Frame

variable {req : Request} {rest mem : ℕ → Byte} {p : ℕ}

theorem length_termBytes (hdr : BtmReqHdr) : 7 + (termBytes hdr).length = fixedLen hdr.reqMode := by
  rw [termBytes, fixedLen]
  split_ifs
  · simp
  · rfl

theorem length_bytes (cands : List NbRptCant) :
    (cands.flatMap NbRptCant.bytes).length = 18 * cands.length := by
  induction cands with
  | nil => rfl
  | cons c cands ih =>
    rw [List.flatMap_cons, List.length_append, ih, NbRptCant.bytes, List.length_append, length_hdr]
    simp
    omega

theorem length_frame (req : Request) :
    req.frame.length = req.start + 18 * req.candidates.length := by
  have := length_termBytes req.hdr
  simp only [Request.frame, rtwWnmIssueBtmReq, rtwWnmBuildBtmReqIes, Request.start,
    List.length_append, length_bytes, length_leBytes, List.length_cons, List.length_nil]
  omega

theorem layout (h : HoldsAt mem 0 req.frame) : Layout req mem := by
  rw [Request.frame, rtwWnmIssueBtmReq, rtwWnmBuildBtmReqIes] at h
  simp only [holdsAt_append, holdsAt_cons, List.length_append, length_leBytes, List.length_cons,
    List.length_nil, Nat.zero_add, Nat.reduceAdd, ← Nat.add_assoc] at h
  obtain ⟨-, ⟨⟨⟨⟨⟨token, mode, -⟩, timer⟩, validity, -⟩, term⟩, url⟩, candidates⟩ := h
  refine ⟨token, mode, timer, validity, term, ?_, ?_⟩
  · rwa [← length_termBytes]
  · rwa [Request.start, ← length_termBytes]

/-- The candidates of a row are where they should be. -/
theorem holdsAt_bytes {cands : List NbRptCant} (h : HoldsAt mem p (cands.flatMap NbRptCant.bytes))
    (i : ℕ) (hi : i < cands.length) : HoldsAt mem (p + 18 * i) cands[i].bytes := by
  induction cands generalizing p i with
  | nil => exact absurd hi (Nat.not_lt_zero i)
  | cons c cands ih =>
    obtain ⟨hc, hcands⟩ := holdsAt_append.mp h
    cases i with
    | zero => exact hc
    | succ i =>
      have := ih hcands i (by simpa using hi)
      rw [NbRptCant.bytes, List.length_append, length_hdr] at this
      rwa [show p + 18 * (i + 1) = p + (15 + 3) + 18 * i by omega]

theorem offset_add_early (req : Request) : req.offset + req.early = req.start := by
  rw [Request.offset, Request.early, Request.start, urlBytes]
  by_cases hmode : req.hdr.reqMode.getLsbD 4 = true
  · have hpos := List.length_pos_of_ne_nil (req.urlMode.mp hmode)
    rw [if_pos hmode, if_pos hmode, if_pos ⟨hpos, hmode⟩, List.length_cons]
    omega
  · rw [if_neg hmode, if_neg hmode, if_neg fun hboth => hmode hboth.2]
    rfl

theorem length_frame_lt (req : Request) : req.frame.length < 2 ^ 32 := by
  have hcount := req.count.2
  have hurl := req.urlLen
  rw [length_frame, Request.start, fixedLen, urlBytes]
  unfold rtwMaxNbRptNum at hcount
  split_ifs <;> simp <;> omega

theorem value_offset (h : Layout req mem) :
    rtwWnmBtmCandidatesOffsetGet.value mem = req.offset := by
  rw [rtwWnmBtmCandidatesOffsetGet, value_cell_bind, h.mode, Request.offset]
  split_ifs with hmode
  · have hpos := List.length_pos_of_ne_nil (req.urlMode.mp hmode)
    have hurl := h.url
    rw [urlBytes, if_pos ⟨hpos, hmode⟩, holdsAt_cons] at hurl
    have := req.urlLen
    rw [value_cell_bind, hurl.1, value_pure, BitVec.toNat_ofNat, Nat.mod_eq_of_lt (by omega)]
  · rfl

theorem ofLe_load {n v : ℕ} (h : HoldsAt mem p (leBytes n v)) (hv : v < 256 ^ n) :
    ofLe (load mem p n) = v := by
  have hload := load_of_holdsAt h
  rw [length_leBytes] at hload
  rw [hload, ofLe_leBytes, Nat.mod_eq_of_lt hv]

theorem value_termDuration (h : Layout req mem) : termDuration.value mem =
    if req.hdr.reqMode.getLsbD 3 ∧ req.hdr.termDuration.id = wnmBtmTermDurSubeid then
      req.hdr.termDuration
    else ⟨0, 0, 0, 0⟩ := by
  rw [termDuration, value_cell_bind, h.mode]
  by_cases hmode : req.hdr.reqMode.getLsbD 3 = true
  · have hbytes := h.term
    rw [termBytes, if_pos hmode] at hbytes
    simp only [holdsAt_append, holdsAt_cons, List.length_append, length_leBytes, List.length_cons,
      List.length_nil, Nat.reduceAdd] at hbytes
    obtain ⟨⟨⟨hid, hlen, -⟩, htsf⟩, hduration⟩ := hbytes
    have htsf : ofLe (load mem 9 8) = req.hdr.termDuration.tsf :=
      ofLe_load htsf req.tsf
    have hduration : ofLe (load mem 17 2) = req.hdr.termDuration.duration :=
      ofLe_load hduration req.duration
    rw [if_pos hmode, value_cell_bind, hid]
    split_ifs with hterm hboth hboth
    · simp only [value_bind, value_cell, value_cells, value_pure, htsf, hduration, hlen]
    · exact absurd ⟨hmode, hterm⟩ hboth
    · exact absurd hboth.2 hterm
    · rfl
  · rw [if_neg hmode, if_neg fun hboth => hmode hboth.1]
    rfl

theorem value_hdr (h : Layout req mem) : SameHdr req.hdr (rtwWnmBtmReqHdrParsing.value mem) ↔
    (req.hdr.reqMode.getLsbD 3 = true →
      req.hdr.termDuration.id = wnmBtmTermDurSubeid ∨ req.hdr.termDuration = ⟨0, 0, 0, 0⟩) := by
  have htimer : ofLe (load mem 4 2) = req.hdr.disassocTimer := ofLe_load h.timer req.timer
  have hvalue : rtwWnmBtmReqHdrParsing.value mem = ⟨req.hdr.dialogToken, req.hdr.reqMode,
      req.hdr.disassocTimer, req.hdr.validityInterval, termDuration.value mem⟩ := by
    rw [rtwWnmBtmReqHdrParsing]
    simp only [value_bind, value_cell, value_cells, value_pure, h.token, h.mode, h.validity, htimer]
  rw [hvalue, value_termDuration h]
  constructor
  · intro hsame hmode
    have hterm := hsame.term hmode
    by_contra! hno
    dsimp only at hterm
    rw [if_neg (fun hc => hno.1 hc.2)] at hterm
    exact hno.2 hterm.symm
  · intro hterm
    refine ⟨rfl, rfl, rfl, rfl, fun hmode => ?_⟩
    dsimp only
    split_ifs with hid
    · rfl
    · obtain hgood | hzero := hterm hmode
      · exact absurd ⟨hmode, hgood⟩ hid
      · exact hzero.symm

/-- No request is rejected for its length. -/
theorem value_process (h : Layout req mem) (alloc : Bool) :
    (rtwWnmProcessBtmReq alloc req.frame.length).value mem =
      .surveyed (rtwWnmBtmReqHdrParsing.value mem) req.hdr.reqMode
        (if alloc then reportsFrom mem req.frame.length rtwMaxNbRptNum req.offset else []) := by
  have hpos := (@offset_pos mem).1
  have hoff := value_offset h
  have hlen := length_frame req
  have hstart := offset_add_early req
  have hcount := req.count.1
  have hsub : subU32 req.frame.length req.offset = req.frame.length - req.offset :=
    subU32_of_le (by omega) (length_frame_lt req)
  rw [rtwWnmProcessBtmReq, value_bind, value_bind, if_neg hpos, hoff, hsub, if_neg (by omega),
    value_bind, value_cell_bind, value_pure, h.mode, rtwWnmBtmCandidatesSurvey, value_ite,
    value_pure, rtwWnmNbElemParsing, value_cell_bind,
    show req.offset + (req.frame.length - req.offset) = req.frame.length by omega]
  rfl

end Frame

section Early

variable {req : Request} {mem : ℕ → Byte} {p n i j : ℕ} {cs : List NbRptCant}

theorem HdrsAt.cell (h : HdrsAt mem p cs) (hi : i < cs.length) (hj : j < 15) :
    mem (p + 18 * i + j) = cs[i].hdr.getD j 0 := by
  have hlen := length_hdr cs[i]
  refine h i hi j _ ?_
  rw [List.getElem?_eq_getElem (by omega), List.getD_eq_getElem _ _ (by omega)]
  rfl

theorem heads_of_hdrsAt (h : HdrsAt mem p cs)
    (helem : ∀ c ∈ cs, c.id = nbRptElem ∧ c.len = 16) : Heads mem p cs.length := by
  intro i hi
  obtain ⟨hid, hlen⟩ := helem _ (List.getElem_mem hi)
  have h0 := h.cell hi (Nat.succ_pos 14)
  have h1 := h.cell hi (Nat.succ_lt_succ (Nat.succ_pos 13))
  exact ⟨h0.trans hid, h1.trans hlen⟩

/-- The candidates themselves, where they are. -/
theorem hdrsAt_start (h : Layout req mem) : HdrsAt mem req.start req.candidates := by
  intro i hi
  exact (holdsAt_append.mp (holdsAt_bytes h.candidates i hi)).1

/-- Reports that are read 7 bytes too early have no preference: its place is where a candidate has
the length that another one has as the first byte of its information. -/
theorem none_of_early_seven (h : Layout req mem) (hcs : cs.Perm req.candidates)
    (hearly : HdrsAt mem p cs) (hp : p + 7 = req.start) :
    ((reportsAt mem p cs.length).any fun c => c.preference.isSome) = false := by
  have hstart := hdrsAt_start h
  have hlen := hcs.length_eq
  have hinfo : ∀ c ∈ cs, c.hdr.getD 8 0 = 16 := by
    intro c hc
    obtain ⟨i, hi, rfl⟩ := List.getElem_of_mem hc
    rw [← hearly.cell hi (by decide), show p + 18 * i + 8 = req.start + 18 * i + 1 by omega,
      hstart.cell (by omega) (by decide)]
    exact (req.elem _ (List.getElem_mem _)).2
  rw [List.any_eq_false]
  intro c hc
  obtain ⟨i, hi, rfl⟩ := List.mem_map.mp hc
  rw [List.mem_range] at hi
  have h15 : mem (p + 18 * i + 15) = 16 := by
    rw [show p + 18 * i + 15 = req.start + 18 * i + 8 by omega,
      hstart.cell (by omega) (by decide)]
    exact hinfo _ (hcs.mem_iff.mpr (List.getElem_mem _))
  have hno : ¬(16 = wnmBtmCandPrefSubeid ∧ mem (p + 18 * i + 16) ≠ 0) := fun hboth =>
    absurd hboth.1 (by decide)
  rw [reportAt, h15, if_neg hno]
  simp

/-- Only one report can be read 19 bytes too early. -/
theorem length_of_early_nineteen (h : Layout req mem) (hcs : cs.Perm req.candidates)
    (hearly : HdrsAt mem p cs) (hp : p + 19 = req.start) : cs.length ≤ 1 := by
  by_contra hlt
  have hcount := req.count.1
  have hlen := hearly.cell (show 1 < cs.length by omega) (show 1 < 15 by decide)
  have hid := (hdrsAt_start h).cell (show 0 < req.candidates.length by omega)
    (show 0 < 15 by decide)
  rw [show p + 18 * 1 + 1 = req.start + 18 * 0 + 0 by omega, hid] at hlen
  have h16 := (req.elem _ (hcs.mem_iff.mp (List.getElem_mem (show 1 < cs.length by omega)))).2
  have h34 := (req.elem _ (List.getElem_mem (show 0 < req.candidates.length by omega))).1
  have hbad : nbRptElem = 16 := h34.symm.trans (hlen.trans h16)
  exact absurd hbad (by decide)

end Early

section Round

variable {req : Request} {mem rest : ℕ → Byte} {p n : ℕ} {cs : List NbRptCant} {alloc : Bool}

theorem layout_mem (req : Request) (rest : ℕ → Byte) : Layout req (req.mem rest) :=
  layout (holdsAt_store rest 0 req.frame)

theorem byte_eq {i : ℕ} (h : i < req.frame.length) : req.byte i = req.mem rest i := by
  have hcell := holdsAt_store rest 0 req.frame i _ (List.getElem?_eq_getElem h)
  rw [Nat.zero_add] at hcell
  rw [Request.byte, List.getD_eq_getElem _ _ h, ← hcell, Request.mem]

/-- The same in the frame as in memory, as long as the headers are in the frame. -/
theorem hdrsAt_byte (h : p + 18 * cs.length ≤ req.frame.length) :
    HdrsAt req.byte p cs ↔ HdrsAt (req.mem rest) p cs := by
  have hcells : ∀ i (hi : i < cs.length) k, p + 18 * i ≤ k → k < p + 18 * i + cs[i].hdr.length →
      req.byte k = req.mem rest k := by
    intro i hi k _ hk
    rw [length_hdr] at hk
    exact byte_eq (by omega)
  constructor
  · intro hdrs i hi
    exact (hdrs i hi).congr fun k hk hk' => (hcells i hi k hk hk').symm
  · intro hdrs i hi
    exact (hdrs i hi).congr fun k hk hk' => hcells i hi k hk hk'

/-- What the receiver parses, when it is what was sent. -/
theorem reportsFrom_of_hdrsAt (hcs : cs.Perm req.candidates) (h : HdrsAt mem req.offset cs)
    (hstop : Stops mem req.frame.length (rtwMaxNbRptNum - cs.length)
      (req.offset + 18 * cs.length)) :
    reportsFrom mem req.frame.length rtwMaxNbRptNum req.offset =
      reportsAt mem req.offset cs.length := by
  have hlen := length_frame req
  have hstart := offset_add_early req
  have hcount := req.count.2
  rw [← hcs.length_eq] at hlen hcount
  refine reportsFrom_eq hcount (by omega) (length_frame_lt req) ?_ hstop
  exact heads_of_hdrsAt h fun c hc => req.elem c (hcs.mem_iff.mp hc)

/-- The candidates are stored just when their headers are where the receiver looks for them and no
other report follows. -/
theorem hdrsAt_of_stored {pnb : RoamNbInfo} (hstored : Stored req.candidates
    (pnb.survey (reportsFrom mem req.frame.length rtwMaxNbRptNum req.offset))) :
    ∃ cs : List NbRptCant, cs.Perm req.candidates ∧ HdrsAt mem req.offset cs ∧
      Stops mem req.frame.length (rtwMaxNbRptNum - cs.length) (req.offset + 18 * cs.length) := by
  have hcount := req.count.1
  have hne : req.candidates ≠ [] := List.ne_nil_of_length_pos hcount
  obtain ⟨cs, hcs, hl⟩ := forall₂_of_stored hne hstored
  have hlen := length_frame req
  have hstart := offset_add_early req
  rw [← hcs.length_eq] at hlen
  have h16 : ∀ c ∈ reportsFrom mem req.frame.length rtwMaxNbRptNum req.offset,
      c.nbRpt.getD 1 0 = 16 := by
    intro c hc
    obtain ⟨i, hi, rfl⟩ := List.getElem_of_mem hc
    have hi' : i < cs.length := hl.length_eq ▸ hi
    have hcarry : Carries _ cs[i] := hl.get hi hi'
    have h := len_of_carries hcarry
    rw [(req.elem _ (hcs.mem_iff.mp (List.getElem_mem hi'))).2] at h
    exact h
  obtain ⟨hk, hheads, hstop⟩ := heads_of_reportsFrom (by omega) (length_frame_lt req)
    hl.length_eq h16
  have heq := reportsFrom_eq hk (by omega) (length_frame_lt req) hheads hstop
  rw [heq] at hl
  exact ⟨cs, hcs, fun i hi => carries_reportAt.mp ((forall₂_reportsAt.mp hl).2 i hi), hstop⟩

theorem reportAt_of_bytes {c : NbRptCant} (h : HoldsAt mem p c.bytes) :
    Carries (reportAt mem p) c ∧ (reportAt mem p).preference = some c.preference := by
  obtain ⟨hhdr, hsub⟩ := holdsAt_append.mp h
  rw [length_hdr, holdsAt_cons, holdsAt_cons, holdsAt_cons] at hsub
  obtain ⟨hid, hlen, hpref, -⟩ := hsub
  refine ⟨carries_reportAt.mpr hhdr, ?_⟩
  have hlen : mem (p + 16) ≠ 0 := by
    rw [hlen]
    decide
  rw [reportAt, if_pos ⟨hid, hlen⟩, hpref]

theorem stored_of_clear {pnb : RoamNbInfo} (h : Layout req mem)
    (hmode : ¬req.hdr.reqMode.getLsbD 4 = true) : Stored req.candidates
      (pnb.survey (reportsFrom mem req.frame.length rtwMaxNbRptNum req.offset)) := by
  have hstart : req.offset = req.start := by
    have := offset_add_early req
    rwa [Request.early, if_neg hmode, Nat.add_zero] at this
  have hlen := length_frame req
  have hcount := req.count.1
  have hdrs : HdrsAt mem req.offset req.candidates := hstart ▸ hdrsAt_start h
  have hstop : Stops mem req.frame.length (rtwMaxNbRptNum - req.candidates.length)
      (req.offset + 18 * req.candidates.length) := .inr (.inl (by omega))
  rw [reportsFrom_of_hdrsAt (.refl _) hdrs hstop]
  have hrow : List.Forall₂ (fun c cand => Carries c cand ∧ c.preference = some cand.preference)
      (reportsAt mem req.offset req.candidates.length) req.candidates := by
    refine forall₂_reportsAt.mpr ⟨rfl, fun i hi => reportAt_of_bytes ?_⟩
    rw [hstart]
    exact holdsAt_bytes h.candidates i hi
  refine stored_of_forall₂ (fun c cand hc => hc.1) (.refl _) hrow ?_
    (fun _ => .inr fun c cand hc => hc.2)
  refine List.ne_nil_of_length_pos ?_
  rw [length_reportsAt]
  exact hcount

theorem stored_of_early {pnb : RoamNbInfo} (h : Layout req mem)
    (hmode : req.hdr.reqMode.getLsbD 4 = true) (hcs : cs.Perm req.candidates)
    (hdrs : HdrsAt mem req.offset cs)
    (hstop : Stops mem req.frame.length (rtwMaxNbRptNum - cs.length)
      (req.offset + 18 * cs.length)) : Stored req.candidates
      (pnb.survey (reportsFrom mem req.frame.length rtwMaxNbRptNum req.offset)) := by
  have hstart := offset_add_early req
  have hcount := req.count.1
  rw [Request.early, if_pos hmode, fixedLen] at hstart
  rw [reportsFrom_of_hdrsAt hcs hdrs hstop]
  have hrow : List.Forall₂ Carries (reportsAt mem req.offset cs.length) cs :=
    forall₂_reportsAt.mpr ⟨rfl, fun i hi => carries_reportAt.mpr (hdrs i hi)⟩
  refine stored_of_forall₂ (fun c cand hc => hc) hcs hrow ?_ fun hpref => .inl ?_
  · refine List.ne_nil_of_length_pos ?_
    rw [length_reportsAt, hcs.length_eq]
    exact hcount
  · split_ifs at hstart with hterm
    · exact length_of_early_nineteen h hcs hdrs hstart
    · rw [none_of_early_seven h hcs hdrs hstart] at hpref
      exact absurd hpref (by decide)

/-- Behind reports that are read too early there is room for another one, unless it says that it is
longer than what is left. -/
theorem stops_iff (hmode : req.hdr.reqMode.getLsbD 4 = true) (hn : n = req.candidates.length) :
    Stops (req.mem rest) req.frame.length (rtwMaxNbRptNum - n) (req.offset + 18 * n) ↔
      n = rtwMaxNbRptNum ∨ req.byte (1 + req.url.length + 18 * n) ≠ nbRptElem ∨
        fixedLen req.hdr.reqMode < (req.byte (1 + req.url.length + 18 * n + 1)).toNat := by
  have hstart := offset_add_early req
  have hlen := length_frame req
  have hcount := req.count.2
  have hfixed : 7 ≤ fixedLen req.hdr.reqMode := Nat.le_add_right 7 _
  rw [Request.early, if_pos hmode] at hstart
  rw [← hn] at hlen hcount
  rw [show 1 + req.url.length = req.offset by rw [Request.offset, if_pos hmode],
    @byte_eq req rest _ (by omega), @byte_eq req rest _ (by omega), Stops,
    show req.frame.length - (req.offset + 18 * n) = fixedLen req.hdr.reqMode by omega]
  constructor
  · rintro (hturns | hshort | hlong | hid)
    · exact .inl (by omega)
    · omega
    · exact .inr (.inr hlong)
    · exact .inr (.inl hid)
  · rintro (hfull | hid | hlong)
    · exact .inl (by omega)
    · exact .inr (.inr (.inr hid))
    · exact .inr (.inr (.inl hlong))

theorem readsEarly_iff (hmode : req.hdr.reqMode.getLsbD 4 = true) : ReadsEarly req ↔
    ∃ cs : List NbRptCant, cs.Perm req.candidates ∧ HdrsAt (req.mem rest) req.offset cs ∧
      Stops (req.mem rest) req.frame.length (rtwMaxNbRptNum - cs.length)
        (req.offset + 18 * cs.length) := by
  have hoff : req.offset = 1 + req.url.length := by rw [Request.offset, if_pos hmode]
  have hstart := offset_add_early req
  have hlen := length_frame req
  constructor
  · rintro ⟨⟨cs, hcs, hdrs⟩, hstops⟩
    have hn := hcs.length_eq
    refine ⟨cs, hcs, ?_, ?_⟩
    · rw [hoff]
      exact (hdrsAt_byte (by omega)).mp hdrs
    · rw [hn]
      exact (stops_iff hmode rfl).mpr hstops
  · rintro ⟨cs, hcs, hdrs, hstop⟩
    have hn := hcs.length_eq
    refine ⟨⟨cs, hcs, ?_⟩, ?_⟩
    · rw [← hoff]
      exact (hdrsAt_byte (by omega)).mpr hdrs
    · rw [hn] at hstop
      exact (stops_iff hmode rfl).mp hstop

end Round

/-- What was there before anything was received. -/
def noReports : RoamNbInfo := ⟨fun _ => [], fun _ => 0, 0, false, false, 0, true⟩

/-- Without memory for the candidates none is stored. -/
theorem alloc_of_roundTrips {req : Request} {alloc : Bool} {rest : ℕ → Byte}
    (h : RoundTrips req alloc rest) : alloc = true := by
  cases alloc with
  | true => rfl
  | false =>
    obtain ⟨hdr, mode, l, -, -, hstored⟩ := h noReports
    obtain ⟨cs, hcs, hlast, -⟩ := hstored.reports
    have hcount := req.count.1
    have hlen := hcs.length_eq
    have hnone : (noReports.process false (.surveyed hdr mode l)).lastNbRptEntries = 0 := rfl
    omega

/-- Behind a URL the receiver looks for the candidates where the header or the URL is. -/
theorem not_roundTrips_of_byte {req : Request} {rest : ℕ → Byte}
    (hmode : req.hdr.reqMode.getLsbD 4 = true)
    (hbyte : req.mem rest (1 + req.url.length) ≠ nbRptElem) : ¬RoundTrips req true rest := by
  intro h
  obtain ⟨hdr, mode, l, hvalue, -, hstored⟩ := h noReports
  rw [value_process (layout_mem req rest), BtmReq.surveyed.injEq] at hvalue
  obtain ⟨-, -, rfl⟩ := hvalue
  rw [RoamNbInfo.process, if_pos rfl, if_pos rfl] at hstored
  obtain ⟨cs, hcs, hdrs, -⟩ := hdrsAt_of_stored hstored
  have hpos : 0 < cs.length := hcs.length_eq ▸ req.count.1
  have hid := (req.elem _ (hcs.mem_iff.mp (List.getElem_mem hpos))).1
  have hcell := hdrs.cell hpos (Nat.succ_pos 14)
  rw [Request.offset, if_pos hmode] at hcell
  exact hbyte (hcell.trans hid)

/-- A request is read back just when it is decodable: with a URL only by chance. -/
theorem processBtmReq_roundTrips_iff (req : Request) (alloc : Bool) (rest : ℕ → Byte) :
    RoundTrips req alloc rest ↔ Decodable req alloc := by
  have hlay := layout_mem req rest
  constructor
  · intro h
    obtain rfl := alloc_of_roundTrips h
    obtain ⟨hdr, mode, l, hvalue, hsame, hstored⟩ := h noReports
    rw [value_process hlay, BtmReq.surveyed.injEq] at hvalue
    obtain ⟨rfl, rfl, rfl⟩ := hvalue
    rw [RoamNbInfo.process, if_pos rfl, if_pos rfl] at hstored
    exact ⟨rfl, (value_hdr hlay).mp hsame, fun hmode =>
      (readsEarly_iff hmode).mpr (hdrsAt_of_stored hstored)⟩
  · rintro ⟨rfl, hterm, hurl⟩ pnb
    refine ⟨_, _, _, value_process hlay true, (value_hdr hlay).mpr hterm, ?_⟩
    rw [RoamNbInfo.process, if_pos rfl, if_pos rfl]
    by_cases hmode : req.hdr.reqMode.getLsbD 4 = true
    · obtain ⟨cs, hcs, hdrs, hstop⟩ := (@readsEarly_iff req rest hmode).mp (hurl hmode)
      exact stored_of_early hlay hmode hcs hdrs hstop
    · exact stored_of_clear hlay hmode

/-- One candidate behind a URL of one byte. -/
def oneUrl : Request where
  hdr := ⟨1, 0x11, 0, 0, ⟨0, 0, 0, 0⟩⟩
  url := [0x61]
  candidates := [⟨0x34, 16, [2, 0, 0, 0, 0, 1], 0, 81, 6, 7, 255, rfl⟩]
  timer := by decide
  tsf := by decide
  duration := by decide
  urlLen := by decide
  urlMode := by decide
  count := by decide
  elem := by simp [nbRptElem]

theorem oneUrl_not_roundTrips : ¬RoundTrips oneUrl true fun _ => 0 :=
  not_roundTrips_of_byte (by decide) (by decide)

end Rtl8821cu.WnmBtm
