import Rtl8821cu.WnmBtm
import Rtl8821cu.LibSelect

/-! BSS transition requests (`core/rtw_wnm.c`): how they are built, and what becomes of their
candidates where they are received. -/
namespace Rtl8821cu.WnmBtm
open Store Reads Reading Bytes IeSearch

/-- `struct wnm_btm_cant` as a sender fills it in. -/
structure NbRptCant where
  id : Byte
  len : Byte
  bssid : List Byte
  bssInfo : BitVec 32
  regClass : Byte
  chNum : Byte
  phyType : Byte
  preference : Byte
  bssidLen : bssid.length = 6

/-- The report, without its subelement. -/
def NbRptCant.hdr (c : NbRptCant) : List Byte :=
  [c.id, c.len] ++ c.bssid ++ leBytes 4 c.bssInfo.toNat ++ [c.regClass, c.chNum, c.phyType]

def NbRptCant.bytes (c : NbRptCant) : List Byte :=
  c.hdr ++ [wnmBtmCandPrefSubeid, 1, c.preference]

/-- The duration of a termination in `rtw_wnm_build_btm_req_ies`. -/
def termBytes (hdr : BtmReqHdr) : List Byte :=
  if hdr.reqMode.getLsbD 3 then
    [hdr.termDuration.id, hdr.termDuration.len] ++ leBytes 8 hdr.termDuration.tsf ++
      leBytes 2 hdr.termDuration.duration
  else []

/-- The URL of the session in `rtw_wnm_build_btm_req_ies`, where none is given as an empty one. -/
def urlBytes (hdr : BtmReqHdr) (url : List Byte) : List Byte :=
  if 0 < url.length ∧ hdr.reqMode.getLsbD 4 then BitVec.ofNat 8 url.length :: url else []

def rtwWnmBuildBtmReqIes (hdr : BtmReqHdr) (url : List Byte) (candidates : List NbRptCant) :
    List Byte :=
  [hdr.dialogToken, hdr.reqMode] ++ leBytes 2 hdr.disassocTimer ++ [hdr.validityInterval] ++
    termBytes hdr ++ urlBytes hdr url ++ candidates.flatMap NbRptCant.bytes

/-- The body of the frame of `rtw_wnm_issue_btm_req`: category and action come first. -/
def rtwWnmIssueBtmReq (hdr : BtmReqHdr) (url : List Byte) (candidates : List NbRptCant) :
    List Byte :=
  [10, 7] ++ rtwWnmBuildBtmReqIes hdr url candidates

/-- `struct roam_nb_info`; both arrays have `RTW_MAX_NB_RPT_NUM` places. -/
structure RoamNbInfo where
  nbRpt : ℕ → List Byte
  nbRptChList : ℕ → ℕ
  nbRptChListNum : ℕ
  nbRptValid : Bool
  preferenceEn : Bool
  lastNbRptEntries : ℕ
  nbRptIsSame : Bool

/-- The channels that are listed. -/
def RoamNbInfo.channels (pnb : RoamNbInfo) : List ℕ := load pnb.nbRptChList 0 pnb.nbRptChListNum

/-- The channel in a report. -/
def chNum (rpt : List Byte) : ℕ := (rpt.getD 13 0).toNat

def rtwWnmCandidatesSorting (l : List WnmBtmCant) : List WnmBtmCant :=
  Select.sort (fun c => (c.preference.getD 0).toNat) l

/-- What `rtw_wnm_nb_info_update` does about a channel. -/
def RoamNbInfo.addChannel (pnb : RoamNbInfo) (entries ch : ℕ) : RoamNbInfo :=
  if ch = 0 ∨ ∃ j < entries, ch = pnb.nbRptChList j then pnb
  else { pnb with
    nbRptChList := Function.update pnb.nbRptChList pnb.nbRptChListNum ch
    nbRptChListNum := pnb.nbRptChListNum + 1 }

/-- The `i`th report in `rtw_wnm_nb_info_update`. -/
def RoamNbInfo.putReport (pnb : RoamNbInfo) (entries i : ℕ) (rpt : List Byte) : RoamNbInfo :=
  { pnb with nbRpt := Function.update pnb.nbRpt i rpt }.addChannel entries (chNum rpt)

/-- The loop of `rtw_wnm_nb_info_update` from place `i` on; `same` is whether nothing changed. -/
def nbInfoLoop (entries : ℕ) : ℕ → List WnmBtmCant → RoamNbInfo → Bool → RoamNbInfo × Bool
  | _, [], pnb, same => (pnb, same)
  | i, c :: l, pnb, same =>
    nbInfoLoop entries (i + 1) l (pnb.putReport entries i c.nbRpt) (same && pnb.nbRpt i == c.nbRpt)

def rtwWnmNbInfoUpdate (l : List WnmBtmCant) (pnb : RoamNbInfo) : RoamNbInfo × Bool :=
  nbInfoLoop l.length 0 l { pnb with nbRptChListNum := 0 } true

/-- The candidates in the order in which they are stored. -/
def surveyOrder (l : List WnmBtmCant) : List WnmBtmCant :=
  if l.any fun c => c.preference.isSome then rtwWnmCandidatesSorting l else l

/-- The reports of `rtw_wnm_btm_candidates_survey`, once `pnb` is cleaned. -/
def surveyReports (l : List WnmBtmCant) (pnb : RoamNbInfo) : RoamNbInfo × Bool :=
  if l.length ≠ 0 then rtwWnmNbInfoUpdate (surveyOrder l) pnb else (pnb, true)

/-- What is reset for the parsing of `l`, and the preference handling that it finds. -/
def RoamNbInfo.cleaned (pnb : RoamNbInfo) (l : List WnmBtmCant) : RoamNbInfo :=
  { pnb with
    nbRptChList := fun _ => 0
    nbRptValid := false
    preferenceEn := l.any fun c => c.preference.isSome }

/-- What becomes of `pnb` in `rtw_wnm_btm_candidates_survey` when it parses `l`. -/
def RoamNbInfo.survey (pnb : RoamNbInfo) (l : List WnmBtmCant) : RoamNbInfo :=
  let new := surveyReports l (pnb.cleaned l)
  if new.2 ∧ l.length = pnb.lastNbRptEntries then
    { new.1 with nbRptIsSame := true, nbRptValid := true }
  else
    { new.1 with nbRptIsSame := false, lastNbRptEntries := l.length, nbRptValid := true }

/-- What becomes of `pnb` in `rtw_wnm_process_btm_req`; `alloc` is whether the candidates get
memory. -/
def RoamNbInfo.process (pnb : RoamNbInfo) (alloc : Bool) : BtmReq → RoamNbInfo
  | .surveyed _ _ l => if alloc then pnb.survey l else pnb
  | _ => pnb

/-- What `rtw_wnm_nb_info_update` keeps of its list: no channel twice, those of `chs` that are not
0, and zeros behind. -/
structure Listed (pnb : RoamNbInfo) (chs : List ℕ) : Prop where
  nodup : pnb.channels.Nodup
  mem : ∀ ch, ch ∈ pnb.channels ↔ ch ≠ 0 ∧ ch ∈ chs
  behind : ∀ j, pnb.nbRptChListNum ≤ j → pnb.nbRptChList j = 0
  short : pnb.nbRptChListNum ≤ chs.length

section Update

variable {pnb : RoamNbInfo} {chs : List ℕ} {entries i k : ℕ} {l : List WnmBtmCant} {same : Bool}

@[simp] theorem nbRpt_addChannel (ch : ℕ) : (pnb.addChannel entries ch).nbRpt = pnb.nbRpt := by
  rw [RoamNbInfo.addChannel]
  split_ifs <;> rfl

theorem nbRpt_putReport (rpt : List Byte) :
    (pnb.putReport entries i rpt).nbRpt = Function.update pnb.nbRpt i rpt := nbRpt_addChannel _

theorem mem_channels {ch : ℕ} :
    ch ∈ pnb.channels ↔ ∃ j < pnb.nbRptChListNum, pnb.nbRptChList j = ch := by
  simp [RoamNbInfo.channels, load]

/-- The search for a channel sees those that are listed and zeros. -/
theorem Listed.found_iff (h : Listed pnb chs) (hlen : chs.length ≤ entries) {ch : ℕ}
    (hch : ch ≠ 0) : (∃ j < entries, ch = pnb.nbRptChList j) ↔ ch ∈ pnb.channels := by
  rw [mem_channels]
  constructor
  · rintro ⟨j, hj, rfl⟩
    refine ⟨j, ?_, rfl⟩
    by_contra hge
    exact hch (h.behind j (by omega))
  · rintro ⟨j, hj, rfl⟩
    have := h.short
    exact ⟨j, by omega, rfl⟩

theorem Listed.addChannel (h : Listed pnb chs) (hlen : chs.length ≤ entries) (ch : ℕ) :
    Listed (pnb.addChannel entries ch) (chs ++ [ch]) := by
  rw [RoamNbInfo.addChannel]
  have hmem : ∀ x, x ∈ chs ++ [ch] ↔ x ∈ chs ∨ x = ch := by simp
  split_ifs with hskip
  · refine ⟨h.nodup, ?_, h.behind, ?_⟩
    · intro x
      rw [h.mem, hmem]
      refine and_congr_right fun hx => ⟨.inl, ?_⟩
      rintro (hold | rfl)
      · exact hold
      · have hfound := (h.found_iff hlen hx).mp (hskip.resolve_left hx)
        exact ((h.mem x).mp hfound).2
    · have := h.short
      simp only [List.length_append, List.length_singleton]
      omega
  · obtain ⟨hch, hnew⟩ := not_or.mp hskip
    rw [h.found_iff hlen hch] at hnew
    have hchannels : load (Function.update pnb.nbRptChList pnb.nbRptChListNum ch) 0
        (pnb.nbRptChListNum + 1) = pnb.channels ++ [ch] := by
      rw [load_add]
      congr 1
      · refine load_congr fun j _ hj => Function.update_of_ne (by omega) ..
      · simp [load]
    refine ⟨?_, ?_, ?_, ?_⟩
    · dsimp only [RoamNbInfo.channels]
      rw [hchannels]
      exact List.nodup_append.mpr ⟨h.nodup, List.nodup_singleton _, fun x hx y hy => by
        rw [List.mem_singleton.mp hy]
        rintro rfl
        exact hnew hx⟩
    · intro x
      dsimp only [RoamNbInfo.channels]
      rw [hchannels, List.mem_append, h.mem, hmem, List.mem_singleton]
      constructor
      · rintro (⟨hx, hold⟩ | rfl)
        · exact ⟨hx, .inl hold⟩
        · exact ⟨hch, .inr rfl⟩
      · rintro ⟨hx, hold | rfl⟩
        · exact .inl ⟨hx, hold⟩
        · exact .inr rfl
    · intro j hj
      dsimp only at hj ⊢
      rw [Function.update_of_ne (by omega)]
      exact h.behind j (by omega)
    · have := h.short
      simp only [List.length_append, List.length_singleton]
      omega

theorem nbRpt_nbInfoLoop_of_lt {j : ℕ} (hj : j < i) :
    (nbInfoLoop entries i l pnb same).1.nbRpt j = pnb.nbRpt j := by
  induction l generalizing i pnb same with
  | nil => rfl
  | cons c l ih =>
    rw [nbInfoLoop, ih (by omega), nbRpt_putReport, Function.update_of_ne (by omega)]

/-- The loop puts the reports where they belong. -/
theorem nbRpt_nbInfoLoop (hk : k < l.length) :
    (nbInfoLoop entries i l pnb same).1.nbRpt (i + k) = l[k].nbRpt := by
  induction l generalizing i k pnb same with
  | nil => exact absurd hk (by simp)
  | cons c l ih =>
    rw [nbInfoLoop]
    cases k with
    | zero =>
      rw [nbRpt_nbInfoLoop_of_lt (by omega), nbRpt_putReport]
      exact Function.update_self ..
    | succ k =>
      rw [show i + (k + 1) = i + 1 + k by omega, ih (by simpa using hk)]
      rfl

theorem listed_nbInfoLoop (h : Listed pnb chs) (hlen : chs.length + l.length ≤ entries) :
    Listed (nbInfoLoop entries i l pnb same).1 (chs ++ l.map fun c => chNum c.nbRpt) := by
  induction l generalizing i chs pnb same with
  | nil => simpa [nbInfoLoop] using h
  | cons c l ih =>
    rw [List.length_cons] at hlen
    have hset : Listed { pnb with nbRpt := Function.update pnb.nbRpt i c.nbRpt } chs :=
      ⟨h.nodup, h.mem, h.behind, h.short⟩
    have hput : Listed (pnb.putReport entries i c.nbRpt) (chs ++ [chNum c.nbRpt]) :=
      hset.addChannel (by omega) _
    rw [nbInfoLoop, List.map_cons, ← List.singleton_append, ← List.append_assoc]
    refine ih hput ?_
    rw [List.length_append, List.length_singleton]
    omega

/-- What the loop does not change. -/
theorem nbInfoLoop_keeps :
    (nbInfoLoop entries i l pnb same).1.preferenceEn = pnb.preferenceEn ∧
      (nbInfoLoop entries i l pnb same).1.lastNbRptEntries = pnb.lastNbRptEntries := by
  induction l generalizing i pnb same with
  | nil => exact ⟨rfl, rfl⟩
  | cons c l ih =>
    rw [nbInfoLoop, ih.1, ih.2, RoamNbInfo.putReport, RoamNbInfo.addChannel]
    split_ifs
    · exact ⟨rfl, rfl⟩
    · exact ⟨rfl, rfl⟩

theorem perm_surveyOrder : (surveyOrder l).Perm l := by
  rw [surveyOrder]
  split_ifs
  · exact Select.perm_sort l
  · exact .refl l

theorem length_surveyOrder : (surveyOrder l).length = l.length := perm_surveyOrder.length_eq

/-- What is stored of the candidates that were parsed. -/
structure Surveyed (pnb : RoamNbInfo) (l : List WnmBtmCant) (last : ℕ) : Prop where
  entries : pnb.lastNbRptEntries = last
  enabled : pnb.preferenceEn = l.any fun c => c.preference.isSome
  reports : ∀ k (h : k < (surveyOrder l).length), pnb.nbRpt k = (surveyOrder l)[k].nbRpt
  nodup : pnb.channels.Nodup
  mem : ∀ ch, ch ∈ pnb.channels ↔ ch ≠ 0 ∧ ∃ c ∈ l, chNum c.nbRpt = ch

theorem surveyed_surveyReports (hl : l ≠ []) :
    Surveyed (surveyReports l (pnb.cleaned l)).1 l pnb.lastNbRptEntries := by
  have hnone : Listed { pnb.cleaned l with nbRptChListNum := 0 } [] :=
    ⟨.nil, by simp [RoamNbInfo.channels, load], fun _ _ => rfl, le_rfl⟩
  rw [surveyReports, if_pos (by simpa using hl), rtwWnmNbInfoUpdate]
  obtain ⟨hen, hentries⟩ := @nbInfoLoop_keeps { pnb.cleaned l with nbRptChListNum := 0 }
    (surveyOrder l).length 0 (surveyOrder l) true
  have hlist := @listed_nbInfoLoop _ _ (surveyOrder l).length 0 (surveyOrder l) true hnone (by simp)
  refine ⟨hentries, hen, ?_, hlist.nodup, ?_⟩
  · intro k hk
    have hrpt := @nbRpt_nbInfoLoop { pnb.cleaned l with nbRptChListNum := 0 }
      (surveyOrder l).length 0 k (surveyOrder l) true hk
    rwa [Nat.zero_add] at hrpt
  · intro ch
    rw [hlist.mem, List.nil_append, List.mem_map]
    simp only [perm_surveyOrder.mem_iff]

theorem surveyed_survey (hl : l ≠ []) : Surveyed (pnb.survey l) l l.length := by
  obtain ⟨hlast, hen, hreports, hnodup, hmem⟩ := @surveyed_surveyReports pnb l hl
  rw [RoamNbInfo.survey]
  split_ifs with hsame
  · exact ⟨hlast.trans hsame.2.symm, hen, hreports, hnodup, hmem⟩
  · exact ⟨rfl, hen, hreports, hnodup, hmem⟩

end Update

end Rtl8821cu.WnmBtm
