import Rtl8821cu.WnmBtmBuild

/-! Neighbour reports of 18 bytes (`core/rtw_wnm.c`): what `rtw_wnm_nb_elem_parsing` makes of a row
of them. -/
namespace Rtl8821cu.WnmBtm
open Store Reads Reading Bytes IeSearch

/-- The candidate of a report of 18 bytes, whose subelement is at 15. -/
def reportAt (mem : ℕ → Byte) (p : ℕ) : WnmBtmCant where
  nbRpt := load mem p nbRptHdrSize
  preference :=
    if mem (p + 15) = wnmBtmCandPrefSubeid ∧ mem (p + 16) ≠ 0 then some (mem (p + 17)) else none

/-- The candidates of `n` reports of 18 bytes. -/
def reportsAt (mem : ℕ → Byte) (p n : ℕ) : List WnmBtmCant :=
  (List.range n).map fun i => reportAt mem (p + 18 * i)

/-- The heads of `n` reports of 18 bytes. -/
def Heads (mem : ℕ → Byte) (p n : ℕ) : Prop :=
  ∀ i < n, mem (p + 18 * i) = nbRptElem ∧ mem (p + 18 * i + 1) = 16

/-- No report is taken at `p` when the data ends at `pend` and `k` turns are left. -/
def Stops (mem : ℕ → Byte) (pend k p : ℕ) : Prop :=
  k = 0 ∨ pend < p + 7 ∨ pend - p < (mem (p + 1)).toNat ∨ mem p ≠ nbRptElem

/-- The loop of `rtw_wnm_nb_elem_parsing` over what is left of the data from `p` on. -/
def reportsFrom (mem : ℕ → Byte) (pend k p : ℕ) : List WnmBtmCant :=
  (nbElemLoop pend k p (pend - p) (mem (p + 1)).toNat).value mem

variable {mem : ℕ → Byte} {pend k n p : ℕ}

theorem heads_succ :
    Heads mem p (n + 1) ↔ (mem p = nbRptElem ∧ mem (p + 1) = 16) ∧ Heads mem (p + 18) n := by
  constructor
  · intro h
    refine ⟨h 0 (Nat.succ_pos n), fun i hi => ?_⟩
    have := h (i + 1) (by omega)
    rwa [show p + 18 * (i + 1) = p + 18 + 18 * i by omega] at this
  · rintro ⟨h0, h⟩ i hi
    cases i with
    | zero => exact h0
    | succ i =>
      rw [show p + 18 * (i + 1) = p + 18 + 18 * i by omega]
      exact h i (by omega)

theorem reportsAt_succ :
    reportsAt mem p (n + 1) = reportAt mem p :: reportsAt mem (p + 18) n := by
  rw [reportsAt, List.range_succ_eq_map, List.map_cons, List.map_map, reportsAt]
  refine congrArg _ (List.map_congr_left fun i _ => ?_)
  dsimp only [Function.comp]
  rw [show p + 18 * (i + 1) = p + 18 + 18 * i by omega]

theorem length_reportsAt : (reportsAt mem p n).length = n := by
  simp [reportsAt]

theorem reportsFrom_of_stops (h : Stops mem pend k p) : reportsFrom mem pend k p = [] := by
  cases k with
  | zero => rfl
  | succ k =>
    have h := h.resolve_left (Nat.succ_ne_zero k)
    rw [reportsFrom, nbElemLoop]
    split_ifs with hshort
    · rfl
    · rw [value_cell_bind, if_pos (by tauto)]
      rfl

theorem reportsFrom_of_not_stops (h : ¬Stops mem pend (k + 1) p) : ∃ pref l,
    reportsFrom mem pend (k + 1) p = ⟨load mem p nbRptHdrSize, pref⟩ :: l := by
  rw [Stops, not_or, not_or, not_or] at h
  obtain ⟨-, hroom, hlen, hid⟩ := h
  rw [reportsFrom, nbElemLoop, if_neg (by tauto), value_cell_bind, if_neg hid]
  simp only [value_bind, value_cells, value_pure]
  exact ⟨_, _, rfl⟩

/-- The search for the preference in a report of 18 bytes looks at one subelement only. -/
theorem value_preference_report :
    (preference ((rtwGetIe (p + 15) wnmBtmCandPrefSubeid ((16 : ℕ) - 15)).value mem)).value mem =
      (reportAt mem p).preference := by
  rw [rtwGetIe, if_neg (by decide), show ((16 : ℕ) - 15 : ℤ).toNat = 1 from rfl, getIeLoop,
    value_cell_bind, value_cell_bind, reportAt]
  by_cases hid : mem (p + 15) = wnmBtmCandPrefSubeid
  · rw [Nat.add_zero, if_pos hid, value_pure, preference]
    by_cases hlen : mem (p + 16) = 0
    · simp [hlen]
    · have hne : (mem (p + 16)).toNat ≠ 0 := fun h => hlen (BitVec.eq_of_toNat_eq h)
      rw [if_pos hne, if_pos ⟨hid, hlen⟩, value_cell_bind]
      rfl
  · rw [Nat.add_zero, if_neg hid, if_pos (by omega), if_neg (fun h => hid h.1)]
    rfl

theorem reportsFrom_report (hid : mem p = nbRptElem) (hlen : mem (p + 1) = 16)
    (hroom : p + 18 ≤ pend) (hpend : pend < 2 ^ 32) : reportsFrom mem pend (k + 1) p =
      reportAt mem p :: reportsFrom mem pend k (p + 18) := by
  have h16 : (mem (p + 1)).toNat = 16 := by
    rw [hlen]
    rfl
  rw [reportsFrom, nbElemLoop, h16, if_neg (by omega), value_cell_bind, if_neg (not_not.mpr hid)]
  simp only [value_bind, value_cells, value_pure, value_cell]
  rw [value_preference_report, subU32_of_le (by omega) (by omega), reportsFrom]
  rfl

/-- A row of reports is read as it stands, up to what stops the loop behind it. -/
theorem reportsFrom_eq (hn : n ≤ k) (hroom : p + 18 * n ≤ pend) (hpend : pend < 2 ^ 32)
    (hheads : Heads mem p n) (hstop : Stops mem pend (k - n) (p + 18 * n)) :
    reportsFrom mem pend k p = reportsAt mem p n := by
  induction n generalizing k p with
  | zero => exact reportsFrom_of_stops hstop
  | succ n ih =>
    obtain ⟨k, rfl⟩ : ∃ k', k = k' + 1 := ⟨k - 1, by omega⟩
    obtain ⟨⟨hid, hlen⟩, hheads⟩ := heads_succ.mp hheads
    rw [reportsFrom_report hid hlen (by omega) hpend, reportsAt_succ,
      ih (by omega) (by omega) hheads ?_]
    rwa [Nat.add_sub_add_right, show p + 18 * (n + 1) = p + 18 + 18 * n by omega] at hstop

/-- Reports of 16 bytes, as they say of themselves, are read in a row. -/
theorem heads_of_reportsFrom (hroom : p + 18 * n ≤ pend) (hpend : pend < 2 ^ 32)
    (hn : (reportsFrom mem pend k p).length = n)
    (hlen : ∀ c ∈ reportsFrom mem pend k p, c.nbRpt.getD 1 0 = 16) :
    n ≤ k ∧ Heads mem p n ∧ Stops mem pend (k - n) (p + 18 * n) := by
  induction n generalizing k p with
  | zero =>
    refine ⟨Nat.zero_le k, fun i hi => absurd hi (Nat.not_lt_zero i), ?_⟩
    rw [Nat.mul_zero, Nat.add_zero, Nat.sub_zero]
    by_contra hstop
    cases k with
    | zero => exact hstop (.inl rfl)
    | succ k =>
      obtain ⟨pref, l, hl⟩ := reportsFrom_of_not_stops hstop
      simp [hl] at hn
  | succ n ih =>
    have hgo : ¬Stops mem pend k p := by
      intro hstop
      simp [reportsFrom_of_stops hstop] at hn
    cases k with
    | zero => exact absurd (.inl rfl) hgo
    | succ k =>
      obtain ⟨pref, l, hl⟩ := reportsFrom_of_not_stops hgo
      have hp1 : mem (p + 1) = 16 := by
        have := hlen _ (hl ▸ List.mem_cons_self)
        rwa [getD_load mem p (by decide)] at this
      have hid : mem p = nbRptElem := by
        by_contra hne
        exact hgo (.inr (.inr (.inr hne)))
      have hstep := @reportsFrom_report mem pend k p hid hp1 (by omega) hpend
      rw [hstep] at hn hlen
      obtain ⟨hk, hheads, hstop⟩ := ih (by omega) (by simpa using hn)
        fun c hc => hlen c (List.mem_cons_of_mem _ hc)
      refine ⟨by omega, heads_succ.mpr ⟨⟨hid, hp1⟩, hheads⟩, ?_⟩
      rwa [Nat.add_sub_add_right, show p + 18 * (n + 1) = p + 18 + 18 * n by omega]

/-- The report that was copied is that of the candidate. -/
def Carries (c : WnmBtmCant) (cand : NbRptCant) : Prop := c.nbRpt.take 15 = cand.hdr

theorem length_hdr (cand : NbRptCant) : cand.hdr.length = 15 := by
  simp [NbRptCant.hdr, cand.bssidLen]

theorem getD_of_carries {c : WnmBtmCant} {cand : NbRptCant} (h : Carries c cand) {i : ℕ}
    (hi : i < 15) : c.nbRpt.getD i 0 = cand.hdr.getD i 0 := by
  rw [← h, List.getD_eq_getElem?_getD, List.getD_eq_getElem?_getD, List.getElem?_take_of_lt hi]

theorem len_of_carries {c : WnmBtmCant} {cand : NbRptCant} (h : Carries c cand) :
    c.nbRpt.getD 1 0 = cand.len := getD_of_carries h (by decide)

theorem chNum_of_carries {c : WnmBtmCant} {cand : NbRptCant} (h : Carries c cand) :
    chNum c.nbRpt = cand.chNum.toNat := by
  rw [chNum, getD_of_carries h (by decide), NbRptCant.hdr]
  simp [cand.bssidLen]

theorem carries_reportAt {cand : NbRptCant} :
    Carries (reportAt mem p) cand ↔ HoldsAt mem p cand.hdr := by
  have htake : (load mem p nbRptHdrSize).take 15 = load mem p 15 := by
    rw [show nbRptHdrSize = 15 + 1 from rfl, load_add, List.take_left' (length_load ..)]
  rw [Carries, reportAt, htake]
  constructor
  · intro h
    rw [← h]
    exact holdsAt_load mem p 15
  · intro h
    rw [← length_hdr cand]
    exact load_of_holdsAt h

theorem forall₂_reportsAt {R : WnmBtmCant → NbRptCant → Prop} {cs : List NbRptCant} :
    List.Forall₂ R (reportsAt mem p n) cs ↔
      cs.length = n ∧ ∀ i (h : i < cs.length), R (reportAt mem (p + 18 * i)) cs[i] := by
  constructor
  · intro h
    have hlen := h.length_eq
    refine ⟨by rw [← hlen, length_reportsAt], fun i hi => ?_⟩
    simpa [reportsAt] using h.get (by omega) hi
  · rintro ⟨hn, h⟩
    refine List.forall₂_iff_get.mpr ⟨by rw [length_reportsAt, hn], fun i _ hi => ?_⟩
    simpa [reportsAt] using h i hi

/-- The candidates are stored, in order of their preferences where these count, and so are their
channels. -/
structure Stored (cands : List NbRptCant) (pnb : RoamNbInfo) : Prop where
  reports : ∃ cs : List NbRptCant, cs.Perm cands ∧ pnb.lastNbRptEntries = cs.length ∧
    (∀ i (h : i < cs.length), (pnb.nbRpt i).take 15 = cs[i].hdr) ∧
    (pnb.preferenceEn = true → cs.Pairwise fun a b => b.preference ≤ a.preference)
  nodup : pnb.channels.Nodup
  channels : ∀ ch, ch ∈ pnb.channels ↔ ch ≠ 0 ∧ ∃ c ∈ cands, c.chNum.toNat = ch

section Stored

variable {cands cs : List NbRptCant} {l : List WnmBtmCant} {pnb : RoamNbInfo}

theorem exists_chNum_iff (h : List.Forall₂ Carries l cs) (ch : ℕ) :
    (∃ c ∈ l, chNum c.nbRpt = ch) ↔ ∃ c ∈ cs, c.chNum.toNat = ch := by
  induction h with
  | nil => simp
  | cons hc _ ih => simp [chNum_of_carries hc, ih]

theorem pairwise_of_surveyOrder {R : WnmBtmCant → NbRptCant → Prop}
    (hR : ∀ c cand, R c cand → c.preference = some cand.preference)
    (hpref : (l.any fun c => c.preference.isSome) = true)
    (h : List.Forall₂ R (surveyOrder l) cs) :
    cs.Pairwise fun a b => b.preference ≤ a.preference := by
  have hlen := h.length_eq
  have hsorted := @Select.pairwise_sort _ _ _
    (fun c : WnmBtmCant => (c.preference.getD 0).toNat) l
  rw [show Select.sort _ l = surveyOrder l by rw [surveyOrder, if_pos hpref]; rfl,
    List.pairwise_iff_getElem] at hsorted
  refine List.pairwise_iff_getElem.mpr fun i j hi hj hij => ?_
  have hle := hsorted i j (by omega) (by omega) hij
  have hiPref : (surveyOrder l)[i].preference = some cs[i].preference :=
    hR _ _ (h.get (by omega) hi)
  have hjPref : (surveyOrder l)[j].preference = some cs[j].preference :=
    hR _ _ (h.get (by omega) hj)
  rw [hiPref, hjPref] at hle
  exact hle

theorem stored_of_forall₂ {R : WnmBtmCant → NbRptCant → Prop}
    (hR : ∀ c cand, R c cand → Carries c cand) (hcs : cs.Perm cands) (hl : List.Forall₂ R l cs)
    (hne : l ≠ []) (horder : (l.any fun c => c.preference.isSome) = true →
      cs.length ≤ 1 ∨ ∀ c cand, R c cand → c.preference = some cand.preference) :
    Stored cands (pnb.survey l) := by
  obtain ⟨hlast, hen, hreports, hnodup, hmem⟩ := @surveyed_survey pnb l hne
  obtain ⟨cs', hcarry, hperm⟩ := List.perm_comp_forall₂ perm_surveyOrder hl
  have hlen := hcarry.length_eq
  refine ⟨⟨cs', hperm.trans hcs, ?_, ?_, ?_⟩, hnodup, ?_⟩
  · rw [hlast, ← length_surveyOrder, hlen]
  · intro i hi
    rw [hreports i (by omega)]
    exact hR _ _ (hcarry.get (by omega) hi)
  · intro hpref
    rw [hen] at hpref
    obtain hone | hall := horder hpref
    · rw [← hperm.length_eq] at hone
      match cs', hone with
      | [], _ => exact .nil
      | [c], _ => exact List.pairwise_singleton _ c
    · exact pairwise_of_surveyOrder hall hpref hcarry
  · intro ch
    rw [hmem, exists_chNum_iff (hl.imp hR)]
    simp only [hcs.mem_iff]

/-- What is stored was parsed. -/
theorem forall₂_of_stored (hcands : cands ≠ []) (h : Stored cands (pnb.survey l)) :
    ∃ cs : List NbRptCant, cs.Perm cands ∧ List.Forall₂ Carries l cs := by
  obtain ⟨cs, hperm, hlast, hrpts, -⟩ := h.reports
  have hne : l ≠ [] := by
    rintro rfl
    refine hcands (List.perm_nil.mp ?_)
    have hnone : (pnb.survey []).lastNbRptEntries = 0 := by
      rw [RoamNbInfo.survey]
      split_ifs with hsame
      · exact hsame.2.symm
      · rfl
    rw [hnone] at hlast
    rw [List.length_eq_zero_iff.mp hlast.symm] at hperm
    exact hperm.symm
  obtain ⟨hentries, -, hreports, -, -⟩ := @surveyed_survey pnb l hne
  have hlen : (surveyOrder l).length = cs.length := by
    rw [length_surveyOrder, ← hentries, hlast]
  have hcarry : List.Forall₂ Carries (surveyOrder l) cs := by
    refine List.forall₂_iff_get.mpr ⟨hlen, fun i hi hi' => ?_⟩
    have := hrpts i hi'
    rwa [hreports i hi] at this
  obtain ⟨cs', hcs', hperm'⟩ := List.perm_comp_forall₂ perm_surveyOrder.symm hcarry
  exact ⟨cs', hperm'.trans hperm, hcs'⟩

end Stored

end Rtl8821cu.WnmBtm
