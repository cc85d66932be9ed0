import Rtl8821cu.LibRun

/-! Association ids of the stations of an access point: `rtw_aid_alloc` and what
`rtw_free_stainfo` does with the id of a station (`core/rtw_sta_mgt.c`). -/
namespace Rtl8821cu.AidAlloc
open Run

variable {n : ℕ}

/-- What the routines use of `struct sta_priv`, for `n` station slots; `aid` is `cmn.aid` of each
station. -/
structure StaPriv (n : ℕ) where
  maxAid : ℕ
  maxNumSta : ℕ
  rrAid : Bool
  startedAid : ℕ
  staAid : ℕ → Option (Fin n)
  aid : Fin n → ℕ

/-- The id that is tried at place `i` of the search. -/
def StaPriv.tried (p : StaPriv n) (i : ℕ) : ℕ := (i + p.startedAid - 1) % p.maxAid + 1

/-- The loop of `rtw_aid_alloc` with `k` places left: where it ends, and `used_cnt`. -/
def aidSearch (p : StaPriv n) : ℕ → ℕ → ℕ → ℕ × ℕ
  | 0, i, usedCnt => (i, usedCnt)
  | k + 1, i, usedCnt =>
    if p.staAid (p.tried i - 1) = none then (i, usedCnt)
    else if usedCnt + 1 ≥ p.maxNumSta then (i, usedCnt + 1)
    else aidSearch p k (i + 1) (usedCnt + 1)

/-- The id that `rtw_aid_alloc` returns, zero if there is none. -/
def allocatedAid (p : StaPriv n) : ℕ :=
  let r := aidSearch p p.maxAid 0 0
  if r.1 ≥ p.maxAid ∨ r.2 ≥ p.maxNumSta then 0 else p.tried r.1

def rtwAidAlloc (p : StaPriv n) (sta : Fin n) : ℕ × StaPriv n :=
  let aid := allocatedAid p
  let p := { p with aid := Function.update p.aid sta aid }
  if aid = 0 then (aid, p)
  else
    (aid, { p with
      staAid := Function.update p.staAid (aid - 1) (some sta)
      startedAid := if p.rrAid then aid % p.maxAid + 1 else p.startedAid })

/-- The part of `rtw_free_stainfo` on the id of a station of an access point. -/
def rtwFreeStainfo (p : StaPriv n) (sta : Fin n) : StaPriv n :=
  if p.aid sta > 0 ∧ p.staAid (p.aid sta - 1) = some sta then
    { p with
      staAid := Function.update p.staAid (p.aid sta - 1) none
      aid := Function.update p.aid sta 0 }
  else p

/-- `proc_set_aid_status`, with the second number if it was given. -/
def procSetAidStatus (p : StaPriv n) (rr : Bool) (startedAid : Option ℕ) : StaPriv n :=
  match startedAid with
  | none => { p with rrAid := rr }
  | some s =>
    let s := s % (p.maxAid + 1)
    { p with rrAid := rr, startedAid := if s = 0 then 1 else s }

inductive Op (n : ℕ)
  | alloc (sta : Fin n)
  | free (sta : Fin n)
  | setStatus (rr : Bool) (startedAid : Option ℕ)

/-- An association request gives a station an id only if it has none. -/
def step (p : StaPriv n) : Op n → StaPriv n
  | .alloc sta => if p.aid sta > 0 then p else (rtwAidAlloc p sta).2
  | .free sta => rtwFreeStainfo p sta
  | .setStatus rr startedAid => procSetAidStatus p rr startedAid

/-- `_rtw_init_sta_priv`, with the limit of the configuration. -/
def init (n maxAid maxNumSta : ℕ) : StaPriv n :=
  ⟨maxAid, maxNumSta, false, 1, fun _ => none, fun _ => 0⟩

namespace StaPriv

/-- How many stations hold an id. -/
def holders (p : StaPriv n) : ℕ := (Finset.univ.filter fun s => p.aid s ≠ 0).card

/-- The table and the stations agree on who holds which id. -/
structure Agree (p : StaPriv n) : Prop where
  range : ∀ s, p.aid s ≤ p.maxAid
  entry : ∀ s, p.aid s ≠ 0 → p.staAid (p.aid s - 1) = some s
  holder : ∀ i s, p.staAid i = some s → p.aid s = i + 1
  started : 1 ≤ p.startedAid

/-- The table of ids is exact: the ids of stations differ, are in range and stand in the
table, which is empty elsewhere, and the limit on stations is kept. -/
structure Exact (p : StaPriv n) : Prop where
  distinct : ∀ s t, p.aid s ≠ 0 → p.aid s = p.aid t → s = t
  range : ∀ s, p.aid s ≤ p.maxAid
  entry : ∀ s, p.aid s ≠ 0 → p.staAid (p.aid s - 1) = some s
  unheld : ∀ i, (∀ s, p.aid s ≠ i + 1) → p.staAid i = none
  limit : p.holders ≤ p.maxNumSta

/-- The ids at the first places of the search, as many as the limit says, are all held. -/
def SearchFull (p : StaPriv n) : Prop :=
  ∀ i < min p.maxAid p.maxNumSta, p.staAid (p.tried i - 1) ≠ none

end StaPriv

/-- No id is asked for when the limit is reached and the search would come upon a free id before
it has met as many held ones. -/
def WithinLimit (p : StaPriv n) : Op n → Prop
  | .alloc sta => p.aid sta = 0 → p.holders = p.maxNumSta → p.SearchFull
  | _ => True

section Search

variable {p : StaPriv n}

/-- The search ends at the first free id, or it met as many held ids as it may. -/
theorem aidSearch_spec (k i : ℕ) (hk : k + i = p.maxAid)
    (hheld : ∀ j < i, p.staAid (p.tried j - 1) ≠ none) :
    let r := aidSearch p k i i
    (∃ j, i ≤ j ∧ j < p.maxAid ∧ r = (j, j) ∧ p.staAid (p.tried j - 1) = none ∧
        ∀ l < j, p.staAid (p.tried l - 1) ≠ none) ∨
      ((r.1 ≥ p.maxAid ∨ r.2 ≥ p.maxNumSta) ∧
        ∀ l < min p.maxAid p.maxNumSta, p.staAid (p.tried l - 1) ≠ none) := by
  induction k generalizing i with
  | zero =>
    refine .inr ⟨.inl (by simp [aidSearch]; omega), fun l hl => hheld l ?_⟩
    omega
  | succ k ih =>
    unfold aidSearch
    by_cases hfree : p.staAid (p.tried i - 1) = none
    · rw [if_pos hfree]
      exact .inl ⟨i, le_rfl, by omega, rfl, hfree, hheld⟩
    · rw [if_neg hfree]
      have hnext : ∀ j < i + 1, p.staAid (p.tried j - 1) ≠ none := by
        intro j hj
        rcases Nat.lt_succ_iff_lt_or_eq.mp hj with hj | rfl
        · exact hheld j hj
        · exact hfree
      by_cases hmax : i + 1 ≥ p.maxNumSta
      · rw [if_pos hmax]
        refine .inr ⟨.inr hmax, fun l hl => hnext l ?_⟩
        omega
      · rw [if_neg hmax]
        rcases ih (i + 1) (by omega) hnext with ⟨j, hj, hrest⟩ | hfull
        · exact .inl ⟨j, by omega, hrest⟩
        · exact .inr hfull

theorem tried_ne_zero (i : ℕ) : p.tried i ≠ 0 := Nat.succ_ne_zero _

theorem tried_le {i : ℕ} (hi : i < p.maxAid) : p.tried i ≤ p.maxAid :=
  Nat.mod_lt _ (Nat.zero_lt_of_lt hi)

/-- The id that is returned is the free one of a first place, or there is none there. -/
theorem allocatedAid_spec (p : StaPriv n) :
    (allocatedAid p = 0 ∧ p.SearchFull) ∨
      ∃ j < min p.maxAid p.maxNumSta, p.staAid (p.tried j - 1) = none ∧
        allocatedAid p = p.tried j := by
  have hspec := aidSearch_spec (p := p) p.maxAid 0 (by omega) (by omega)
  unfold allocatedAid
  dsimp only at hspec ⊢
  rcases hspec with ⟨j, -, hj, hr, hfree, hheld⟩ | ⟨hend, hfull⟩
  · rw [hr]
    by_cases hmax : j ≥ p.maxNumSta
    · rw [if_pos (.inr hmax)]
      exact .inl ⟨rfl, fun l hl => hheld l (by omega)⟩
    · rw [if_neg (by omega)]
      exact .inr ⟨j, by omega, hfree, rfl⟩
  · rw [if_pos hend]
    exact .inl ⟨rfl, hfull⟩

end Search

section Step

variable {p : StaPriv n} {sta : Fin n}

theorem StaPriv.Agree.exact_iff (h : p.Agree) : p.Exact ↔ p.holders ≤ p.maxNumSta := by
  refine ⟨fun he => he.limit, fun hl => ⟨?_, h.range, h.entry, ?_, hl⟩⟩
  · intro s t hs hst
    have h1 := h.entry s hs
    rw [hst, h.entry t (hst ▸ hs)] at h1
    exact (Option.some.inj h1).symm
  · intro i hi
    cases hq : p.staAid i with
    | none => rfl
    | some s => exact absurd (h.holder i s hq) (hi s)

/-- The state after a station got a free id. -/
def given (p : StaPriv n) (sta : Fin n) (aid : ℕ) : StaPriv n :=
  { p with
    aid := Function.update p.aid sta aid
    staAid := Function.update p.staAid (aid - 1) (some sta)
    startedAid := if p.rrAid then aid % p.maxAid + 1 else p.startedAid }

/-- What an allocation does to a station without an id. -/
theorem rtwAidAlloc_cases (p : StaPriv n) (hsta : p.aid sta = 0) :
    ((rtwAidAlloc p sta).1 = 0 ∧ (rtwAidAlloc p sta).2 = p ∧ p.SearchFull) ∨
      ∃ j < min p.maxAid p.maxNumSta, p.staAid (p.tried j - 1) = none ∧
        rtwAidAlloc p sta = (p.tried j, given p sta (p.tried j)) := by
  rcases allocatedAid_spec p with ⟨hzero, hfull⟩ | ⟨j, hj, hfree, haid⟩
  · left
    have hsame : Function.update p.aid sta 0 = p.aid := by
      rw [← hsta, Function.update_eq_self]
    simp [rtwAidAlloc, hzero, hsame, hfull]
  · right
    refine ⟨j, hj, hfree, ?_⟩
    simp [rtwAidAlloc, haid, tried_ne_zero, given]

theorem StaPriv.Agree.given (h : p.Agree) (hsta : p.aid sta = 0) {aid : ℕ} (hne : aid ≠ 0)
    (hle : aid ≤ p.maxAid) (hfree : p.staAid (aid - 1) = none) : (given p sta aid).Agree := by
  refine ⟨?_, ?_, ?_, ?_⟩
  · intro s
    by_cases hs : s = sta
    · subst hs
      simpa [AidAlloc.given] using hle
    · simpa [AidAlloc.given, hs] using h.range s
  · intro s hs
    by_cases hsta' : s = sta
    · subst hsta'
      simp [AidAlloc.given]
    · simp only [AidAlloc.given, Function.update_of_ne hsta'] at hs ⊢
      have hentry := h.entry s hs
      rw [Function.update_of_ne, hentry]
      intro he
      rw [he, hfree] at hentry
      cases hentry
  · intro i s hi
    by_cases hia : i = aid - 1
    · subst hia
      simp only [AidAlloc.given, Function.update_self] at hi ⊢
      obtain rfl := Option.some.inj hi
      rw [Function.update_self]
      omega
    · simp only [AidAlloc.given, Function.update_of_ne hia] at hi ⊢
      have hs := h.holder i s hi
      rw [Function.update_of_ne, hs]
      rintro rfl
      omega
  · have := h.started
    simp only [AidAlloc.given]
    split_ifs <;> omega

theorem holders_given (hsta : p.aid sta = 0) {aid : ℕ} (hne : aid ≠ 0) :
    (given p sta aid).holders = p.holders + 1 := by
  have hset : (Finset.univ.filter fun s => (given p sta aid).aid s ≠ 0) =
      insert sta (Finset.univ.filter fun s => p.aid s ≠ 0) := by
    ext s
    simp only [Finset.mem_filter, Finset.mem_insert, Finset.mem_univ, true_and]
    by_cases hs : s = sta
    · subst hs
      simp [given, hne]
    · simp [given, hs]
  unfold StaPriv.holders
  rw [hset, Finset.card_insert_of_notMem (by simp [hsta])]

theorem StaPriv.Agree.free (h : p.Agree) (sta : Fin n) : (rtwFreeStainfo p sta).Agree := by
  unfold rtwFreeStainfo
  split_ifs with hfree
  · refine ⟨?_, ?_, ?_, h.started⟩
    · intro s
      by_cases hs : s = sta
      · simp [hs]
      · simpa [hs] using h.range s
    · intro s hs
      by_cases hsta : s = sta
      · simp [hsta] at hs
      · simp only [Function.update_of_ne hsta] at hs ⊢
        have hentry := h.entry s hs
        rw [Function.update_of_ne, hentry]
        intro he
        rw [he, hfree.2] at hentry
        exact hsta (Option.some.inj hentry).symm
    · intro i s hi
      by_cases hia : i = p.aid sta - 1
      · simp [hia] at hi
      · simp only [Function.update_of_ne hia] at hi ⊢
        have hs := h.holder i s hi
        rw [Function.update_of_ne, hs]
        rintro rfl
        omega
  · exact h

theorem holders_free_le (p : StaPriv n) (sta : Fin n) :
    (rtwFreeStainfo p sta).holders ≤ p.holders := by
  unfold rtwFreeStainfo
  split_ifs
  · apply Finset.card_le_card
    intro s hs
    by_cases hsta : s = sta
    · simp [hsta] at hs
    · simpa [hsta] using hs
  · exact le_rfl

theorem StaPriv.Agree.setStatus (h : p.Agree) (rr : Bool) (startedAid : Option ℕ) :
    (procSetAidStatus p rr startedAid).Agree ∧
      (procSetAidStatus p rr startedAid).holders = p.holders := by
  cases startedAid with
  | none => exact ⟨⟨h.range, h.entry, h.holder, h.started⟩, rfl⟩
  | some s =>
    refine ⟨⟨h.range, h.entry, h.holder, ?_⟩, rfl⟩
    simp only [procSetAidStatus]
    split_ifs <;> omega

/-- Every operation keeps the table and the stations in agreement. -/
theorem StaPriv.Agree.step (h : p.Agree) (op : Op n) : (step p op).Agree := by
  cases op with
  | alloc sta =>
    simp only [AidAlloc.step]
    split_ifs with hpos
    · exact h
    · have hsta : p.aid sta = 0 := by omega
      rcases rtwAidAlloc_cases p hsta with ⟨-, hsame, -⟩ | ⟨j, hj, hfree, hres⟩
      · rw [hsame]
        exact h
      · rw [hres]
        exact h.given hsta (tried_ne_zero j) (tried_le (by omega)) hfree
  | free sta => exact h.free sta
  | setStatus rr startedAid => exact (h.setStatus rr startedAid).1

theorem step_maxNumSta (p : StaPriv n) (op : Op n) : (step p op).maxNumSta = p.maxNumSta := by
  cases op with
  | alloc sta =>
    simp only [step, rtwAidAlloc]
    split_ifs <;> rfl
  | free sta =>
    simp only [step, rtwFreeStainfo]
    split_ifs <;> rfl
  | setStatus rr startedAid => cases startedAid <;> rfl

/-- A step from a state within the limit stays within it exactly if it meets the condition. -/
theorem StaPriv.Agree.limit_step_iff (h : p.Agree) (hl : p.holders ≤ p.maxNumSta) (op : Op n) :
    (AidAlloc.step p op).holders ≤ p.maxNumSta ↔ WithinLimit p op := by
  cases op with
  | alloc sta =>
    simp only [AidAlloc.step, WithinLimit]
    split_ifs with hpos
    · exact ⟨fun _ hsta => by omega, fun _ => hl⟩
    · have hsta : p.aid sta = 0 := by omega
      rcases rtwAidAlloc_cases p hsta with ⟨-, hsame, hfull⟩ | ⟨j, hj, hfree, hres⟩
      · rw [hsame]
        exact ⟨fun _ _ _ => hfull, fun _ => hl⟩
      · rw [hres, holders_given hsta (tried_ne_zero j)]
        constructor
        · intro hlt _ hmax
          omega
        · intro hcond
          by_contra hgt
          exact hcond hsta (by omega) j hj hfree
  | free sta =>
    exact ⟨fun _ => trivial, fun _ => (holders_free_le p sta).trans hl⟩
  | setStatus rr startedAid =>
    refine ⟨fun _ => trivial, fun _ => ?_⟩
    exact (h.setStatus rr startedAid).2.trans_le hl

end Step

section Run

theorem agree_init (n maxAid maxNumSta : ℕ) : (init n maxAid maxNumSta).Agree :=
  ⟨fun _ => Nat.zero_le _, fun _ hs => absurd rfl hs, fun _ _ hs => absurd hs (by simp [init]),
    le_rfl⟩

/-- In every state of a run the ids are as they should be exactly if no step asks for an id when
the limit is reached and the search would come upon a free one; and a failed allocation changes
nothing. -/
theorem aids_exact_iff (n maxAid maxNumSta : ℕ) (ops : List (Op n)) :
    ((∀ k, (run step (init n maxAid maxNumSta) (ops.take k)).Exact) ↔
      Along step WithinLimit (init n maxAid maxNumSta) ops) ∧
    ∀ (p : StaPriv n) sta, p.aid sta = 0 → (rtwAidAlloc p sta).1 = 0 →
      (rtwAidAlloc p sta).2 = p := by
  constructor
  · have hstep : ∀ p : StaPriv n, ∀ op ∈ ops, (p.Agree ∧ p.holders ≤ p.maxNumSta) →
        ((step p op).Agree ∧ (step p op).holders ≤ (step p op).maxNumSta ↔ WithinLimit p op) := by
      intro p op _ hp
      rw [step_maxNumSta, hp.1.limit_step_iff hp.2, and_iff_right (hp.1.step op)]
    have hinit : (init n maxAid maxNumSta).Agree ∧
        (init n maxAid maxNumSta).holders ≤ (init n maxAid maxNumSta).maxNumSta :=
      ⟨agree_init n maxAid maxNumSta, by simp [StaPriv.holders, init]⟩
    have hagree : ∀ k, (run step (init n maxAid maxNumSta) (ops.take k)).Agree := fun k =>
      run_invariant (P := fun _ _ => True) (fun p op hp _ => hp.step op)
        (agree_init n maxAid maxNumSta) (along_of_forall fun _ _ _ => trivial)
    rw [← forall_take_iff_along hstep hinit]
    refine forall_congr' fun k => ?_
    rw [(hagree k).exact_iff, and_iff_right (hagree k)]
  · intro p sta hsta hzero
    rcases rtwAidAlloc_cases p hsta with ⟨-, hsame, -⟩ | ⟨j, -, -, hres⟩
    · exact hsame
    · rw [hres] at hzero
      exact absurd hzero (tried_ne_zero j)

/-- In round-robin mode a second station gets an id although the limit is one. -/
theorem round_robin_exceeds_limit :
    ¬∀ (n maxAid maxNumSta : ℕ) (ops : List (Op n)) (k : ℕ),
      (run step (init n maxAid maxNumSta) (ops.take k)).Exact := by
  intro h
  have hlimit := (h 2 2 1 [.setStatus true none, .alloc 0, .alloc 1] 3).limit
  revert hlimit
  decide

/-- The state of a search that always starts at the first id. -/
structure FromFirst (p : StaPriv n) : Prop extends p.Agree where
  rr : p.rrAid = false
  first : p.startedAid = 1
  low : ∀ s, p.aid s ≤ p.maxNumSta

theorem FromFirst.tried {p : StaPriv n} (h : FromFirst p) {i : ℕ} (hi : i < p.maxAid) :
    p.tried i = i + 1 := by
  rw [StaPriv.tried, h.first, Nat.add_sub_cancel, Nat.mod_eq_of_lt hi]

/-- As many stations as the limit allows hold all the ids up to it. -/
theorem FromFirst.searchFull {p : StaPriv n} (h : FromFirst p) (hmax : p.holders = p.maxNumSta) :
    p.SearchFull := by
  have himage : (Finset.univ.filter fun s => p.aid s ≠ 0).image (fun s => p.aid s - 1) =
      Finset.range p.maxNumSta := by
    apply Finset.eq_of_subset_of_card_le
    · intro i hi
      obtain ⟨s, hs, rfl⟩ := Finset.mem_image.mp hi
      have hne := (Finset.mem_filter.mp hs).2
      have hlow := h.low s
      rw [Finset.mem_range]
      omega
    · rw [Finset.card_range, Finset.card_image_of_injOn]
      · exact hmax.ge
      · intro s hs t ht hst
        have hs' := h.entry s (Finset.mem_filter.mp hs).2
        have ht' := h.entry t (Finset.mem_filter.mp ht).2
        dsimp only at hst
        rw [hst, ht'] at hs'
        exact (Option.some.inj hs').symm
  intro i hi
  have hmem : i ∈ Finset.range p.maxNumSta := Finset.mem_range.mpr (by omega)
  rw [← himage] at hmem
  obtain ⟨s, hs, rfl⟩ := Finset.mem_image.mp hmem
  rw [h.tried (by omega), Nat.add_sub_cancel, h.entry s (Finset.mem_filter.mp hs).2]
  exact Option.some_ne_none s

theorem FromFirst.given {p : StaPriv n} (h : FromFirst p) {sta : Fin n} (hsta : p.aid sta = 0)
    {j : ℕ} (hj : j < min p.maxAid p.maxNumSta) (hfree : p.staAid (p.tried j - 1) = none) :
    FromFirst (given p sta (p.tried j)) := by
  refine ⟨h.toAgree.given hsta (tried_ne_zero j) (tried_le (by omega)) hfree, h.rr, ?_, ?_⟩
  · simp [AidAlloc.given, h.rr, h.first]
  · intro s
    by_cases hs : s = sta
    · subst hs
      simp only [AidAlloc.given, Function.update_self, h.tried (show j < p.maxAid by omega)]
      omega
    · simpa [AidAlloc.given, hs] using h.low s

theorem FromFirst.free {p : StaPriv n} (h : FromFirst p) (sta : Fin n) :
    FromFirst (rtwFreeStainfo p sta) := by
  have hagree := h.toAgree.free sta
  unfold rtwFreeStainfo at hagree ⊢
  split_ifs at hagree ⊢
  · refine ⟨hagree, h.rr, h.first, fun s => ?_⟩
    by_cases hs : s = sta
    · simp [hs]
    · simpa [hs] using h.low s
  · exact h

theorem FromFirst.step {p : StaPriv n} (h : FromFirst p) {op : Op n}
    (hop : ∀ rr started, op ≠ .setStatus rr started) : FromFirst (step p op) := by
  cases op with
  | alloc sta =>
    simp only [AidAlloc.step]
    split_ifs with hpos
    · exact h
    · have hsta : p.aid sta = 0 := by omega
      rcases rtwAidAlloc_cases p hsta with ⟨-, hsame, -⟩ | ⟨j, hj, hfree, hres⟩
      · rw [hsame]
        exact h
      · rw [hres]
        exact h.given hsta hj hfree
  | free sta => exact h.free sta
  | setStatus rr started => exact absurd rfl (hop rr started)

/-- Without round-robin mode and with the search starting at the first id, the condition is always
met. -/
theorem withinLimit_from_first (n maxAid maxNumSta : ℕ) (ops : List (Op n))
    (hops : ∀ op ∈ ops, ∀ rr started, op ≠ .setStatus rr started) :
    Along step WithinLimit (init n maxAid maxNumSta) ops := by
  have hinit : FromFirst (init n maxAid maxNumSta) :=
    ⟨agree_init n maxAid maxNumSta, rfl, rfl, fun _ => Nat.zero_le _⟩
  refine along_mono (P := fun _ op => ∀ rr started, op ≠ .setStatus rr started)
    (fun p op hp hop => hp.step hop) (fun p op hp _ => ?_) hinit
    (along_of_forall fun _ op hop => hops op hop)
  cases op with
  | alloc sta => exact fun _ hmax => hp.searchFull hmax
  | free sta => trivial
  | setStatus rr started => trivial

end Run

end Rtl8821cu.AidAlloc
