import Rtl8821cu.EfuseReads

/-! The two parsers of the efuse against each other: the log map and its mask. -/
namespace Rtl8821cu.Efuse
open Rtl8821cu.Walk
open EfuseReads (enabled)

/-- The logical bytes of the word `i` of a block. -/
def InWord (blkIdx : BitVec 8) (i k : ℕ) : Prop :=
  k = blkIdx.toNat * 8 + i * 2 ∨ k = blkIdx.toNat * 8 + i * 2 + 1

/-- One of the enabled words in `l` has the logical byte `k`. -/
def WordsCover (blkIdx wordEn : BitVec 8) (l : List ℕ) (k : ℕ) : Prop :=
  ∃ i ∈ l, enabled wordEn i ∧ InWord blkIdx i k

section Log

variable (phy : ByteMap)

/-- The header of a record at `i`, where the log does not end. -/
def recordAt (i : ℕ) : Option (ℕ × BitVec 8 × BitVec 8) :=
  if phy i = 0xff then none else parseHdr phy i

/-- The record behind the one at `i`: two bytes for each enabled word lie between its header and the
next one. -/
def recordBehind (i : ℕ) : Option ℕ :=
  (recordAt phy i).map fun r =>
    r.1 + 1 + 2 * ([0, 1, 2, 3].filter fun w => enabled r.2.2 w).length

/-- `i` is where a record of the log is, or where the log ends. -/
def LogPlace (i : ℕ) : Prop := Reaches (recordBehind phy) 0 i

/-- An enabled word of the record at `i` has the logical byte `k`. -/
def RecordCovers (i k : ℕ) : Prop :=
  ∃ hdrEnd blkIdx wordEn, recordAt phy i = some (hdrEnd, blkIdx, wordEn) ∧
    WordsCover blkIdx wordEn [0, 1, 2, 3] k

/-- An enabled word of some record of the log has the logical byte `k`. -/
def Covered (k : ℕ) : Prop := ∃ i, LogPlace phy i ∧ RecordCovers phy i k

/-- The two parsers agree, and the mask says which bytes of the map come from the log. -/
structure ParsersAgree (cfg : HwCfgInfo) : Prop where
  ends : (eepromParser cfg phy).map Prod.fst = (eepromMaskParser cfg phy).map Prod.fst
  mask : ∀ e logMask, eepromMaskParser cfg phy = some (e, logMask) → ∀ k,
    (Covered phy k → logMask k = 0x00) ∧ (¬Covered phy k → logMask k = 0xFF)
  masked : ∀ e e' logMap logMask, eepromParser cfg phy = some (e, logMap) →
    eepromMaskParser cfg phy = some (e', logMask) → ∀ k, logMap k ≠ 0xFF → logMask k = 0x00

end Log

section Words

variable {cfg : HwCfgInfo} {src src' m m' n : ByteMap} {b e : BitVec 8} {i j idx k : ℕ} {l : List ℕ}

/-- A word goes to the same place whatever its bytes are. -/
theorem parseWord_congr_src (h : parseWord cfg src b e (idx, m) i = some (j, m')) (n : ByteMap) :
    ∃ n', parseWord cfg src' b e (idx, n) i = some (j, n') := by
  rw [parseWord] at h ⊢
  dsimp only at h ⊢
  by_cases hen : ~~~(e >>> i) &&& 1 = 1
  · rw [if_pos hen] at h ⊢
    split_ifs at h ⊢
    cases h
    exact ⟨_, rfl⟩
  · rw [if_neg hen] at h ⊢
    cases h
    exact ⟨n, rfl⟩

/-- What a word does to the log. -/
theorem parseWord_spec (h : parseWord cfg src b e (idx, m) i = some (j, m')) :
    (enabled e i ∧ j = idx + 2 ∧ (∀ k, InWord b i k → ∃ p, m' k = src p) ∧
        ∀ k, ¬InWord b i k → m' k = m k) ∨
      (¬enabled e i ∧ j = idx ∧ m' = m) := by
  rw [parseWord] at h
  dsimp only at h
  by_cases hen : ~~~(e >>> i) &&& 1 = 1
  · rw [if_pos hen] at h
    split_ifs at h
    cases h
    refine Or.inl ⟨hen, rfl, fun k hk => ?_, fun k hk => ?_⟩
    · rcases hk with rfl | rfl
      · refine ⟨idx, ?_⟩
        rw [Function.update_of_ne (by omega), Function.update_self]
      · exact ⟨idx + 1, Function.update_self _ _ _⟩
    · rw [InWord, not_or] at hk
      rw [Function.update_of_ne hk.2, Function.update_of_ne hk.1]
  · rw [if_neg hen] at h
    cases h
    exact Or.inr ⟨hen, rfl, rfl⟩

theorem foldlM_parseWord_congr_src
    (h : l.foldlM (parseWord cfg src b e) (idx, m) = some (j, m')) (n : ByteMap) :
    ∃ n', l.foldlM (parseWord cfg src' b e) (idx, n) = some (j, n') := by
  induction l generalizing idx m n with
  | nil =>
    cases h
    exact ⟨n, rfl⟩
  | cons i l ih =>
    rw [List.foldlM_cons] at h ⊢
    obtain ⟨⟨mid, m₁⟩, hmid, hrest⟩ := Option.bind_eq_some_iff.mp h
    obtain ⟨n₁, hn₁⟩ := parseWord_congr_src hmid n
    obtain ⟨n', hn'⟩ := ih hrest n₁
    exact ⟨n', Option.bind_eq_some_iff.mpr ⟨(mid, n₁), hn₁, hn'⟩⟩

/-- What the words of a record do to the log. -/
theorem foldlM_parseWord_spec (h : l.foldlM (parseWord cfg src b e) (idx, m) = some (j, m')) :
    j = idx + 2 * (l.filter fun w => enabled e w).length ∧
      (∀ k, WordsCover b e l k → ∃ p, m' k = src p) ∧
      ∀ k, ¬WordsCover b e l k → m' k = m k := by
  induction l generalizing idx m with
  | nil =>
    cases h
    exact ⟨rfl, fun k ⟨_, hi, _⟩ => absurd hi List.not_mem_nil, fun _ _ => rfl⟩
  | cons i l ih =>
    rw [List.foldlM_cons] at h
    obtain ⟨⟨mid, m₁⟩, hmid, hrest⟩ := Option.bind_eq_some_iff.mp h
    obtain ⟨hj, hcover, hkeep⟩ := ih hrest
    have hsplit : ∀ k, WordsCover b e (i :: l) k ↔
        (enabled e i ∧ InWord b i k) ∨ WordsCover b e l k := by
      intro k
      simp only [WordsCover, List.exists_mem_cons_iff]
    rcases parseWord_spec hmid with ⟨hen, rfl, hword, hother⟩ | ⟨hen, rfl, rfl⟩
    · refine ⟨?_, fun k hk => ?_, fun k hk => ?_⟩
      · rw [List.filter_cons_of_pos (by simpa using hen), List.length_cons]
        omega
      · by_cases hl : WordsCover b e l k
        · exact hcover k hl
        · obtain ⟨-, hk⟩ := ((hsplit k).mp hk).resolve_right hl
          rw [hkeep k hl]
          exact hword k hk
      · rw [hsplit, not_or] at hk
        rw [hkeep k hk.2]
        exact hother k fun hin => hk.1 ⟨hen, hin⟩
    · refine ⟨?_, fun k hk => ?_, fun k hk => ?_⟩
      · rw [List.filter_cons_of_neg (by simpa using hen)]
        exact hj
      · exact hcover k (((hsplit k).mp hk).resolve_left fun hin => hen hin.1)
      · rw [hsplit, not_or] at hk
        exact hkeep k hk.2

end Words

section Steps

variable {cfg : HwCfgInfo} {phy m m' n : ByteMap} {i j e k : ℕ}

/-- The mask parser stops where the other one does. -/
theorem maskStep_stop (h : parseStep cfg phy i m = .stop e) (n : ByteMap) :
    maskStep cfg phy i n = .stop e ∧ recordAt phy i = none := by
  rw [parseStep] at h
  rw [maskStep, recordAt]
  cases hhdr : parseHdr phy i with
  | none =>
    rw [hhdr] at h
    cases h
    exact ⟨rfl, ite_self _⟩
  | some r =>
    obtain ⟨hdrEnd, b, en⟩ := r
    rw [hhdr] at h
    dsimp only at h ⊢
    by_cases hblank : phy i = 0xff
    · rw [if_pos hblank] at h ⊢
      cases h
      exact ⟨rfl, if_pos hblank⟩
    · rw [if_neg hblank] at h
      split_ifs at h
      split at h <;> cases h

theorem maskStep_fail (h : parseStep cfg phy i m = .fail) (n : ByteMap) :
    maskStep cfg phy i n = .fail := by
  rw [parseStep] at h
  rw [maskStep]
  cases hhdr : parseHdr phy i with
  | none =>
    rw [hhdr] at h
    cases h
  | some r =>
    obtain ⟨hdrEnd, b, en⟩ := r
    rw [hhdr] at h
    dsimp only at h ⊢
    by_cases hblank : phy i = 0xff
    · rw [if_pos hblank] at h
      cases h
    · rw [if_neg hblank] at h ⊢
      by_cases hstop : sub32 cfg.usable 1 ≤ hdrEnd + 1
      · rw [if_pos hstop]
      · rw [if_neg hstop] at h ⊢
        cases hmask : [0, 1, 2, 3].foldlM (parseWord cfg (fun _ => 0x00) b en) (hdrEnd + 1, n) with
        | none => rfl
        | some q =>
          obtain ⟨m', hm'⟩ := foldlM_parseWord_congr_src hmask m
          rw [hm'] at h
          cases h

/-- Both parsers take the same record, and what it does to the log map and to the mask. -/
theorem maskStep_next (h : parseStep cfg phy i m = .next j m') (n : ByteMap) :
    ∃ n', maskStep cfg phy i n = .next j n' ∧ recordBehind phy i = some j ∧ i < j ∧
      (∀ k, RecordCovers phy i k → n' k = 0x00) ∧
      ∀ k, ¬RecordCovers phy i k → m' k = m k ∧ n' k = n k := by
  have hlt := (parseStep_next_lt cfg phy h).1
  rw [parseStep] at h
  rw [maskStep]
  cases hhdr : parseHdr phy i with
  | none =>
    rw [hhdr] at h
    cases h
  | some r =>
    obtain ⟨hdrEnd, b, en⟩ := r
    rw [hhdr] at h
    dsimp only at h ⊢
    by_cases hblank : phy i = 0xff
    · rw [if_pos hblank] at h
      cases h
    · have hrecord : recordAt phy i = some (hdrEnd, b, en) := by
        rw [recordAt, if_neg hblank, hhdr]
      have hcovers : ∀ k, RecordCovers phy i k ↔ WordsCover b en [0, 1, 2, 3] k := by
        intro k
        constructor
        · rintro ⟨hdrEnd', b', en', hrecord', hk⟩
          rw [hrecord] at hrecord'
          cases hrecord'
          exact hk
        · exact fun hk => ⟨hdrEnd, b, en, hrecord, hk⟩
      rw [if_neg hblank] at h ⊢
      by_cases hstop : sub32 cfg.usable 1 ≤ hdrEnd + 1
      · rw [if_pos hstop] at h
        cases h
      · rw [if_neg hstop] at h ⊢
        cases hmap : [0, 1, 2, 3].foldlM (parseWord cfg phy b en) (hdrEnd + 1, m) with
        | none =>
          rw [hmap] at h
          cases h
        | some q =>
          rw [hmap] at h
          cases h
          obtain ⟨n', hmask⟩ := foldlM_parseWord_congr_src hmap n
          obtain ⟨hj, -, hkeep⟩ := foldlM_parseWord_spec hmap
          obtain ⟨-, hcover, hkeep'⟩ := foldlM_parseWord_spec hmask
          refine ⟨n', by rw [hmask], ?_, hlt, fun k hk => ?_, fun k hk => ?_⟩
          · rw [recordBehind, hrecord, hj]
            rfl
          · obtain ⟨p, hp⟩ := hcover k ((hcovers k).mp hk)
            exact hp
          · rw [hcovers] at hk
            exact ⟨hkeep k hk, hkeep' k hk⟩

theorem eepromMaskParserLoop_next (h : maskStep cfg phy i n = .next j m') :
    eepromMaskParserLoop cfg phy i n = eepromMaskParserLoop cfg phy j m' := by
  rw [eepromMaskParserLoop]
  split
  · rename_i he
    rw [h] at he
    cases he
  · rename_i he
    rw [h] at he
    cases he
  · rename_i he
    rw [h] at he
    cases he
    rfl

theorem eepromMaskParserLoop_stop (h : maskStep cfg phy i n = .stop e) :
    eepromMaskParserLoop cfg phy i n = some (e, n) := by
  rw [eepromMaskParserLoop]
  split
  · rename_i he
    rw [h] at he
    cases he
    rfl
  · rename_i he
    rw [h] at he
    cases he
  · rename_i he
    rw [h] at he
    cases he

theorem eepromMaskParserLoop_fail (h : maskStep cfg phy i n = .fail) :
    eepromMaskParserLoop cfg phy i n = none := by
  rw [eepromMaskParserLoop]
  split
  · rename_i he
    rw [h] at he
    cases he
  · rfl
  · rename_i he
    rw [h] at he
    cases he

end Steps

section Runs

variable {cfg : HwCfgInfo} {phy m n : ByteMap} {i j k : ℕ}

/-- One of the records in front of `i` has the logical byte `k`. -/
def CoveredBefore (phy : ByteMap) (i k : ℕ) : Prop :=
  ∃ r, LogPlace phy r ∧ r < i ∧ RecordCovers phy r k

/-- The log map and the mask behind the records in front of `i`. -/
structure MaskedUpTo (phy : ByteMap) (i : ℕ) (logMap logMask : ByteMap) : Prop where
  place : LogPlace phy i
  covered : ∀ k, CoveredBefore phy i k → logMask k = 0x00
  blank : ∀ k, ¬CoveredBefore phy i k → logMap k = 0xFF ∧ logMask k = 0xFF

theorem recordBehind_lt (h : recordBehind phy i = some j) : i < j := by
  obtain ⟨r, hr, rfl⟩ := Option.map_eq_some_iff.mp h
  rw [recordAt] at hr
  split_ifs at hr
  have := parseHdr_le phy hr
  omega

/-- The records in front of the next place are those in front of this one, and the one here. -/
theorem coveredBefore_next (hi : LogPlace phy i) (h : recordBehind phy i = some j) :
    CoveredBefore phy j k ↔ RecordCovers phy i k ∨ CoveredBefore phy i k := by
  constructor
  · rintro ⟨r, hr, hlt, hk⟩
    rcases hr.total hi with hri | hir
    · rcases Nat.lt_or_eq_of_le (hri.le_of_lt recordBehind_lt) with hlt' | rfl
      · exact Or.inr ⟨r, hr, hlt', hk⟩
      · exact Or.inl hk
    · rcases (reaches_iff_of_some h).mp hir with rfl | hjr
      · exact Or.inl hk
      · have := hjr.le_of_lt recordBehind_lt
        omega
  · have hlt := recordBehind_lt h
    rintro (hk | ⟨r, hr, hlt', hk⟩)
    · exact ⟨i, hi, hlt, hk⟩
    · exact ⟨r, hr, by omega, hk⟩

/-- Where the log ends, every record is in front. -/
theorem coveredBefore_end (hi : LogPlace phy i) (h : recordAt phy i = none) :
    CoveredBefore phy i k ↔ Covered phy k := by
  constructor
  · rintro ⟨r, hr, -, hk⟩
    exact ⟨r, hr, hk⟩
  · rintro ⟨r, hr, hk⟩
    have hne : r ≠ i := by
      rintro rfl
      obtain ⟨_, _, _, hrecord, -⟩ := hk
      rw [h] at hrecord
      cases hrecord
    rcases hr.total hi with hri | hir
    · exact ⟨r, hr, lt_of_le_of_ne (hri.le_of_lt recordBehind_lt) hne, hk⟩
    · have hnone : recordBehind phy i = none := by
        rw [recordBehind, h]
        rfl
      exact absurd ((reaches_iff_of_none hnone).mp hir) hne

theorem MaskedUpTo.next {m' n' : ByteMap} (h : MaskedUpTo phy i m n)
    (hnext : recordBehind phy i = some j) (hcover : ∀ k, RecordCovers phy i k → n' k = 0x00)
    (hkeep : ∀ k, ¬RecordCovers phy i k → m' k = m k ∧ n' k = n k) : MaskedUpTo phy j m' n' := by
  refine ⟨h.place.tail hnext, fun k hk => ?_, fun k hk => ?_⟩
  · by_cases hrecord : RecordCovers phy i k
    · exact hcover k hrecord
    · rw [(hkeep k hrecord).2]
      exact h.covered k (((coveredBefore_next h.place hnext).mp hk).resolve_left hrecord)
  · rw [coveredBefore_next h.place hnext, not_or] at hk
    obtain ⟨hm, hn⟩ := hkeep k hk.1
    rw [hm, hn]
    exact h.blank k hk.2

/-- What the two loops return from one place of the log. -/
theorem parserLoops_agree (cfg : HwCfgInfo) (h : MaskedUpTo phy i m n) :
    (eepromParserLoop cfg phy i m = none ∧ eepromMaskParserLoop cfg phy i n = none) ∨
      ∃ e m' n', eepromParserLoop cfg phy i m = some (e, m') ∧
        eepromMaskParserLoop cfg phy i n = some (e, n') ∧
        (∀ k, Covered phy k → n' k = 0x00) ∧ ∀ k, ¬Covered phy k → m' k = 0xFF ∧ n' k = 0xFF := by
  induction i, m using eepromParserLoop.induct cfg phy generalizing n with
  | case1 i m e hstep =>
    obtain ⟨hmask, hend⟩ := maskStep_stop hstep n
    refine Or.inr ⟨e, m, n, eepromParserLoop_stop hstep, eepromMaskParserLoop_stop hmask,
      fun k hk => ?_, fun k hk => ?_⟩
    · exact h.covered k ((coveredBefore_end h.place hend).mpr hk)
    · exact h.blank k fun hbefore => hk ((coveredBefore_end h.place hend).mp hbefore)
  | case2 i m hstep =>
    exact Or.inl ⟨eepromParserLoop_fail hstep, eepromMaskParserLoop_fail (maskStep_fail hstep n)⟩
  | case3 i m j m' hstep ih =>
    obtain ⟨n', hmask, hnext, -, hcover, hkeep⟩ := maskStep_next hstep n
    rw [eepromParserLoop_next hstep, eepromMaskParserLoop_next hmask]
    exact ih (h.next hnext hcover hkeep)

/-- The two parsers end alike on every physical map, and the mask marks the bytes of the log. -/
theorem parsers_agree (cfg : HwCfgInfo) (phy : ByteMap) : ParsersAgree phy cfg := by
  have hstart : MaskedUpTo phy 0 (fun _ => 0xFF) fun _ => 0xFF :=
    ⟨.refl 0, fun k ⟨_, _, hlt, _⟩ => absurd hlt (Nat.not_lt_zero _), fun _ _ => ⟨rfl, rfl⟩⟩
  rcases parserLoops_agree cfg hstart with ⟨hmap, hmask⟩ | ⟨e, m, n, hmap, hmask, hz, hf⟩
  · refine ⟨?_, fun e n h => ?_, fun e e' m n h => ?_⟩
    · rw [eepromParser, eepromMaskParser, hmap, hmask]
    · rw [eepromMaskParser, hmask] at h
      cases h
    · rw [eepromParser, hmap] at h
      cases h
  · refine ⟨?_, fun e' n' h k => ?_, fun e₁ e₂ m' n' h h' k hk => ?_⟩
    · rw [eepromParser, eepromMaskParser, hmap, hmask]
      rfl
    · rw [eepromMaskParser, hmask] at h
      cases h
      exact ⟨hz k, fun hk => (hf k hk).2⟩
    · rw [eepromParser, hmap] at h
      rw [eepromMaskParser, hmask] at h'
      cases h
      cases h'
      by_cases hcov : Covered phy k
      · exact hz k hcov
      · exact absurd (hf k hcov).1 hk

end Runs

end Rtl8821cu.Efuse
