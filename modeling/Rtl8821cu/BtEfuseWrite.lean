import Rtl8821cu.BtEfuseLog

/-! Writing a stretch of the Bluetooth map: every changed section becomes a record at the end of
the log, and the map reads back with the stretch replaced but for the words a mask file masks. -/
namespace Rtl8821cu.BtEfuse
open Efuse Store Run

/-- No allocation and no read access of the call fails. -/
structure BtEnv.Clean (env : BtEnv) : Prop where
  mallocMap : env.mallocMap = true
  mallocTbl : env.mallocTbl = true
  read : ∀ n, env.read n = .ok

section Finder
variable {env : BtEnv} {s : BtState} {a : ℕ} {d : BitVec 8}

theorem btRead_clean (henv : env.Clean) (ha : a < 128) (d : BitVec 8) (s : BtState) :
    btRead env a d s = (true, s.phy a, { s with tick := s.tick + 1 }) := by
  unfold btRead bankContentLen
  rw [if_neg (by omega), henv.read]

theorem sizeLoop_blank (henv : env.Clean) (ha : a < 112) (hblank : s.phy a = 0xFF) :
    sizeLoop env a d s = (a, 0xFF, { s with tick := s.tick + 1 }) := by
  have hav : availableEfuseAddr a = true := decide_eq_true ha
  rw [sizeLoop, dif_pos hav, btRead_clean henv (by omega), hblank]
  rfl

/-- The finder passes a record as the reader does. -/
theorem sizeLoop_record {efuse : ByteMap} {off : ℕ} {w : BitVec 8} (henv : env.Clean)
    (ha : a < 112) (hoff : off < 128) (hw : w.toNat < 15)
    (h : HoldsAt s.phy a (recordOf efuse off w)) :
    ∃ d' k, sizeLoop env a d s = sizeLoop env (a + recordCnt off w) d' { s with tick := k } := by
  have hav : availableEfuseAddr a = true := decide_eq_true ha
  have hof : w = BitVec.ofNat 8 w.toNat := by simp
  rw [sizeLoop, dif_pos hav, btRead_clean henv (by omega)]
  unfold recordOf hdrBytes at h
  unfold recordCnt
  by_cases hext : 16 ≤ off
  · obtain ⟨hc1, hc2⟩ := extHdr_decode off hoff
    obtain ⟨-, hc4, -⟩ := extHdr2_decode off hoff _ hw
    have hc6 := nibble_ne_all _ hw
    rw [← hof] at hc4 hc6
    simp only [hext, if_true, List.cons_append, List.nil_append, holdsAt_cons] at h ⊢
    obtain ⟨p0, p1, -⟩ := h
    rw [p0, if_neg hc2, if_pos hc1, btRead_clean henv (by omega)]
    dsimp only
    rw [p1, hc4, if_neg hc6]
    rw [show a + 2 + calculateWordCnts w * 2 = a + (calculateWordCnts w * 2 + 2) by omega]
    exact ⟨_, _, rfl⟩
  · obtain ⟨hc1, hc2, -, hc4⟩ := shortHdr_decode off (by omega) _ hw
    rw [← hof] at hc1 hc2 hc4
    simp only [hext, if_false, List.cons_append, List.nil_append, holdsAt_cons] at h ⊢
    obtain ⟨p0, -⟩ := h
    rw [p0, if_neg hc2, if_neg hc1, hc4]
    rw [show a + 1 + calculateWordCnts w * 2 = a + (calculateWordCnts w * 2 + 1) by omega]
    exact ⟨_, _, rfl⟩

/-- From `u` the end `e` of the log is reached over one record at most. -/
def Behind (phy : ByteMap) (u e : ℕ) : Prop :=
  u = e ∨ ∃ efuse off w, off < 128 ∧ BitVec.toNat w < 15 ∧ HoldsAt phy u (recordOf efuse off w) ∧
    u + recordCnt off w = e

/-- The finder returns the end of the log and stores it. -/
theorem efuseGetCurrentSizeBt_clean {tbl : ByteMap} {e : ℕ} (henv : env.Clean)
    (hlog : BtLog s.phy e tbl) (hu : Behind s.phy s.used e) :
    ∃ k, efuseGetCurrentSizeBt env s = (e, { s with used := e, tick := k }) := by
  have he := hlog.end_lt
  have hblank := hlog.blank e le_rfl (by omega)
  have hule : s.used ≤ e := by
    rcases hu with h | ⟨efuse, off, w, -, -, -, h⟩ <;> omega
  have hloop : ∃ d' k, sizeLoop env s.used env.uninit s = (e, d', { s with tick := k }) := by
    rcases hu with h | ⟨efuse, off, w, hoff, hw, hh, h⟩
    · have hu' : s.phy s.used = 0xFF := by rwa [h]
      rw [← h]
      exact ⟨_, _, sizeLoop_blank henv (by omega) hu'⟩
    · obtain ⟨d', k, heq⟩ := sizeLoop_record (d := env.uninit) henv (by omega) hoff hw hh
      rw [h] at heq
      exact ⟨_, _, heq.trans (sizeLoop_blank henv he hblank)⟩
  obtain ⟨d', k, hloop⟩ := hloop
  have hdiv : s.used / bankContentLen = 0 := Nat.div_eq_of_lt (by unfold bankContentLen; omega)
  have hmod : s.used % bankContentLen = s.used := Nat.mod_eq_of_lt (by unfold bankContentLen; omega)
  refine ⟨k, ?_⟩
  unfold efuseGetCurrentSizeBt
  rw [hdiv, hmod]
  simp only [Nat.add_zero, Nat.reduceSub, sizeBanks, hloop]
  rw [if_pos (show e < bankContentLen - protectBytesBank from he)]
  simp

end Finder

section Packet
variable {hw : EfuseHw} {env : BtEnv} {s t u : BtState} {e : ℕ} {bytes bytes' : List (BitVec 8)}

/-- The bytes went to `e` and the addresses behind it. -/
structure Burned (s t : BtState) (e : ℕ) (bytes : List (BitVec 8)) : Prop where
  phy : t.phy = store s.phy e bytes
  used : t.used = s.used
  written : ∀ a ∈ t.written, a ∈ s.written ∨ a < e + bytes.length

theorem Burned.append (h : Burned s t e bytes) (h' : Burned t u (e + bytes.length) bytes') :
    Burned s u e (bytes ++ bytes') where
  phy := by rw [h'.phy, h.phy, store_append]
  used := h'.used.trans h.used
  written a ha := by
    rw [List.length_append]
    rcases h'.written a ha with hmem | hlt
    · rcases h.written a hmem with hmem | hlt
      · exact Or.inl hmem
      · exact Or.inr (by omega)
    · exact Or.inr (by omega)

theorem Burned.tick (h : Burned s t e bytes) (k : ℕ) : Burned s { t with tick := k } e bytes :=
  ⟨h.phy, h.used, h.written⟩

theorem burned_btWrite {v : BitVec 8} (he : e < 128) (hblank : s.phy e = 0xFF) :
    Burned s (btWrite hw e v s) e [v] := by
  unfold btWrite bankContentLen
  rw [if_neg (by omega)]
  refine ⟨?_, rfl, ?_⟩
  · dsimp only
    rw [hblank, hw.burn_blank]
    rfl
  · intro a ha
    rcases List.mem_cons.mp ha with rfl | ha
    · exact Or.inr (by simp)
    · exact Or.inl ha

/-- On a blank byte the header loop is done after one turn. -/
theorem writeHeaderByte_clean (hw : EfuseHw) {v : BitVec 8} (n : ℕ) (tmp : BitVec 8)
    (henv : env.Clean) (he : e < 128) (hblank : s.phy e = 0xFF) (hv : v ≠ 0xFF) :
    ∃ t, writeHeaderByte hw env e v n tmp s = (some (n, v), t) ∧ Burned s t e [v] := by
  have hburn : Burned s (btWrite hw e v s) e [v] := burned_btWrite he hblank
  have hphy : (btWrite hw e v s).phy e = v := by
    rw [hburn.phy]
    exact Function.update_self ..
  refine ⟨_, ?_, hburn.tick ((btWrite hw e v s).tick + 1)⟩
  rw [writeHeaderByte, btRead_clean henv he, hphy]
  exact if_pos hv

theorem pgPacketWriteHeader_clean (hw : EfuseHw) (pkt : PgPkt) {off : ℕ} {w : BitVec 8}
    (henv : env.Clean) (hoff : off < 128) (hpkt : pkt.offset = BitVec.ofNat 8 off) (hw' : w.toNat < 15)
    (hen : pkt.wordEn = w) (he : e + 2 ≤ 128) (hblank : ∀ i, e ≤ i → i < 128 → s.phy i = 0xFF) :
    ∃ t, pgPacketWriteHeader hw env pkt e s = (some (e + (hdrBytes off w).length - 1), t) ∧
      Burned s t e (hdrBytes off w) := by
  have hof : w = BitVec.ofNat 8 w.toNat := by simp
  have hnat : (BitVec.ofNat 8 off).toNat = off := by
    rw [BitVec.toNat_ofNat]
    exact Nat.mod_eq_of_lt (by omega)
  unfold pgPacketWriteHeader hdrBytes
  rw [hpkt, hnat]
  by_cases hext : 16 ≤ off
  · obtain ⟨-, hc2⟩ := extHdr_decode off hoff
    obtain ⟨hc3, -⟩ := extHdr2_decode off hoff _ hw'
    rw [← hof] at hc3
    simp only [hext, if_true]
    unfold pgPacketWrite2ByteHeader bankContentLen
    rw [if_neg (by omega), hpkt, hen]
    obtain ⟨t, ht, hburn⟩ := writeHeaderByte_clean hw 4 0 henv
      (show e < 128 by omega) (hblank e le_rfl (by omega)) hc2
    have hblank' : t.phy (e + 1) = 0xFF := by
      rw [hburn.phy, store_of_ge _ _ (by simp)]
      exact hblank (e + 1) (by omega) (by omega)
    obtain ⟨u, hu, hburn'⟩ := writeHeaderByte_clean hw 4
      ((BitVec.ofNat 8 off &&& 0x07) <<< 5 ||| 0x0F) henv (show e + 1 < 128 by omega)
      hblank' hc3
    refine ⟨u, ?_, hburn.append hburn'⟩
    dsimp only
    rw [ht]
    dsimp only
    rw [if_neg (by simp), hu]
    dsimp only
    rw [if_neg (by simp)]
    rfl
  · obtain ⟨-, hc2, -⟩ := shortHdr_decode off (by omega) _ hw'
    rw [← hof] at hc2
    simp only [hext, if_false]
    unfold pgPacketWrite1ByteHeader
    rw [hpkt, hen]
    obtain ⟨t, ht, hburn⟩ := writeHeaderByte_clean hw 4 0 henv
      (show e < 128 by omega) (hblank e le_rfl (by omega)) hc2
    refine ⟨t, ?_, hburn⟩
    dsimp only
    rw [ht]
    dsimp only
    rw [if_neg (by simp)]
    rfl

/-- A word burned into blank bytes reads back. -/
theorem writeWord_clean (hw : EfuseHw) (data : ByteMap) (i : ℕ) (henv : env.Clean) (he : e + 2 ≤ 128)
    (hblank : ∀ k, e ≤ k → k < e + 2 → s.phy k = 0xFF) :
    ∃ t, writeWord hw env data i e s = (true, t) ∧
      Burned s t e [data (i * 2), data (i * 2 + 1)] := by
  have h0 : Burned s (btWrite hw e (data (i * 2)) s) e [data (i * 2)] :=
    burned_btWrite (by omega) (hblank e le_rfl (by omega))
  have h1 : Burned (btWrite hw e (data (i * 2)) s)
      (btWrite hw (e + 1) (data (i * 2 + 1)) (btWrite hw e (data (i * 2)) s)) (e + 1)
      [data (i * 2 + 1)] := by
    refine burned_btWrite (by omega) ?_
    rw [h0.phy, store_of_ge _ _ (by simp)]
    exact hblank (e + 1) (by omega) (by omega)
  have hboth := h0.append h1
  have hholds := holdsAt_store s.phy e [data (i * 2), data (i * 2 + 1)]
  rw [holdsAt_cons, holdsAt_cons] at hholds
  obtain ⟨hr0, hr1, -⟩ := hholds
  have hphy := hboth.phy
  rw [List.cons_append, List.nil_append] at hphy
  refine ⟨_, ?_, hboth.tick ((btWrite hw (e + 1) (data (i * 2 + 1))
    (btWrite hw e (data (i * 2)) s)).tick + 1 + 1)⟩
  unfold writeWord
  dsimp only
  rw [btRead_clean henv (by omega)]
  dsimp only
  rw [btRead_clean henv (by omega)]
  dsimp only
  rw [hphy, hr0, hr1]
  simp

theorem wordEnableDataWrite_clean (hw : EfuseHw) (w : BitVec 8) (data : ByteMap) (l : List ℕ)
    (henv : env.Clean) (he : e + 2 * (l.filter fun i => !w.getLsbD i).length ≤ 128)
    (hblank : ∀ k, e ≤ k → k < 128 → s.phy k = 0xFF) :
    ∃ t, wordEnableDataWrite hw env w data l e s = (true, t) ∧
      Burned s t e ((l.filter fun i => !w.getLsbD i).flatMap fun i =>
        [data (i * 2), data (i * 2 + 1)]) := by
  induction l generalizing e s with
  | nil => exact ⟨s, rfl, rfl, rfl, fun a ha => Or.inl ha⟩
  | cons i l ih =>
    cases hb : w.getLsbD i with
    | true =>
      rw [List.filter_cons_of_neg (by simp [hb])] at he ⊢
      obtain ⟨t, ht, hburn⟩ := ih he hblank
      refine ⟨t, ?_, hburn⟩
      rw [wordEnableDataWrite, if_neg (by simp [hb])]
      exact ht
    | false =>
      rw [List.filter_cons_of_pos (by simp [hb])] at he ⊢
      rw [List.length_cons] at he
      obtain ⟨t, ht, hburn⟩ := writeWord_clean hw data i henv
        (show e + 2 ≤ 128 by omega) fun k h1 h2 => hblank k h1 (by omega)
      obtain ⟨u, hu, hburn'⟩ := ih (s := t) (e := e + 2) (by omega) fun k h1 h2 => by
        rw [hburn.phy, store_of_ge _ _ (by simpa using h1)]
        exact hblank k (by omega) h2
      refine ⟨u, ?_, hburn.append hburn'⟩
      rw [wordEnableDataWrite, if_pos (by simp [hb]), ht]
      dsimp only
      rw [hu]
      rfl

/-- A packet for a section becomes a record at the end of the log. -/
theorem pgPacketWriteBt_clean {efuse tbl pData : ByteMap} {off : ℕ} {w : BitVec 8}
    (hw : EfuseHw) (henv : env.Clean) (hlog : BtLog s.phy e tbl) (hu : Behind s.phy s.used e)
    (hoff : off < 128) (hw' : w.toNat < 15) (hroom : e + recordCnt off w < 112)
    (hdata : ∀ j < 8, pData j = efuse (off * 8 + j)) :
    ∃ t, pgPacketWriteBt hw env (BitVec.ofNat 8 off) w pData s = (true, t) ∧
      Burned { s with used := e } t e (recordOf efuse off w) := by
  have he := hlog.end_lt
  have hlen := length_recordOf efuse off w
  obtain ⟨k, hsize⟩ := efuseGetCurrentSizeBt_clean henv hlog hu
  have hcheck : partialWriteCheck env { s with used := e, tick := k } =
      (some e, { s with used := e, tick := k + 1 }) := by
    unfold partialWriteCheck
    have hmod : e % bankContentLen = e := Nat.mod_eq_of_lt (by unfold bankContentLen; omega)
    dsimp only
    rw [hmod, btRead_clean henv (by omega)]
    simp [hlog.blank e le_rfl (by omega)]
  obtain ⟨t, ht, hburn⟩ := pgPacketWriteHeader_clean hw
    (constructPGPkt (BitVec.ofNat 8 off) w pData) (s := { s with used := e, tick := k + 1 }) henv hoff rfl hw' rfl (by omega) hlog.blank
  have hwords : ((words w).flatMap fun i => [efuse (off * 8 + i * 2), efuse (off * 8 + i * 2 + 1)]) =
      (words w).flatMap fun i => [(constructPGPkt (BitVec.ofNat 8 off) w pData).data (i * 2),
        (constructPGPkt (BitVec.ofNat 8 off) w pData).data (i * 2 + 1)] := by
    refine List.flatMap_congr fun i hi => ?_
    obtain ⟨hmem, hbit⟩ := List.mem_filter.mp hi
    have hi4 : i < 4 := by
      simp at hmem
      omega
    have h0 : i * 2 / 2 = i := by omega
    have h1 : (i * 2 + 1) / 2 = i := by omega
    simp only [constructPGPkt, wordEnableDataRead]
    rw [if_pos ⟨by omega, by rw [h0]; exact hbit⟩, if_pos ⟨by omega, by rw [h1]; exact hbit⟩,
      hdata _ (by omega), hdata _ (by omega)]
    rfl
  have hhdr : 1 ≤ (hdrBytes off w).length := by
    unfold hdrBytes
    dsimp only
    split_ifs <;> simp
  have hlen2 : (hdrBytes off w).length + 2 * (words w).length = recordCnt off w := by
    rw [← hlen, recordOf, List.length_append, List.length_flatMap]
    simp [mul_comm]
  obtain ⟨u, hu', hburn'⟩ := wordEnableDataWrite_clean hw w
    (constructPGPkt (BitVec.ofNat 8 off) w pData).data [0, 1, 2, 3] (s := t)
    (e := e + (hdrBytes off w).length) henv (by
      rw [show ([0, 1, 2, 3].filter fun i => !w.getLsbD i) = words w from rfl]
      omega) fun i h1 h2 => by
      rw [hburn.phy, store_of_ge _ _ h1]
      exact hlog.blank i (by omega) h2
  refine ⟨u, ?_, ?_⟩
  · unfold pgPacketWriteBt
    rw [hsize]
    dsimp only
    rw [if_neg (by unfold bankContentLen protectBytesBank; omega), hcheck]
    dsimp only
    rw [ht]
    dsimp only
    rw [show e + (hdrBytes off w).length - 1 + 1 = e + (hdrBytes off w).length by omega]
    exact hu'
  · rw [recordOf, hwords]
    exact ⟨(hburn.append hburn').phy, (hburn.append hburn').used, (hburn.append hburn').written⟩

end Packet

section Sections
variable {efuse map : ByteMap} {addr cnts : ℕ}

/-- A word of the two maps differs. -/
def differs (efuse map : ByteMap) (o : ℕ) : Prop :=
  efuse (o / 2 * 2) ≠ map (o / 2 * 2) ∨ efuse (o / 2 * 2 + 1) ≠ map (o / 2 * 2 + 1)

instance (efuse map : ByteMap) (o : ℕ) : Decidable (differs efuse map o) :=
  inferInstanceAs (Decidable (_ ∨ _))

/-- The bits of `wordEn` still set are those of the words with no difference before byte `i`. -/
def ScanInv (efuse map : ByteMap) (base i : ℕ) (wordEn : BitVec 8) (newdata : ByteMap) : Prop :=
  (∀ k < 4, wordEn.getLsbD k = true ↔ ∀ j < i, j / 2 = k → efuse (base + j) = map (base + j)) ∧
    wordEn.toNat < 16 ∧
    ∀ j < 8, newdata j = if j < i then efuse (base + j) else map (base + j)

theorem getLsbD_clear : ∀ w < 16, ∀ i < 8, ∀ k < 4,
    (BitVec.ofNat 8 w &&& ~~~(1#8 <<< (i / 2))).getLsbD k =
        ((BitVec.ofNat 8 w).getLsbD k && !decide (i / 2 = k)) ∧
      (BitVec.ofNat 8 w &&& ~~~(1#8 <<< (i / 2))).toNat < 16 := by
  decide

/-- The inner loop finds the words that differ and collects the new data of the section. -/
theorem scanSection_spec (hout : ∀ o, addr + cnts ≤ o → efuse o = map o) {n i idx base : ℕ}
    {wordEn : BitVec 8} {newdata : ByteMap} (hi : i + n = 8) (hbase : base + i = addr + idx)
    (h : ScanInv efuse map base i wordEn newdata) :
    ScanInv efuse map base 8 (scanSection efuse map addr cnts n i idx wordEn newdata).1
      (scanSection efuse map addr cnts n i idx wordEn newdata).2.1 := by
  induction n generalizing i idx wordEn newdata with
  | zero =>
    obtain rfl : i = 8 := by omega
    exact h
  | succ n ih =>
    obtain ⟨hbits, hlt, hdata⟩ := h
    have hof : wordEn = BitVec.ofNat 8 wordEn.toNat := by simp
    unfold scanSection
    split_ifs with hidx hne
    · refine ih (by omega) (by omega) ⟨?_, ?_, ?_⟩
      · intro k hk
        rw [hof, (getLsbD_clear _ hlt i (by omega) k hk).1, ← hof, Bool.and_eq_true, hbits k hk]
        simp only [Bool.not_eq_true', decide_eq_false_iff_not]
        constructor
        · rintro ⟨hall, hki⟩ j hj hjk
          obtain hj' | rfl : j < i ∨ j = i := by omega
          · exact hall j hj' hjk
          · exact absurd hjk hki
        · intro hall
          refine ⟨fun j hj hjk => hall j (by omega) hjk, fun hik => ?_⟩
          have := hall i (by omega) hik
          rw [hbase] at this
          exact hne this
      · rw [hof]
        exact (getLsbD_clear _ hlt i (by omega) 0 (by omega)).2
      · intro j hj
        rw [Function.update_apply, hdata j hj]
        by_cases hji : j = i
        · subst hji
          rw [if_pos rfl, if_pos (by omega), hbase]
        · rw [if_neg hji]
          congr 1
          simp only [eq_iff_iff]
          omega
    · have heq : efuse (base + i) = map (base + i) := by
        rw [hbase]
        exact not_not.mp hne
      refine ih (by omega) (by omega) ⟨?_, hlt, ?_⟩
      · intro k hk
        rw [hbits k hk]
        constructor
        · intro hall j hj hjk
          obtain hj' | rfl : j < i ∨ j = i := by omega
          · exact hall j hj' hjk
          · exact heq
        · exact fun hall j hj hjk => hall j (by omega) hjk
      · intro j hj
        rw [hdata j hj]
        by_cases hji : j = i
        · subst hji
          rw [if_neg (by omega), if_pos (by omega), heq]
        · congr 1
          simp only [eq_iff_iff]
          omega
    · have hrest : ∀ j, i ≤ j → efuse (base + j) = map (base + j) :=
        fun j hj => hout _ (by omega)
      refine ⟨?_, hlt, ?_⟩
      · intro k hk
        rw [hbits k hk]
        constructor
        · intro hall j hj hjk
          by_cases hj' : j < i
          · exact hall j hj' hjk
          · exact hrest j (by omega)
        · exact fun hall j hj hjk => hall j (by omega) hjk
      · intro j hj
        dsimp only
        rw [hdata j hj, if_pos hj]
        split_ifs with hji
        · rfl
        · exact (hrest j (by omega)).symm

/-- A turn of the outer loops: the section's words that differ, and its new data. -/
theorem scanFrom_spec (hout : ∀ o, addr + cnts ≤ o → efuse o = map o)
    (hbefore : ∀ o < addr, efuse o = map o) {off idx : ℕ} (hoff : off = (addr + idx) / 8)
    (hidx : idx = 0 ∨ (addr + idx) % 8 = 0) :
    (scanFrom efuse map addr cnts off idx).1.toNat < 16 ∧
      (∀ k < 4, (scanFrom efuse map addr cnts off idx).1.getLsbD k = false ↔
        differs efuse map (off * 8 + k * 2)) ∧
      ∀ j < 8, (scanFrom efuse map addr cnts off idx).2.1 j = efuse (off * 8 + j) := by
  have hbase : off * 8 + (addr + idx) % 8 = addr + idx := by omega
  have hpre : ∀ j < (addr + idx) % 8, efuse (off * 8 + j) = map (off * 8 + j) := by
    intro j hj
    rcases hidx with h | h
    · exact hbefore _ (by omega)
    · omega
  have hfull : ∀ k < 4, (0xF : BitVec 8).getLsbD k = true := by decide
  have hinit : ScanInv efuse map (off * 8) ((addr + idx) % 8) 0xF fun i => map (off * 8 + i) := by
    refine ⟨?_, by decide, ?_⟩
    · intro k hk
      rw [hfull k hk]
      exact iff_of_true rfl fun j hj _ => hpre j hj
    · intro j hj
      split_ifs with h
      · exact (hpre j h).symm
      · rfl
  obtain ⟨hbits, hlt, hdata⟩ := scanSection_spec hout (show (addr + idx) % 8 +
    (8 - (addr + idx) % 8) = 8 by omega) hbase hinit
  refine ⟨hlt, ?_, ?_⟩
  · intro k hk
    have hk' := hbits k hk
    rw [← Bool.not_eq_true]
    unfold scanFrom differs
    rw [hk', show (off * 8 + k * 2) / 2 * 2 = off * 8 + k * 2 by omega]
    constructor
    · intro hnot
      by_contra hsame
      push Not at hsame
      refine hnot fun j hj hjk => ?_
      obtain rfl | rfl : j = k * 2 ∨ j = k * 2 + 1 := by omega
      · exact hsame.1
      · exact hsame.2
    · rintro hne hall
      have h0 := hall (k * 2) (by omega) (by omega)
      have h1 := hall (k * 2 + 1) (by omega) (by omega)
      rcases hne with h | h
      · exact h h0
      · exact h h1
  · intro j hj
    have := hdata j hj
    rw [if_pos hj] at this
    exact this

/-- The table once the words from section `off` on that differ are taken from `efuse`. -/
def mergeFrom (efuse map tbl : ByteMap) (off : ℕ) : ByteMap := fun o =>
  if off ≤ o / 8 ∧ differs efuse map o then efuse o else tbl o

theorem mem_words {w : BitVec 8} {off : ℕ}
    (h : ∀ k < 4, w.getLsbD k = false ↔ differs efuse map (off * 8 + k * 2)) {o : ℕ}
    (ho : o / 8 = off) : o % 8 / 2 ∈ words w ↔ differs efuse map o := by
  have hk : o % 8 / 2 < 4 := by omega
  have hmem : o % 8 / 2 ∈ [0, 1, 2, 3] := by
    simp only [List.mem_cons, List.not_mem_nil, or_false]
    omega
  have hword : differs efuse map (off * 8 + o % 8 / 2 * 2) ↔ differs efuse map o := by
    unfold differs
    rw [show (off * 8 + o % 8 / 2 * 2) / 2 * 2 = o / 2 * 2 by omega]
  unfold words
  rw [List.mem_filter, ← hword, ← h _ hk]
  simp [hmem]

/-- Taking over a section and then the later ones is taking over from that section on. -/
theorem mergeFrom_succ {tbl : ByteMap} {w : BitVec 8} {off : ℕ}
    (h : ∀ k < 4, w.getLsbD k = false ↔ differs efuse map (off * 8 + k * 2)) :
    mergeFrom efuse map (mergeWords efuse tbl off (words w)) (off + 1) =
      mergeFrom efuse map tbl off := by
  funext o
  unfold mergeFrom mergeWords
  by_cases hoff : o / 8 = off
  · rw [if_neg (by omega)]
    simp only [hoff, true_and, le_refl, mem_words h hoff]
  · rw [if_neg (show ¬ (o / 8 = off ∧ _) from fun h => hoff h.1)]
    congr 1
    simp only [eq_iff_iff, and_congr_left_iff]
    omega

variable {env : BtEnv}

/-- The write loop appends a record for each section with a difference. -/
theorem writeSections_clean (hw : EfuseHw) (henv : env.Clean)
    (hout : ∀ o, addr + cnts ≤ o → efuse o = map o) (hbefore : ∀ o < addr, efuse o = map o)
    (hlen : addr + cnts ≤ 1024) {off idx e : ℕ} {s : BtState} {tbl : ByteMap}
    (halign : idx < cnts → off = (addr + idx) / 8 ∧ (idx = 0 ∨ (addr + idx) % 8 = 0))
    (hend : cnts ≤ idx → ∀ o, off ≤ o / 8 → efuse o = map o) (hlog : BtLog s.phy e tbl)
    (hu : Behind s.phy s.used e) (hroom : e + chkTotalByte efuse map addr cnts off idx < 112) :
    ∃ t e', writeSections efuse map addr cnts hw env off idx s = (true, t) ∧
      BtLog t.phy e' (mergeFrom efuse map tbl off) ∧
      ∀ a ∈ t.written, a ∈ s.written ∨ a < 112 := by
  induction hn : cnts - idx using Nat.strong_induction_on generalizing off idx e s tbl with
  | _ n ih =>
    by_cases hidx : idx < cnts
    · obtain ⟨hoff, hpos⟩ := halign hidx
      obtain ⟨hlt, hbits, hdata⟩ := scanFrom_spec hout hbefore hoff hpos
      have hnext := scanFrom_idx efuse map addr cnts off idx
      have halign' : (scanFrom efuse map addr cnts off idx).2.2 < cnts →
          off + 1 = (addr + (scanFrom efuse map addr cnts off idx).2.2) / 8 ∧
            ((scanFrom efuse map addr cnts off idx).2.2 = 0 ∨
              (addr + (scanFrom efuse map addr cnts off idx).2.2) % 8 = 0) := by
        intro h
        omega
      have hend' : cnts ≤ (scanFrom efuse map addr cnts off idx).2.2 →
          ∀ o, off + 1 ≤ o / 8 → efuse o = map o := by
        intro h o ho
        exact hout o (by omega)
      rw [chkTotalByte, dif_pos hidx] at hroom
      dsimp only at hroom
      rw [writeSections, dif_pos hidx]
      dsimp only
      rw [← mergeFrom_succ hbits]
      by_cases hall : (scanFrom efuse map addr cnts off idx).1 = 0xF
      · rw [if_neg (not_not.mpr hall)] at hroom ⊢
        have hnone : words (scanFrom efuse map addr cnts off idx).1 = [] := by
          rw [hall]
          decide
        rw [hnone, mergeWords_nil]
        exact ih _ (by omega) halign' hend' hlog hu (by omega) rfl
      · rw [if_pos hall] at hroom ⊢
        have hlt' : (scanFrom efuse map addr cnts off idx).1.toNat < 15 := by
          have hne : (scanFrom efuse map addr cnts off idx).1.toNat ≠ 15 := by
            intro h
            exact hall (BitVec.eq_of_toNat_eq h)
          omega
        obtain ⟨t, ht, hburn⟩ := pgPacketWriteBt_clean hw henv hlog hu (show off < 128 by omega)
          hlt' (by omega) hdata
        have hholds := holdsAt_store s.phy e
          (recordOf efuse off (scanFrom efuse map addr cnts off idx).1)
        have hlog' : BtLog (store s.phy e
            (recordOf efuse off (scanFrom efuse map addr cnts off idx).1)) _ _ :=
          hlog.append (show off < 128 by omega) hlt' (by omega)
        rw [← hburn.phy] at hholds hlog'
        have hu' : Behind t.phy t.used (e + recordCnt off
            (scanFrom efuse map addr cnts off idx).1) := by
          rw [show t.used = e from hburn.used]
          exact Or.inr ⟨efuse, off, _, by omega, hlt', hholds, rfl⟩
        obtain ⟨u, e', hu, hlog'', hwritten⟩ := ih _ (by omega) halign' hend' hlog' hu' (by omega)
          rfl
        refine ⟨u, e', ?_, hlog'', ?_⟩
        · rw [ht]
          exact hu
        · intro a ha
          rcases hwritten a ha with hmem | hlt
          · rcases hburn.written a hmem with hmem | hlt
            · exact Or.inl hmem
            · rw [length_recordOf] at hlt
              exact Or.inr (by omega)
          · exact Or.inr hlt
    · have hsame : mergeFrom efuse map tbl off = tbl := by
        funext o
        unfold mergeFrom
        refine if_neg ?_
        rintro ⟨ho, h | h⟩
        · exact h (hend (by omega) _ (by omega))
        · exact h (hend (by omega) _ (by omega))
      refine ⟨s, e, ?_, ?_, fun a ha => Or.inl ha⟩
      · rw [writeSections, dif_neg hidx]
      · rwa [hsame]

end Sections

section Call
variable {s : BtState} {tbl : ByteMap} {e : ℕ} {c : BtCall}

/-- The masks go by words. -/
theorem masked_word (mask : BtMask) {o p : ℕ} (h : o / 2 = p / 2) :
    mask.masked o = mask.masked p := by
  unfold BtMask.masked BtMask.fileIsMasked
  rw [show o % 16 / 2 = p % 16 / 2 by omega, show o / 16 = p / 16 by omega]

/-- The map as the call wants it. -/
def BtCall.applied (c : BtCall) (tbl : ByteMap) : ByteMap := fun o =>
  if c.addr ≤ o ∧ o < c.addr + c.cnts ∧ !c.mask.masked o then c.data (o - c.addr) else tbl o

theorem readEFuseBtLogicMap_clean {env : BtEnv} (henv : env.Clean) (hlog : BtLog s.phy e tbl)
    (pbuf : ByteMap) :
    readEFuseBtLogicMap env pbuf s = (tbl, { s with tick := s.tick + 1, used := e }) := by
  have hlog' : BtLog (fun a => if a < bankContentLen then s.phy a else 0xFF) e tbl :=
    hlog.congr fun i hi => (if_pos hi).symm
  unfold readEFuseBtLogicMap
  rw [if_neg (by simp [henv.mallocTbl]), henv.read, if_pos rfl]
  dsimp only
  rw [hlog'.readLoop_eq]
  rfl

theorem BtCall.precheck_clean (henv : c.env.Clean) (hlog : BtLog s.phy e tbl) :
    (c.readMap s).1 = (fun o => if c.mask.masked o then 0xFF else tbl o) ∧
      ∃ k, c.precheck s = (chkTotalByte (c.wanted (c.readMap s).1) (c.readMap s).1 c.addr c.cnts
        (c.addr / 8) 0, e, { s with used := e, tick := k }) := by
  have hread : readEFuseBtLogicMap c.env (fun _ => 0xFF) { s with tick := 0 } =
      (tbl, { s with tick := 1, used := e }) :=
    readEFuseBtLogicMap_clean (s := { s with tick := 0 }) henv hlog _
  have hmap : c.readMap s = (fun o => if c.mask.masked o then 0xFF else tbl o,
      { s with tick := 1, used := e }) := by
    unfold BtCall.readMap btEfuseMapRead
    rw [hread]
  obtain ⟨k, hsize⟩ := efuseGetCurrentSizeBt_clean (s := { s with tick := 1, used := e }) henv hlog
    (Or.inl rfl)
  refine ⟨by rw [hmap], k, ?_⟩
  unfold BtCall.precheck
  rw [hmap]
  dsimp only
  rw [hsize]

theorem mergeFrom_wanted (c : BtCall) (tbl : ByteMap) :
    mergeFrom (c.wanted fun o => if c.mask.masked o then 0xFF else tbl o)
      (fun o => if c.mask.masked o then 0xFF else tbl o) tbl (c.addr / 8) = c.applied tbl := by
  funext o
  unfold mergeFrom BtCall.applied
  by_cases hin : c.addr ≤ o ∧ o < c.addr + c.cnts ∧ !c.mask.masked o
  · have hwant : c.wanted (fun o => if c.mask.masked o then 0xFF else tbl o) o =
        c.data (o - c.addr) := if_pos hin
    rw [if_pos hin]
    split_ifs with hdiff
    · exact hwant
    · have hmask : c.mask.masked o = false := by simpa using hin.2.2
      have hsame : ¬ differs (c.wanted fun o => if c.mask.masked o then 0xFF else tbl o)
          (fun o => if c.mask.masked o then 0xFF else tbl o) o := fun h =>
        hdiff ⟨by omega, h⟩
      unfold differs at hsame
      push Not at hsame
      have hbyte : c.wanted (fun o => if c.mask.masked o then 0xFF else tbl o) o =
          if c.mask.masked o then 0xFF else tbl o := by
        obtain ho | ho : o / 2 * 2 = o ∨ o / 2 * 2 + 1 = o := by omega
        · have := hsame.1
          rwa [ho] at this
        · have := hsame.2
          rwa [ho] at this
      rw [hwant, hmask] at hbyte
      exact hbyte.symm
  · have hwant : c.wanted (fun o => if c.mask.masked o then 0xFF else tbl o) o =
        if c.mask.masked o then 0xFF else tbl o := if_neg hin
    rw [if_neg hin]
    split_ifs with hdiff
    · rw [hwant]
      refine if_neg fun hmask => ?_
      have hsame : ∀ p, p / 2 = o / 2 → c.wanted (fun o => if c.mask.masked o then 0xFF else tbl o) p =
          if c.mask.masked p then 0xFF else tbl p := by
        intro p hp
        refine if_neg fun h => ?_
        rw [masked_word c.mask hp, hmask] at h
        simp at h
      rcases hdiff.2 with h | h
      · exact h (hsame _ (by omega))
      · exact h (hsame _ (by omega))
    · rfl

/-- A call whose reads go well either lacks the space, and changes nothing, or appends its records
to the log. -/
theorem btEfuseMapWrite_clean (hw : EfuseHw) (henv : c.env.Clean) (hlog : BtLog s.phy e tbl)
    (hlen : c.addr + c.cnts ≤ mapLen) :
    (availableEfuseAddr ((c.precheck s).2.1 + (c.precheck s).1) = false ∧
      (btEfuseMapWrite hw c s).1 = false ∧ (btEfuseMapWrite hw c s).2.phy = s.phy ∧
      (btEfuseMapWrite hw c s).2.written = s.written) ∨
    (availableEfuseAddr ((c.precheck s).2.1 + (c.precheck s).1) = true ∧
      (∃ e', BtLog (btEfuseMapWrite hw c s).2.phy e' (c.applied tbl)) ∧
      ∀ a ∈ (btEfuseMapWrite hw c s).2.written, a ∈ s.written ∨ a < 112) := by
  obtain ⟨hmap, k, hpre⟩ := BtCall.precheck_clean (c := c) henv hlog
  unfold btEfuseMapWrite
  rw [if_neg (by omega), if_neg (by simp [henv.mallocMap]), hpre]
  dsimp only
  cases hav : availableEfuseAddr (e + chkTotalByte (c.wanted (c.readMap s).1) (c.readMap s).1 c.addr
      c.cnts (c.addr / 8) 0) with
  | false => exact Or.inl ⟨rfl, rfl, rfl, rfl⟩
  | true =>
    have hroom := of_decide_eq_true hav
    have hwrite : ∃ t e', writeSections (c.wanted (c.readMap s).1) (c.readMap s).1 c.addr c.cnts
        hw c.env (c.addr / 8) 0 { s with used := e, tick := k } = (true, t) ∧
        BtLog t.phy e' (mergeFrom (c.wanted (c.readMap s).1) (c.readMap s).1 tbl (c.addr / 8)) ∧
        ∀ a ∈ t.written, a ∈ s.written ∨ a < 112 :=
      writeSections_clean hw henv (fun o ho => if_neg (by omega)) (fun o ho => if_neg (by omega))
        hlen (fun _ => ⟨rfl, Or.inl rfl⟩) (fun h o _ => if_neg (by omega)) hlog (Or.inl rfl) hroom
    obtain ⟨t, e', ht, hlog', hwritten⟩ := hwrite
    refine Or.inr ⟨rfl, ⟨e', ?_⟩, ?_⟩
    · rw [hmap, mergeFrom_wanted] at hlog'
      simpa [ht] using hlog'
    · simpa [ht] using hwritten

end Call

/-- The logical map, read with nothing failing. -/
def btLogicMap (s : BtState) : ByteMap :=
  (readEFuseBtLogicMap ⟨true, true, fun _ => .ok, 0⟩ (fun _ => 0xFF) s).1

theorem BtLog.btLogicMap_eq {s : BtState} {tbl : ByteMap} {e : ℕ} (h : BtLog s.phy e tbl) :
    btLogicMap s = tbl := by
  unfold btLogicMap
  rw [readEFuseBtLogicMap_clean ⟨rfl, rfl, fun _ => rfl⟩ h]

/-- The state a call leaves. -/
def btStep (hw : EfuseHw) (s : BtState) (c : BtCall) : BtState := (btEfuseMapWrite hw c s).2

/-- A successful call whose reads go well. -/
def GoodCall (hw : EfuseHw) (s : BtState) (c : BtCall) : Prop :=
  c.env.Clean ∧ (btEfuseMapWrite hw c s).1 = true

theorem btLog_step {hw : EfuseHw} {s : BtState} {c : BtCall} (h : ∃ e tbl, BtLog s.phy e tbl)
    (hc : GoodCall hw s c) : ∃ e tbl, BtLog (btStep hw s c).phy e tbl := by
  obtain ⟨e, tbl, hlog⟩ := h
  obtain ⟨henv, hok⟩ := hc
  have hlen : c.addr + c.cnts ≤ mapLen := by
    by_contra hlong
    unfold btEfuseMapWrite at hok
    rw [if_pos (by omega)] at hok
    cases hok
  obtain ⟨-, hfalse, -⟩ | ⟨-, ⟨e', hlog'⟩, -⟩ := btEfuseMapWrite_clean hw henv hlog hlen
  · rw [hfalse] at hok
    cases hok
  · exact ⟨e', _, hlog'⟩

/-- On a bank written by successful calls only, a call that succeeds replaces exactly its stretch
of the logical map, but for the words masked by a mask file; it writes no protected byte, and a
call that lacks the space changes nothing. -/
theorem bt_efuse_map_write_reads_back (hw : EfuseHw) (s : BtState)
    (hblank : ∀ i < bankContentLen, s.phy i = 0xFF) (calls : List BtCall)
    (hcalls : Along (btStep hw) (GoodCall hw) s calls) (c : BtCall) (henv : c.env.Clean)
    (hlen : c.addr + c.cnts ≤ mapLen) :
    ((btEfuseMapWrite hw c (run (btStep hw) s calls)).1 = true →
        ∀ o < mapLen, btLogicMap (btEfuseMapWrite hw c (run (btStep hw) s calls)).2 o =
          if c.addr ≤ o ∧ o < c.addr + c.cnts ∧ !c.mask.masked o then c.data (o - c.addr)
          else btLogicMap (run (btStep hw) s calls) o) ∧
      (∀ a ∈ (btEfuseMapWrite hw c (run (btStep hw) s calls)).2.written,
        a ∈ (run (btStep hw) s calls).written ∨ a < bankContentLen - protectBytesBank) ∧
      (availableEfuseAddr ((c.precheck (run (btStep hw) s calls)).2.1 +
          (c.precheck (run (btStep hw) s calls)).1) = false →
        (btEfuseMapWrite hw c (run (btStep hw) s calls)).1 = false ∧
          (btEfuseMapWrite hw c (run (btStep hw) s calls)).2.phy =
            (run (btStep hw) s calls).phy) := by
  have hstart : ∃ e tbl, BtLog s.phy e tbl := ⟨0, _, btLog_blank hblank⟩
  obtain ⟨e, tbl, hlog⟩ := run_invariant (I := fun s : BtState => ∃ e tbl, BtLog s.phy e tbl)
    (fun s c h hc => btLog_step h hc) hstart hcalls
  obtain ⟨hfull, hret, hphy, hwritten⟩ | ⟨hav, ⟨e', hlog'⟩, hwritten⟩ :=
    btEfuseMapWrite_clean hw henv hlog hlen
  · refine ⟨fun h => ?_, fun a ha => Or.inl ?_, fun _ => ⟨hret, hphy⟩⟩
    · rw [hret] at h
      cases h
    · rwa [hwritten] at ha
  · refine ⟨fun _ o _ => ?_, hwritten, fun h => ?_⟩
    · rw [hlog'.btLogicMap_eq, hlog.btLogicMap_eq]
      rfl
    · rw [hav] at h
      cases h

def blankBank : BtState where
  phy := fun _ => 0xFF
  used := 0
  tick := 0
  written := []

def cleanEnv : BtEnv := ⟨true, true, fun _ => .ok, 0⟩

theorem cleanEnv_clean : cleanEnv.Clean := ⟨rfl, rfl, fun _ => rfl⟩

def noMask : BtMask := ⟨false, false, fun _ => 0⟩

theorem bt_efuse_map_write_reads_back_two_calls :
    btLogicMap (btEfuseMapWrite clearingHw ⟨0x7F, 2, fun _ => 0x55, noMask, cleanEnv⟩
      (btStep clearingHw blankBank ⟨0x7E, 1, fun _ => 0x12, noMask, cleanEnv⟩)).2 0x80 = 0x55 := by
  have h := (bt_efuse_map_write_reads_back clearingHw blankBank (fun _ _ => rfl)
    [⟨0x7E, 1, fun _ => 0x12, noMask, cleanEnv⟩] ⟨⟨cleanEnv_clean, by decide +kernel⟩, trivial⟩
    ⟨0x7F, 2, fun _ => 0x55, noMask, cleanEnv⟩ cleanEnv_clean (by decide)).1
  exact (h (by decide +kernel) 0x80 (by decide)).trans (by decide)

/-- A mask file that masks every word. -/
def maskAll : BtMask := ⟨false, true, fun _ => 0⟩

/-- Under a mask file the call reports success and leaves the masked byte as it was. -/
theorem masked_bt_efuse_write_ignored :
    ¬ ∀ (hw : EfuseHw) (s : BtState), (∀ i < bankContentLen, s.phy i = 0xFF) → ∀ c : BtCall,
      c.env.Clean → c.addr + c.cnts ≤ mapLen → (btEfuseMapWrite hw c s).1 = true →
      ∀ o < mapLen, btLogicMap (btEfuseMapWrite hw c s).2 o =
        if c.addr ≤ o ∧ o < c.addr + c.cnts then c.data (o - c.addr) else btLogicMap s o := by
  intro h
  have hwrong := h clearingHw blankBank (fun _ _ => rfl)
    ⟨0, 1, fun _ => 0x12, maskAll, cleanEnv⟩ cleanEnv_clean (by decide) (by decide +kernel) 0
    (by decide)
  revert hwrong
  decide +kernel

end Rtl8821cu.BtEfuse
