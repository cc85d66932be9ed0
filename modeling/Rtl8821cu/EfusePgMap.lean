import Rtl8821cu.EfusePg
import Rtl8821cu.EfuseTorn

/-! What programming a map leaves behind: the words the mask asks for and that differ are burned,
and the parser reads the programmed map under the mask. -/
namespace Rtl8821cu.Efuse
open Store

/-- The mask bit of the word that holds offset `o`. -/
def maskBit (mask : ByteMap) (o : ℕ) : Bool :=
  (mask (o / 16)).getLsbD (if o % 16 < 8 then 4 + o % 8 / 2 else o % 8 / 2)

/-- The words that hold offset `o` agree in both maps. -/
def sameWord (map map' : ByteMap) (o : ℕ) : Bool :=
  decide (map (o / 2 * 2) = map' (o / 2 * 2) ∧ map (o / 2 * 2 + 1) = map' (o / 2 * 2 + 1))

/-- The words of the block at `i` that the mask asks for and that differ from the stored ones. -/
def changedWords (mask map stored : ByteMap) (i : ℕ) : List ℕ :=
  [0, 1, 2, 3].filter fun w => maskBit mask (i + w * 2) && !sameWord map stored (i + w * 2)

/-- The bytes of the records that hold the changed words. -/
def neededBytes (size : ℕ) (mask map stored : ByteMap) : ℕ :=
  ((offsets size 8).map fun i =>
    if changedWords mask map stored i = [] then 0
    else (if 0x7f < i then 2 else 1) + 2 * (changedWords mask map stored i).length).sum

section UpdateMask
variable {info : PgEfuseInfo} {map : ByteMap}

/-- A mask byte as the row at `i` leaves it. -/
def rowByte (mapPg map : ByteMap) (i : ℕ) (b : BitVec 8) : BitVec 8 :=
  (offsets 16 2).foldl (fun b j =>
    if mapPg (i + j) = map (i + j) ∧ mapPg (i + j + 1) = map (i + j + 1) then b &&& ~~~clrBit j
    else b) b

theorem updateRow_eq (mapPg map : ByteMap) (i : ℕ) (mask : ByteMap) :
    updateRow mapPg map i mask =
      Function.update mask (i / 16) (rowByte mapPg map i (mask (i / 16))) := by
  unfold updateRow rowByte
  induction offsets 16 2 generalizing mask with
  | nil => simp
  | cons j js ih =>
    rw [List.foldl_cons, List.foldl_cons]
    split_ifs with h
    · rw [ih, Function.update_self, Function.update_idem]
    · exact ih mask

/-- Each row works on its own byte of the mask. -/
theorem foldl_updateRow (mapPg map : ByteMap) (n : ℕ) (mask : ByteMap) (r : ℕ) :
    ((List.range n).map (· * 16)).foldl (fun mask i => updateRow mapPg map i mask) mask r =
      if r < n then rowByte mapPg map (r * 16) (mask r) else mask r := by
  induction n with
  | zero => simp
  | succ n ih =>
    rw [List.range_succ, List.map_append, List.foldl_append, List.map_singleton,
      List.foldl_cons, List.foldl_nil, updateRow_eq, Nat.mul_div_cancel n (by omega),
      Function.update_apply]
    by_cases hr : r = n
    · subst hr
      rw [ih]
      simp
    · rw [if_neg hr, ih]
      congr 1
      simp only [eq_iff_iff]
      omega

theorem updateMask_row (h16 : info.efuseMapSize % 16 = 0)
    (hsize : info.efuseMaskSize = info.efuseMapSize / 16) {r : ℕ} (hr : r < info.efuseMaskSize) :
    updateMask info map r = rowByte info.efuseMap map (r * 16) (info.efuseMask r) := by
  unfold updateMask offsets
  rw [foldl_updateRow, if_pos (by omega), if_pos hr]

theorem getLsbD_rowByte (mapPg map : ByteMap) (i : ℕ) (b : BitVec 8) (t : ℕ) :
    (rowByte mapPg map i b).getLsbD t =
      (b.getLsbD t && (offsets 16 2).all fun j =>
        !((clrBit j).getLsbD t &&
          decide (mapPg (i + j) = map (i + j) ∧ mapPg (i + j + 1) = map (i + j + 1)))) := by
  unfold rowByte
  induction offsets 16 2 generalizing b with
  | nil => simp
  | cons j js ih =>
    rw [List.foldl_cons, ih, List.all_cons, ← Bool.and_assoc]
    congr 1
    split_ifs with h
    · by_cases ht : t < 8
      · simp [h, ht]
      · simp [BitVec.getLsbD_of_ge b t (by omega)]
    · simp [h]

/-- The bit of a row's byte that belongs to offset `o` is cleared by its own word only. -/
theorem rowByte_maskBit (mapPg map : ByteMap) (b : BitVec 8) (o : ℕ) :
    (rowByte mapPg map (o / 16 * 16) b).getLsbD
        (if o % 16 < 8 then 4 + o % 8 / 2 else o % 8 / 2) =
      (b.getLsbD (if o % 16 < 8 then 4 + o % 8 / 2 else o % 8 / 2) &&
        !sameWord mapPg map o) := by
  have hclr : ∀ j ∈ offsets 16 2, ∀ k < 16,
      ((clrBit j).getLsbD (if k < 8 then 4 + k % 8 / 2 else k % 8 / 2) = decide (j = k / 2 * 2)) := by
    decide
  have hmem : ∀ k < 16, k / 2 * 2 ∈ offsets 16 2 := by decide
  have hk : o % 16 < 16 := Nat.mod_lt _ (by omega)
  have h8 : o % 16 % 8 = o % 8 := by omega
  have hidx : o / 16 * 16 + o % 16 / 2 * 2 = o / 2 * 2 := by omega
  rw [getLsbD_rowByte]
  congr 1
  rw [Bool.eq_iff_iff, List.all_eq_true]
  constructor
  · intro h
    have := h _ (hmem _ hk)
    rw [← h8, hclr _ (hmem _ hk) _ hk, hidx] at this
    simpa [sameWord] using this
  · intro h j hj
    rw [← h8, hclr j hj _ hk]
    by_cases hjk : j = o % 16 / 2 * 2
    · rw [hjk, hidx]
      simpa [sameWord] using h
    · simp [hjk]

/-- The nibble of a block has the bits of its changed words. -/
theorem programPreWordEn_updateMask (h16 : info.efuseMapSize % 16 = 0)
    (hsize : info.efuseMaskSize = info.efuseMapSize / 16) {i w : ℕ} (h8 : i % 8 = 0)
    (hi : i < info.efuseMapSize) (hw : w < 4) :
    (programPreWordEn (updateMask info map) i).getLsbD w =
      (maskBit info.efuseMask (i + w * 2) && !sameWord info.efuseMap map (i + w * 2)) := by
  have hrow : updateMask info map (i / 16) =
      rowByte info.efuseMap map (i / 16 * 16) (info.efuseMask (i / 16)) :=
    updateMask_row h16 hsize (by omega)
  have hbit := rowByte_maskBit info.efuseMap map (info.efuseMask (i / 16)) (i + w * 2)
  rw [show (i + w * 2) / 16 = i / 16 by omega, show (i + w * 2) % 8 / 2 = w by omega] at hbit
  unfold maskBit
  rw [show (i + w * 2) / 16 = i / 16 by omega, show (i + w * 2) % 8 / 2 = w by omega, ← hbit,
    ← hrow]
  unfold programPreWordEn
  by_cases hodd : i / 8 % 2 > 0
  · rw [if_pos hodd, if_neg (by omega), BitVec.getLsbD_and]
    have hlow : ∀ w < 4, (0x0F : BitVec 8).getLsbD w = true := by decide
    rw [hlow w hw, Bool.and_true]
  · rw [if_neg hodd, if_pos (by omega), BitVec.getLsbD_ushiftRight]

end UpdateMask

section Record
variable {cfg : HwCfgInfo} {phy : ByteMap}

/-- The words of a nibble. -/
def enabledWords (preWordEn : BitVec 8) : List ℕ := [0, 1, 2, 3].filter preWordEn.getLsbD

theorem enabled_iff : ∀ p < 16, ∀ j < 4,
    (~~~((BitVec.ofNat 8 p ^^^ 0x0F) >>> j) &&& 1 = 1 ↔ (BitVec.ofNat 8 p).getLsbD j = true) ∧
      (BitVec.ofNat 8 p >>> j &&& 1 ≠ 0 ↔ (BitVec.ofNat 8 p).getLsbD j = true) := by
  decide

theorem blockHdr_decode : ∀ blk < 16, ∀ p < 16, p ≠ 0 →
    (BitVec.ofNat 8 blk <<< 4 + (BitVec.ofNat 8 p ^^^ 0x0F)) &&& 0x1f ≠ 0x0f ∧
      BitVec.ofNat 8 blk <<< 4 + (BitVec.ofNat 8 p ^^^ 0x0F) ≠ 0xff ∧
      (((BitVec.ofNat 8 blk <<< 4 + (BitVec.ofNat 8 p ^^^ 0x0F)) &&& 0xF0) >>> 4).toNat = blk ∧
      (BitVec.ofNat 8 blk <<< 4 + (BitVec.ofNat 8 p ^^^ 0x0F)) &&& 0x0F =
        BitVec.ofNat 8 p ^^^ 0x0F := by
  decide

theorem blockExtendedHdr2_decode : ∀ blk < 128, ∀ p < 16, p ≠ 0 →
    (BitVec.ofNat 8 blk &&& 0x78) <<< 1 + (BitVec.ofNat 8 p ^^^ 0x0F) ≠ 0xff ∧
      ((((BitVec.ofNat 8 blk &&& 0x78) <<< 1 + (BitVec.ofNat 8 p ^^^ 0x0F)) &&& 0xF0) >>> 1 |||
        extendedHdr (BitVec.ofNat 8 blk) >>> 5 &&& 0x07).toNat = blk ∧
      ((BitVec.ofNat 8 blk &&& 0x78) <<< 1 + (BitVec.ofNat 8 p ^^^ 0x0F)) &&& 0x0F =
        BitVec.ofNat 8 p ^^^ 0x0F := by
  decide +kernel

theorem eachWord_eq {α : Type*} {p : ℕ} (hp : p < 16) (f : ℕ → List α) :
    eachWord (BitVec.ofNat 8 p) f = (enabledWords (BitVec.ofNat 8 p)).flatMap f := by
  have key : ∀ l : List ℕ, (∀ j ∈ l, j < 4) →
      l.flatMap (fun i => if BitVec.ofNat 8 p >>> i &&& 1 ≠ 0 then f i else []) =
        (l.filter (BitVec.ofNat 8 p).getLsbD).flatMap f := by
    intro l hl
    induction l with
    | nil => rfl
    | cons j l ih =>
      have hj := (enabled_iff p hp j (hl j (by simp))).2
      rw [List.flatMap_cons, ih fun k hk => hl k (by simp [hk]), List.filter_cons]
      by_cases hbit : (BitVec.ofNat 8 p).getLsbD j = true
      · rw [if_pos (hj.mpr hbit), if_pos hbit, List.flatMap_cons]
      · rw [if_neg fun h => hbit (hj.mp h), if_neg hbit, List.nil_append]
  exact key _ (by simp)

/-- The map with the words `ws` of a block taken from `src`. -/
def mergeWords (src m : ByteMap) (blk : ℕ) (ws : List ℕ) : ByteMap :=
  fun o => if o / 8 = blk ∧ o % 8 / 2 ∈ ws then src o else m o

theorem mergeWords_nil (src m : ByteMap) (blk : ℕ) : mergeWords src m blk [] = m := by
  funext o
  simp [mergeWords]

theorem mergeWords_cons (src m : ByteMap) (blk j : ℕ) (ws : List ℕ) (hj : j < 4) :
    mergeWords src (Function.update (Function.update m (blk * 8 + j * 2) (src (blk * 8 + j * 2)))
      (blk * 8 + j * 2 + 1) (src (blk * 8 + j * 2 + 1))) blk ws =
      mergeWords src m blk (j :: ws) := by
  funext o
  unfold mergeWords
  by_cases h0 : o = blk * 8 + j * 2
  · have hw : o % 8 / 2 = j := by omega
    have hb : o / 8 = blk := by omega
    rw [if_pos (show o / 8 = blk ∧ o % 8 / 2 ∈ j :: ws from ⟨hb, by simp [hw]⟩),
      Function.update_of_ne (by omega), ← h0, Function.update_self, ite_self]
  by_cases h1 : o = blk * 8 + j * 2 + 1
  · have hw : o % 8 / 2 = j := by omega
    have hb : o / 8 = blk := by omega
    rw [if_pos (show o / 8 = blk ∧ o % 8 / 2 ∈ j :: ws from ⟨hb, by simp [hw]⟩), ← h1,
      Function.update_self, ite_self]
  · have hne : ¬ (o / 8 = blk ∧ o % 8 / 2 = j) := by omega
    rw [Function.update_of_ne h1, Function.update_of_ne h0]
    congr 1
    simp only [List.mem_cons, eq_iff_iff]
    tauto

/-- The enabled words are read one after the other into their places. -/
theorem foldlM_parseWord_words {p e : ℕ} {blk : BitVec 8} {src : ByteMap} {l : List ℕ}
    (m : ByteMap) (hp : p < 16) (hl : ∀ j ∈ l, j < 4) (hlog : blk.toNat * 8 + 8 ≤ cfg.eepromSize)
    (hroom : e + 2 * (l.filter (BitVec.ofNat 8 p).getLsbD).length ≤ cfg.usable)
    (hphy : HoldsAt phy e ((l.filter (BitVec.ofNat 8 p).getLsbD).flatMap fun j =>
      [src (blk.toNat * 8 + j * 2), src (blk.toNat * 8 + j * 2 + 1)])) :
    l.foldlM (parseWord cfg phy blk (BitVec.ofNat 8 p ^^^ 0x0F)) (e, m) =
      some (e + 2 * (l.filter (BitVec.ofNat 8 p).getLsbD).length,
        mergeWords src m blk.toNat (l.filter (BitVec.ofNat 8 p).getLsbD)) := by
  induction l generalizing e m with
  | nil => simp [mergeWords_nil]
  | cons j l ih =>
    have hj : j < 4 := hl j (by simp)
    have hen := (enabled_iff p hp j hj).1
    rw [List.foldlM_cons]
    by_cases hbit : (BitVec.ofNat 8 p).getLsbD j = true
    · rw [List.filter_cons_of_pos hbit] at hroom hphy ⊢
      rw [List.length_cons] at hroom ⊢
      rw [List.flatMap_cons, List.cons_append, List.cons_append, List.nil_append, holdsAt_cons,
        holdsAt_cons] at hphy
      obtain ⟨p0, p1, hphy⟩ := hphy
      have hus1 : sub32 cfg.usable 1 = cfg.usable - 1 := if_pos (by omega)
      have hword : parseWord cfg phy blk (BitVec.ofNat 8 p ^^^ 0x0F) (e, m) j =
          some (e + 2, Function.update (Function.update m (blk.toNat * 8 + j * 2)
            (src (blk.toNat * 8 + j * 2))) (blk.toNat * 8 + j * 2 + 1)
            (src (blk.toNat * 8 + j * 2 + 1))) := by
        unfold parseWord
        rw [if_pos (hen.mpr hbit)]
        dsimp only
        rw [if_neg (by omega), if_neg (by omega), if_neg (by omega), p0, p1]
      rw [hword, Option.bind_eq_bind, Option.bind_some, ih _ (fun k hk => hl k (by simp [hk]))
        (by omega) hphy, mergeWords_cons _ _ _ _ _ hj]
      congr 2
      omega
    · rw [List.filter_cons_of_neg hbit] at hroom hphy ⊢
      have hword : parseWord cfg phy blk (BitVec.ofNat 8 p ^^^ 0x0F) (e, m) j = some (e, m) := by
        unfold parseWord
        rw [if_neg fun h => hbit (hen.mp h)]
      rw [hword, Option.bind_eq_bind, Option.bind_some, ih _ (fun k hk => hl k (by simp [hk]))
        hroom hphy]

theorem enabledWords_ne_nil : ∀ p < 16, p ≠ 0 → enabledWords (BitVec.ofNat 8 p) ≠ [] := by
  decide

/-- The bytes `program_efuse_88xx` writes for a block. -/
def blockBytes (superUsb : Bool) (info : PgEfuseInfo) (preWordEn : BitVec 8) (i : ℕ) :
    List (BitVec 8) :=
  if preWordEn ≠ 0 then
    if superUsb && superUsbZone i then superUsbBytes info preWordEn i
    else if 0x7f < i then extendBytes info (preWordEn ^^^ 0x0F) preWordEn i
    else procBytes info (preWordEn ^^^ 0x0F) preWordEn i
  else []

theorem length_flatMap_wordBytes (info : PgEfuseInfo) (i : ℕ) (ws : List ℕ) :
    (ws.flatMap (wordBytes info i)).length = 2 * ws.length := by
  simp [List.length_flatMap, wordBytes, mul_comm]

theorem ofNat_eq_zero_iff : ∀ p < 16, BitVec.ofNat 8 p = 0 ↔ p = 0 := by
  decide

theorem length_blockBytes (info : PgEfuseInfo) {p : ℕ} (i : ℕ) (hp : p < 16) :
    (blockBytes false info (BitVec.ofNat 8 p) i).length =
      if p = 0 then 0
      else (if 0x7f < i then 2 else 1) + 2 * (enabledWords (BitVec.ofNat 8 p)).length := by
  unfold blockBytes
  by_cases hp0 : p = 0
  · simp [hp0]
  · rw [if_pos ((ofNat_eq_zero_iff p hp).not.mpr hp0), if_neg hp0]
    simp only [Bool.false_and, Bool.false_eq_true, if_false]
    split_ifs with hext
    · rw [extendBytes, eachWord_eq hp, List.length_append, length_flatMap_wordBytes]
      rfl
    · rw [procBytes, eachWord_eq hp, List.length_append, length_flatMap_wordBytes]
      rfl

/-- The parser passes the record of a block and takes its words over. -/
theorem parseStep_block {info : PgEfuseInfo} {p i e : ℕ} (m : ByteMap) (hp : p < 16) (hp0 : p ≠ 0)
    (h8 : i % 8 = 0) (hi : i + 8 ≤ cfg.eepromSize) (h1024 : cfg.eepromSize ≤ 1024)
    (hroom : e + (blockBytes false info (BitVec.ofNat 8 p) i).length + cfg.prtctEfuseSize ≤
      cfg.efuseSize)
    (hphy : HoldsAt phy e (blockBytes false info (BitVec.ofNat 8 p) i)) :
    parseStep cfg phy e m =
      .next (e + (blockBytes false info (BitVec.ofNat 8 p) i).length)
        (mergeWords info.efuseMap m (i / 8) (enabledWords (BitVec.ofNat 8 p))) := by
  have hne : 0 < (enabledWords (BitVec.ofNat 8 p)).length :=
    List.length_pos_iff.mpr (enabledWords_ne_nil p hp hp0)
  have hblk : i / 8 * 8 = i := by omega
  have hlen := length_blockBytes info i hp
  rw [if_neg hp0] at hlen
  have hus : cfg.usable = cfg.efuseSize - cfg.prtctEfuseSize := if_pos (by omega)
  have hus1 : sub32 cfg.usable 1 = cfg.usable - 1 := by
    refine if_pos ?_
    split_ifs at hlen <;> omega
  rw [hlen] at hroom ⊢
  unfold blockBytes at hphy
  rw [if_pos ((ofNat_eq_zero_iff p hp).not.mpr hp0)] at hphy
  simp only [Bool.false_and, Bool.false_eq_true, if_false] at hphy
  by_cases hext : 0x7f < i
  · obtain ⟨hc1, hc2, -⟩ := extendedHdr_decode (i / 8) (by omega) 0 (by omega)
    obtain ⟨hc3, hc4, hc5⟩ := blockExtendedHdr2_decode (i / 8) (by omega) p hp hp0
    simp only [hext, if_true, extendBytes, eachWord_eq hp, List.cons_append, List.nil_append,
      holdsAt_cons] at hphy hroom ⊢
    obtain ⟨p0, p1, hwords⟩ := hphy
    simp only [parseStep, parseHdr, p0, p1, hc1, hc2, hc3, hc5, if_true, if_false]
    rw [if_neg (by omega), foldlM_parseWord_words m hp (by simp) (by rw [hc4]; omega) (by
      rw [← enabledWords]
      omega) (by
      rw [hc4, hblk]
      exact hwords), ← enabledWords, hc4]
    dsimp only
    congr 1
    omega
  · obtain ⟨hc1, hc2, hc3, hc4⟩ := blockHdr_decode (i / 8) (by omega) p hp hp0
    simp only [hext, if_false, procBytes, eachWord_eq hp, List.cons_append, List.nil_append,
      holdsAt_cons] at hphy hroom ⊢
    obtain ⟨p0, hwords⟩ := hphy
    simp only [parseStep, parseHdr, p0, hc1, hc2, hc4, if_false]
    rw [if_neg (by omega), foldlM_parseWord_words m hp (by simp) (by rw [hc3]; omega) (by
      rw [← enabledWords]
      omega) (by
      rw [hc3, hblk]
      exact hwords), ← enabledWords, hc3]
    dsimp only
    congr 1
    omega

end Record

section Program
variable {hw : EfuseHw} {cfg : HwCfgInfo} {flt : Faults} {info : PgEfuseInfo} {s : HalmacAdapter}

/-- The loop of `program_efuse_88xx`, one record after the other. -/
theorem programBlocks_cons (superUsb : Bool) (updatedMask : ByteMap) (n i : ℕ) (is : List ℕ)
    (s : HalmacAdapter) :
    programBlocks hw flt info superUsb updatedMask n (i :: is) s =
      andThen (pgBytes hw flt n
          (blockBytes superUsb info (programPreWordEn updatedMask i) i) s)
        (programBlocks hw flt info superUsb updatedMask
          (n + (blockBytes superUsb info (programPreWordEn updatedMask i) i).length) is) := by
  rw [programBlocks]
  unfold blockBytes
  split_ifs <;> rfl

/-- A record burned into blank bytes. -/
theorem pgBytes_success (cfg : HwCfgInfo) {n : ℕ} {bytes : List (BitVec 8)}
    (h : (pgBytes hw flt n bytes s).1 = .success) (hlt : s.efuseEnd + bytes.length ≤ 1024)
    (hblank : ∀ i, s.efuseEnd ≤ i → i < s.efuseEnd + bytes.length → s.phy i = 0xFF) :
    (pgBytes hw flt n bytes s).2.efuseEnd = s.efuseEnd + bytes.length ∧
      (pgBytes hw flt n bytes s).2.phy = store s.phy s.efuseEnd bytes ∧
      (CacheCoherent cfg s → CacheCoherent cfg (pgBytes hw flt n bytes s).2) := by
  unfold pgBytes at h ⊢
  obtain ⟨h1, -, heq⟩ := andThen_success h
  rw [heq]
  obtain ⟨hphy, hcache⟩ := writeHwBytes_success h1 hlt hblank
  refine ⟨rfl, hphy, fun hc => ?_⟩
  cases bytes with
  | nil => exact hc
  | cons b bs =>
    obtain ⟨allocated, hcache⟩ := hcache (by simp)
    intro efuseMap hvalid
    cases hcache.symm.trans hvalid

theorem nibble_lt (b : BitVec 8) : (b &&& 0x0F).toNat < 16 ∧ (b >>> 4).toNat < 16 := by
  revert b
  decide

theorem programPreWordEn_lt (updatedMask : ByteMap) (i : ℕ) :
    (programPreWordEn updatedMask i).toNat < 16 := by
  unfold programPreWordEn
  split_ifs
  · exact (nibble_lt _).1
  · exact (nibble_lt _).2

/-- The bytes of all the records of a pass over the blocks `is`. -/
def recordBytes (superUsb : Bool) (info : PgEfuseInfo) (updatedMask : ByteMap) (is : List ℕ) :
    List (BitVec 8) :=
  is.flatMap fun i => blockBytes superUsb info (programPreWordEn updatedMask i) i

/-- The map with the words of all the records taken over. -/
def mergeBlocks (info : PgEfuseInfo) (updatedMask : ByteMap) (is : List ℕ) (m : ByteMap) :
    ByteMap :=
  is.foldl (fun m i =>
    mergeWords info.efuseMap m (i / 8) (enabledWords (programPreWordEn updatedMask i))) m

/-- The record of one block goes to the end of the log. -/
theorem LogAt.pgBlock_success {n i : ℕ} {p m : ByteMap} (h8 : i % 8 = 0)
    (hi : i + 8 ≤ cfg.eepromSize) (h1024 : cfg.eepromSize ≤ 1024)
    (hlog : LogAt cfg s.phy s.efuseEnd m)
    (hfit : s.efuseEnd + (blockBytes false info (programPreWordEn p i) i).length +
      cfg.prtctEfuseSize ≤ cfg.efuseSize)
    (hend : s.efuseEnd + (blockBytes false info (programPreWordEn p i) i).length < cfg.efuseSize)
    (h : (pgBytes hw flt n (blockBytes false info (programPreWordEn p i) i) s).1 = .success) :
    LogAt cfg (pgBytes hw flt n (blockBytes false info (programPreWordEn p i) i) s).2.phy
      (s.efuseEnd + (blockBytes false info (programPreWordEn p i) i).length)
      (mergeWords info.efuseMap m (i / 8) (enabledWords (programPreWordEn p i))) := by
  have hle := cfg.efuse_le
  obtain ⟨-, hphy, -⟩ := pgBytes_success cfg h (by omega) fun k hk hk' =>
    hlog.blank k hk (by omega)
  rw [hphy]
  have hlt := programPreWordEn_lt p i
  have hof : programPreWordEn p i = BitVec.ofNat 8 (programPreWordEn p i).toNat := by simp
  generalize programPreWordEn p i = b at *
  refine ⟨?_, hend, ?_⟩
  · have hkeep : Walk cfg (store s.phy s.efuseEnd (blockBytes false info b i)) (0, fun _ => 0xFF)
        (s.efuseEnd, m) :=
      hlog.walk.congr fun k _ hk => (store_of_lt _ _ hk).symm
    by_cases hb : b.toNat = 0
    · have hb0 : b = 0 := by rw [hof, hb]; rfl
      have hnil : enabledWords 0 = [] := by decide
      rw [hb0, hnil, mergeWords_nil]
      simpa [blockBytes, hb0] using hkeep
    · refine Relation.ReflTransGen.tail hkeep ?_
      have hholds := holdsAt_store s.phy s.efuseEnd (blockBytes false info b i)
      rw [hof] at hholds hfit ⊢
      exact parseStep_block m hlt hb h8 hi h1024 hfit hholds
  · intro k hk hk'
    rw [store_of_ge _ _ hk]
    exact hlog.blank k (by omega) hk'

/-- A successful pass over the blocks puts their records at the end of the log. -/
theorem LogAt.programBlocks_success {n : ℕ} {p m : ByteMap} {is : List ℕ}
    (h1024 : cfg.eepromSize ≤ 1024) (his : ∀ i ∈ is, i % 8 = 0 ∧ i + 8 ≤ cfg.eepromSize)
    (hlog : LogAt cfg s.phy s.efuseEnd m) (hc : CacheCoherent cfg s)
    (hfit : s.efuseEnd + (recordBytes false info p is).length + cfg.prtctEfuseSize ≤ cfg.efuseSize)
    (hend : s.efuseEnd + (recordBytes false info p is).length < cfg.efuseSize)
    (h : (programBlocks hw flt info false p n is s).1 = .success) :
    LogAt cfg (programBlocks hw flt info false p n is s).2.phy
        (s.efuseEnd + (recordBytes false info p is).length) (mergeBlocks info p is m) ∧
      CacheCoherent cfg (programBlocks hw flt info false p n is s).2 ∧
      (programBlocks hw flt info false p n is s).2.phy =
        store s.phy s.efuseEnd (recordBytes false info p is) := by
  induction is generalizing n s m with
  | nil => exact ⟨hlog, hc, rfl⟩
  | cons i is ih =>
    have hle := cfg.efuse_le
    obtain ⟨h8, hi⟩ := his i (by simp)
    have hcons : recordBytes false info p (i :: is) =
        blockBytes false info (programPreWordEn p i) i ++ recordBytes false info p is := rfl
    rw [hcons, List.length_append] at hfit hend
    rw [programBlocks_cons] at h ⊢
    obtain ⟨h1, h2, heq⟩ := andThen_success h
    rw [heq]
    obtain ⟨hend', hphy, hcoh⟩ := pgBytes_success cfg h1 (by omega) fun k hk hk' =>
      hlog.blank k hk (by omega)
    have hlog' := hlog.pgBlock_success h8 hi h1024 (by omega) (by omega) h1
    rw [← hend'] at hlog'
    obtain ⟨hlog'', hcoh'', hphy''⟩ := ih (fun k hk => his k (by simp [hk])) hlog' (hcoh hc)
      (by omega) (by omega) h2
    rw [hend'] at hlog'' hphy''
    rw [hcons, List.length_append, ← add_assoc]
    refine ⟨hlog'', hcoh'', ?_⟩
    rw [hphy'', hphy, store_append]

theorem mergeBlocks_apply (p m : ByteMap) (n o : ℕ) :
    mergeBlocks info p ((List.range n).map (· * 8)) m o =
      if o / 8 < n ∧ o % 8 / 2 ∈ enabledWords (programPreWordEn p (o / 8 * 8)) then info.efuseMap o
      else m o := by
  unfold mergeBlocks
  induction n with
  | zero => simp
  | succ n ih =>
    rw [List.range_succ, List.map_append, List.foldl_append, List.map_singleton, List.foldl_cons,
      List.foldl_nil, Nat.mul_div_cancel n (by omega), mergeWords]
    by_cases ho : o / 8 = n
    · subst ho
      rw [ih, if_neg (show ¬ (o / 8 < o / 8 ∧ _) by omega)]
      simp
    · rw [if_neg (by tauto), ih]
      congr 1
      simp only [eq_iff_iff, and_congr_left_iff]
      omega

theorem mem_offsets {size k i : ℕ} (h : i ∈ offsets size k) (hk : size % k = 0) (hpos : 0 < k) :
    i % k = 0 ∧ i + k ≤ size := by
  obtain ⟨q, hq, rfl⟩ := List.mem_map.mp h
  rw [List.mem_range] at hq
  obtain ⟨c, hc⟩ := Nat.dvd_of_mod_eq_zero hk
  have hdiv : (size + k - 1) / k = c := by
    rw [hc, Nat.add_sub_assoc (by omega), Nat.mul_add_div hpos, Nat.div_eq_of_lt (by omega),
      Nat.add_zero]
  rw [hdiv] at hq
  refine ⟨Nat.mul_mod_left q k, ?_⟩
  calc q * k + k = k * (q + 1) := by ring
    _ ≤ k * c := Nat.mul_le_mul_left k hq
    _ = size := hc.symm

section Mask
variable {map mask m : ByteMap} {size : ℕ} (h16 : size % 16 = 0)
include h16

theorem enabledWords_updateMask {i : ℕ} (h8 : i % 8 = 0) (hi : i < size) :
    enabledWords (programPreWordEn (updateMask ⟨map, size, mask, size / 16⟩ m) i) =
      changedWords mask map m i := by
  unfold enabledWords changedWords
  refine List.filter_congr fun w hw => ?_
  exact programPreWordEn_updateMask h16 rfl h8 hi (by simp at hw; omega)

/-- The records hold the changed words and nothing else. -/
theorem length_recordBytes :
    (recordBytes false ⟨map, size, mask, size / 16⟩
        (updateMask ⟨map, size, mask, size / 16⟩ m) (offsets size 8)).length =
      neededBytes size mask map m := by
  unfold recordBytes neededBytes
  rw [List.length_flatMap]
  congr 1
  refine List.map_congr_left fun i hi => ?_
  obtain ⟨h8, hlt⟩ := mem_offsets hi (by omega) (by omega)
  have hp := programPreWordEn_lt (updateMask ⟨map, size, mask, size / 16⟩ m) i
  rw [← enabledWords_updateMask h16 h8 (by omega)]
  generalize programPreWordEn (updateMask ⟨map, size, mask, size / 16⟩ m) i = b at hp ⊢
  have hof : b = BitVec.ofNat 8 b.toNat := by simp
  rw [hof, length_blockBytes _ _ hp]
  by_cases hb : b.toNat = 0
  · rw [if_pos hb, if_pos (by rw [hb]; decide)]
  · rw [if_neg hb, if_neg (enabledWords_ne_nil _ hp hb)]

/-- Under the mask the log reads as the programmed map. -/
theorem mergeBlocks_updateMask {o : ℕ} (ho : o < size) :
    mergeBlocks ⟨map, size, mask, size / 16⟩ (updateMask ⟨map, size, mask, size / 16⟩ m)
        (offsets size 8) m o = if maskBit mask o then map o else m o := by
  unfold offsets
  rw [mergeBlocks_apply, enabledWords_updateMask h16 (by omega) (by omega)]
  have hidx : o / 8 * 8 + o % 8 / 2 * 2 = o / 2 * 2 := by omega
  have hbit : maskBit mask (o / 2 * 2) = maskBit mask o := by
    unfold maskBit
    rw [show o / 2 * 2 / 16 = o / 16 by omega, show o / 2 * 2 % 8 / 2 = o % 8 / 2 by omega]
    congr 1
    split_ifs <;> omega
  have hsame : sameWord map m (o / 2 * 2) = sameWord map m o := by
    unfold sameWord
    rw [show o / 2 * 2 / 2 * 2 = o / 2 * 2 by omega]
  have hmem : o % 8 / 2 ∈ changedWords mask map m (o / 8 * 8) ↔
      maskBit mask o = true ∧ sameWord map m o = false := by
    unfold changedWords
    rw [List.mem_filter, hidx, hbit, hsame]
    have : o % 8 / 2 ∈ [0, 1, 2, 3] := by
      have : o % 8 / 2 < 4 := by omega
      interval_cases o % 8 / 2 <;> simp
    simp [this]
  by_cases hm : maskBit mask o = true
  · cases hs : sameWord map m o with
    | false => rw [if_pos ⟨by omega, hmem.mpr ⟨hm, hs⟩⟩, if_pos hm]
    | true =>
      rw [if_neg (by rw [hmem, hs]; simp), if_pos hm]
      unfold sameWord at hs
      obtain ⟨h0, h1⟩ := of_decide_eq_true hs
      obtain ho2 | ho2 : o / 2 * 2 = o ∨ o / 2 * 2 + 1 = o := by omega
      · rw [ho2] at h0
        exact h0.symm
      · rw [ho2] at h1
        exact h1.symm
  · rw [if_neg (by rw [hmem]; tauto), if_neg hm]

end Mask

theorem LogAt.procPgEfuseByMap_success {map mask m : ByteMap} {e : ℕ} {mallocMask : Bool}
    (h16 : cfg.eepromSize % 16 = 0) (h1024 : cfg.eepromSize ≤ 1024) (hlog : LogAt cfg s.phy e m)
    (hc : CacheCoherent cfg s)
    (hfit : e + neededBytes cfg.eepromSize mask map m + cfg.prtctEfuseSize ≤ cfg.efuseSize)
    (hend : e + neededBytes cfg.eepromSize mask map m < cfg.efuseSize)
    (h : (procPgEfuseByMap hw flt ⟨map, cfg.eepromSize, mask, cfg.eepromSize / 16⟩ cfg mallocMask
      s).1 = .success) :
    ReadsAs cfg (procPgEfuseByMap hw flt ⟨map, cfg.eepromSize, mask, cfg.eepromSize / 16⟩ cfg
        mallocMask s).2.phy (fun o => if maskBit mask o then map o else m o) ∧
      ∃ bytes, bytes.length = neededBytes cfg.eepromSize mask map m ∧
        (procPgEfuseByMap hw flt ⟨map, cfg.eepromSize, mask, cfg.eepromSize / 16⟩ cfg
          mallocMask s).2.phy = store s.phy e bytes := by
  unfold procPgEfuseByMap at h ⊢
  split_ifs at h ⊢
  obtain ⟨map', t, hread, heq⟩ := withLogMap_success h
  rw [heq] at h ⊢
  obtain ⟨rfl, hphy, rfl, hcoh⟩ := hlog.readLogEfuseMap_ok hc hread
  rw [← hphy] at hlog ⊢
  dsimp only at h ⊢
  split_ifs at h ⊢ with hcheck
  · exact absurd h hcheck
  · rw [← length_recordBytes h16] at hfit hend ⊢
    obtain ⟨hlog', -, hphy'⟩ := hlog.programBlocks_success h1024
      (fun i hi => mem_offsets hi (by omega) (by omega)) hcoh hfit hend h
    refine ⟨⟨_, _, hlog'.eepromParser_eq, fun o ho => mergeBlocks_updateMask h16 ho⟩, _, rfl, hphy'⟩

end Program

/-- Programming a map reads back as the map under the mask and as before elsewhere, and burns the
records of the words that are asked for and differ, nothing more. -/
theorem pg_efuse_by_map_reads_back (hw : EfuseHw) (cfg : HwCfgInfo)
    (h1024 : cfg.eepromSize ≤ 1024) (flt : Faults) (mallocMask : Bool) (s : HalmacAdapter) (e : ℕ)
    (m : ByteMap) (hlog : LogAt cfg s.phy e m) (hc : CacheCoherent cfg s) (arg : PgEfuseArg)
    (map mask : ByteMap) (hmap : arg.efuseMap = some map) (hmask : arg.efuseMask = some mask)
    (hfit : e + neededBytes cfg.eepromSize mask map m + cfg.prtctEfuseSize ≤ cfg.efuseSize)
    (hend : e + neededBytes cfg.eepromSize mask map m < cfg.efuseSize)
    (hok : (pgEfuseByMap hw cfg flt mallocMask arg s).1 = .success) :
    ReadsAs cfg (pgEfuseByMap hw cfg flt mallocMask arg s).2.phy
        (fun o => if maskBit mask o then map o else m o) ∧
      ∃ bytes, bytes.length = neededBytes cfg.eepromSize mask map m ∧
        (pgEfuseByMap hw cfg flt mallocMask arg s).2.phy = store s.phy e bytes := by
  obtain ⟨argMap, mapSize, argMask, maskSize⟩ := arg
  dsimp only at hmap hmask
  subst hmap hmask
  unfold pgEfuseByMap at hok ⊢
  dsimp only at hok ⊢
  split_ifs at hok ⊢ with h1 h2 h3
  obtain rfl : mapSize = cfg.eepromSize := not_not.mp h1
  obtain rfl : maskSize = cfg.eepromSize / 16 := not_not.mp h3
  obtain ⟨t, hphy, hcache, hproc, hphy', -⟩ := efuseEntry_success hok
  have hcoh : CacheCoherent cfg t := by
    unfold CacheCoherent at hc ⊢
    rwa [hphy, hcache]
  rw [← hphy] at hlog ⊢
  rw [hphy']
  exact hlog.procPgEfuseByMap_success (by omega) h1024 hcoh hfit hend hproc

/-- Two words of the first row and one of the last. -/
def pgExample : PgEfuseArg where
  efuseMap := some fun o => if o = 0x02 then 0x11 else if o = 0x0D then 0x22 else 0x33
  efuseMapSize := 512
  efuseMask := some fun r => if r = 0 then 0x24 else if r = 31 then 0x08 else 0
  efuseMaskSize := 32

theorem pg_efuse_by_map_reads_back_8821c :
    ReadsAs cfg8821c
      (pgEfuseByMap clearingHw cfg8821c noFaults true pgExample blankAdapter).2.phy
      (fun o => if maskBit (fun r => if r = 0 then 0x24 else if r = 31 then 0x08 else 0) o then
        (if o = 0x02 then 0x11 else if o = 0x0D then 0x22 else 0x33) else 0xFF) :=
  (pg_efuse_by_map_reads_back clearingHw cfg8821c (by decide) noFaults true blankAdapter 0
    (fun _ => 0xFF) ⟨.refl, by decide, fun _ _ _ => rfl⟩ (fun _ h => by cases h) pgExample _ _ rfl
    rfl (by decide +kernel) (by decide +kernel) (by decide +kernel)).1

end Rtl8821cu.Efuse
