import Rtl8821cu.CryptFrame

/-! Software decryption accepts exactly the frames that software encryption makes, and does not mind
the header bits that a retransmission changes. -/
namespace Rtl8821cu.CryptFrame
open Aes Ccm Gcm

section Suites

variable {s : Suite} {tk nonce aad plain crypt auth : List Byte}

theorem ad_eq_some_iff (hauth : auth.length = s.micLen) :
    s.ad tk nonce crypt aad auth = some plain ↔ s.ae tk nonce plain aad = some (crypt, auth) := by
  cases s with
  | ccmp => exact aesCcmAd_eq_some_iff hauth
  | ccmp256 => exact aesCcmAd_eq_some_iff hauth
  | gcmp => exact aesGcmAd_eq_some_iff hauth

theorem length_ccm {M : ℕ} {key : List Byte}
    (h : aesCcmAe key nonce M plain aad = some (crypt, auth)) :
    crypt.length = plain.length ∧ auth.length = M := by
  rw [aesCcmAe] at h
  split at h
  · cases h
  · rename_i hle
    obtain ⟨aes, -, hp⟩ := Option.map_eq_some_iff.mp h
    obtain ⟨rfl, rfl⟩ := Prod.mk.inj hp
    refine ⟨length_aesCcmEncr plain, ?_⟩
    simp only [aesCcmEncrAuth, List.length_zipWith, List.length_take, length_toList]
    omega

theorem length_gcm {key : List Byte} (h : aesGcmAe key nonce plain aad = some (crypt, auth)) :
    crypt.length = plain.length ∧ auth.length = 16 := by
  rw [aesGcmAe] at h
  obtain ⟨aes, -, hp⟩ := Option.map_eq_some_iff.mp h
  obtain ⟨rfl, rfl⟩ := Prod.mk.inj hp
  constructor
  · rw [aesGcmGctr_eq]
    exact length_ctrBlocks 0 plain
  · exact length_ctrBlocks 0 _

theorem length_ae (h : s.ae tk nonce plain aad = some (crypt, auth)) :
    crypt.length = plain.length ∧ auth.length = s.micLen := by
  cases s with
  | ccmp => exact length_ccm h
  | ccmp256 => exact length_ccm h
  | gcmp => exact length_gcm h

end Suites

section Header

variable {s : Suite} {spp : Bool} {hdr hdr' data data' : List Byte} {n : ℕ}

theorem getD_congr (h : hdr.take n = hdr'.take n) {i : ℕ} (hi : i < n) :
    hdr.getD i 0 = hdr'.getD i 0 := by
  have hget := congrArg (fun l => l.getD i 0) h
  simpa [List.getD_eq_getElem?_getD, List.getElem?_take, hi] using hget

theorem slice_congr (h : hdr.take n = hdr'.take n) {i k : ℕ} (hi : i + k ≤ n) :
    slice hdr i k = slice hdr' i k := by
  have hdrop := congrArg (fun l => (l.drop i).take k) h
  simpa [slice, List.drop_take, List.take_take, Nat.le_sub_of_add_le' hi] using hdrop

theorem qosOffset_lt (fc : BitVec 16) : qosOffset fc < 32 := by
  rw [qosOffset]
  split <;> omega

/-- The additional data and the nonce are in the first bytes of the header and its IV. -/
theorem aadNonce_congr (hhdr : hdr.take 32 = hdr'.take 32) (hdata : data.take 8 = data'.take 8) :
    s.aadNonce spp hdr data = s.aadNonce spp hdr' data' := by
  have hfc : getLe16 hdr 0 = getLe16 hdr' 0 := by
    rw [getLe16, getLe16, getD_congr hhdr (by decide), getD_congr hhdr (by decide)]
  have hseq : getLe16 hdr 22 = getLe16 hdr' 22 := by
    rw [getLe16, getLe16, getD_congr hhdr (by decide), getD_congr hhdr (by decide)]
  have hqc := getD_congr hhdr (qosOffset_lt (getLe16 hdr' 0))
  have haad : ∀ fc', aadOf spp fc' hdr = aadOf spp fc' hdr' := fun fc' => by
    simp only [aadOf, hfc, hseq, hqc, slice_congr hhdr (show 4 + 18 ≤ 32 by decide),
      slice_congr hhdr (show 24 + 6 ≤ 32 by decide)]
  have hnonce : pnNonce hdr data = pnNonce hdr' data' := by
    simp only [pnNonce, slice_congr hhdr (show 10 + 6 ≤ 32 by decide)]
    rw [getD_congr hdata (by decide), getD_congr hdata (by decide), getD_congr hdata (by decide),
      getD_congr hdata (by decide), getD_congr hdata (by decide), getD_congr hdata (by decide)]
  have hflags : nonceFlags hdr = nonceFlags hdr' := by
    simp only [nonceFlags, hfc, hqc]
  simp only [Suite.aadNonce, ccmpAadNonce, gcmpAadNonce, haad, hnonce, hflags, hfc]

end Header

section Mark

variable {s : Suite} {spp : Bool} {hdr data : List Byte} {fc fc' : BitVec 16}

/-- Two frame controls that the additional data treats alike. -/
structure SameControl (fc fc' : BitVec 16) : Prop where
  type : fc &&& 0x000c = fc' &&& 0x000c
  qos : fc &&& 0x0080 = fc' &&& 0x0080
  addr4 : fc &&& 0x0300 = fc' &&& 0x0300

theorem isData_congr (h : SameControl fc fc') : isData fc = isData fc' := by
  rw [isData, isData, h.type]

theorem isQos_congr (h : SameControl fc fc') : isQos fc = isQos fc' := by
  rw [isQos, isQos, isData_congr h, h.qos]

theorem hasAddr4_congr (h : SameControl fc fc') : hasAddr4 fc = hasAddr4 fc' := by
  rw [hasAddr4, hasAddr4, h.addr4]

theorem or_and_of_disjoint {a b : BitVec 16} (h : a &&& b = 0) (x : BitVec 16) :
    (x ||| a) &&& b = x &&& b := by
  rw [BitVec.and_comm, BitVec.and_or_distrib_left, BitVec.and_comm b a, h, BitVec.and_comm b x]
  exact BitVec.or_zero

/-- The protected bit is none of those that are looked at. -/
theorem sameControl_mark (fc : BitVec 16) : SameControl (fc ||| 0x4000) fc where
  type := or_and_of_disjoint (by decide) fc
  qos := or_and_of_disjoint (by decide) fc
  addr4 := or_and_of_disjoint (by decide) fc

theorem or_and_of_subset {a b : BitVec 16} (h : a &&& b = a) (x : BitVec 16) :
    (x ||| a) &&& b = (x &&& b) ||| a := by
  rw [BitVec.and_comm, BitVec.and_or_distrib_left, BitVec.and_comm b a, h, BitVec.and_comm b x]

theorem maskFc_mark (fc : BitVec 16) :
    maskFc (fc ||| 0x4000) ||| 0x4000 = maskFc fc ||| 0x4000 := by
  have h1 := or_and_of_subset (show (0x4000 : BitVec 16) &&& ~~~0x0070 = 0x4000 by decide)
  have h2 := or_and_of_subset (show (0x4000 : BitVec 16) &&& ~~~0x8000 = 0x4000 by decide)
  have h3 := or_and_of_subset (show (0x4000 : BitVec 16) &&& ~~~0x3800 = 0x4000 by decide)
  simp only [maskFc, isData_congr (sameControl_mark fc), isQos_congr (sameControl_mark fc)]
  split_ifs <;> simp only [h1, h2, h3, BitVec.or_assoc, BitVec.or_self]

/-- The frame with another frame control. -/
def withFc (v : BitVec 16) (hdr : List Byte) : List Byte := putLe16 v ++ hdr.drop 2

theorem getD_withFc (v : BitVec 16) {i : ℕ} (hi : 2 ≤ i) :
    (withFc v hdr).getD i 0 = hdr.getD i 0 := by
  obtain ⟨k, rfl⟩ := Nat.exists_eq_add_of_le hi
  simp [withFc, putLe16, List.getD_eq_getElem?_getD, Nat.add_comm 2 k]

theorem getLe16_putLe16 (v : BitVec 16) (l : List Byte) : getLe16 (putLe16 v ++ l) 0 = v := by
  ext i hi
  grind [getLe16, putLe16]

theorem getLe16_withFc (v : BitVec 16) : getLe16 (withFc v hdr) 0 = v := getLe16_putLe16 v _

theorem getLe16_withFc_of_le (v : BitVec 16) {i : ℕ} (hi : 2 ≤ i) :
    getLe16 (withFc v hdr) i = getLe16 hdr i := by
  rw [getLe16, getLe16, getD_withFc v hi, getD_withFc v (by omega)]

theorem drop_withFc (v : BitVec 16) {i : ℕ} (hi : 2 ≤ i) : (withFc v hdr).drop i = hdr.drop i := by
  obtain ⟨k, rfl⟩ := Nat.exists_eq_add_of_le hi
  simp [withFc, putLe16, Nat.add_comm 2 k]

/-- Headers with the same additional data and nonce. -/
structure SameHeader (s : Suite) (hdr hdr' : List Byte) : Prop where
  control : SameControl (getLe16 hdr 0) (getLe16 hdr' 0)
  mask : maskFc (getLe16 hdr 0) ||| (if s.isCcmp then 0x4000 else 0) =
    maskFc (getLe16 hdr' 0) ||| (if s.isCcmp then 0x4000 else 0)
  addresses : slice hdr 4 18 = slice hdr' 4 18
  fragment : getLe16 hdr 22 &&& ~~~0xfff0 = getLe16 hdr' 22 &&& ~~~0xfff0
  rest : hdr.drop 24 = hdr'.drop 24

theorem aadNonce_of_same {hdr' : List Byte} (h : SameHeader s hdr hdr') :
    s.aadNonce spp hdr data = s.aadNonce spp hdr' data := by
  obtain ⟨hcontrol, hmask, haddr, hfrag, hrest⟩ := h
  have hdata := isData_congr hcontrol
  have hqos := isQos_congr hcontrol
  have haddr4 := hasAddr4_congr hcontrol
  have hmgmt : isMgmt (getLe16 hdr 0) = isMgmt (getLe16 hdr' 0) := by
    rw [isMgmt, isMgmt, hcontrol.type]
  have hqc : hdr.getD (qosOffset (getLe16 hdr 0)) 0 = hdr'.getD (qosOffset (getLe16 hdr' 0)) 0 := by
    have hget := fun i => congrArg (fun l => l.getD i 0) hrest
    simp only [List.getD_eq_getElem?_getD, List.getElem?_drop] at hget
    simp only [qosOffset, haddr4, List.getD_eq_getElem?_getD]
    split
    · exact hget 6
    · exact hget 0
  have hslice : slice hdr 24 6 = slice hdr' 24 6 := by rw [slice, slice, hrest]
  have hsecond : ∀ l : List Byte, slice l 10 6 = slice (slice l 4 18) 6 6 := fun l => by
    simp [slice, List.drop_take, List.take_take]
  have haad : ∀ fc', aadOf spp fc' hdr = aadOf spp fc' hdr' := fun fc' => by
    simp only [aadOf, haddr, hfrag, hqc, hqos, haddr4, hslice]
  have hnonce : pnNonce hdr data = pnNonce hdr' data := by
    simp only [pnNonce, hsecond, haddr]
  have hflags : nonceFlags hdr = nonceFlags hdr' := by
    simp only [nonceFlags, hdata, hqos, hmgmt, hqc]
  rw [Suite.aadNonce, Suite.aadNonce]
  cases hs : s.isCcmp with
  | true =>
    rw [hs, if_pos rfl] at hmask
    rw [if_pos rfl, if_pos rfl]
    simp only [ccmpAadNonce, haad, hnonce, hflags, hmask]
  | false =>
    have hzero : ∀ x : BitVec 16, x ||| 0 = x := fun _ => BitVec.or_zero
    rw [hs, if_neg Bool.false_ne_true, hzero, hzero] at hmask
    rw [if_neg Bool.false_ne_true, if_neg Bool.false_ne_true]
    simp only [gcmpAadNonce, haad, hnonce, hmask]

/-- Marking a frame as protected does not change what is authenticated. -/
theorem aadNonce_mark : s.aadNonce spp (s.mark hdr) data = s.aadNonce spp hdr data := by
  rw [Suite.mark]
  split
  · rename_i hs
    refine aadNonce_of_same ⟨?_, ?_, ?_, ?_, ?_⟩
    · exact (getLe16_withFc _).symm ▸ sameControl_mark _
    · rw [hs, if_pos rfl]
      exact (getLe16_withFc _).symm ▸ maskFc_mark _
    · rw [slice, slice]
      exact congrArg _ (drop_withFc _ (by decide))
    · exact congrArg (· &&& ~~~0xfff0) (getLe16_withFc_of_le _ (by decide))
    · exact drop_withFc _ (by decide)
  · rfl

theorem length_mark (h : 2 ≤ hdr.length) : (s.mark hdr).length = hdr.length := by
  rw [Suite.mark]
  split
  · simp only [putLe16, List.length_append, List.length_cons, List.length_nil, List.length_drop]
    omega
  · rfl

theorem drop_mark {n : ℕ} (h : 2 ≤ n) : (s.mark hdr).drop n = hdr.drop n := by
  rw [Suite.mark]
  split
  · exact drop_withFc _ h
  · rfl

theorem mark_append {l : List Byte} (h : 2 ≤ hdr.length) :
    s.mark (hdr ++ l) = s.mark hdr ++ l := by
  rw [Suite.mark, Suite.mark]
  split
  · have hfc : getLe16 (hdr ++ l) 0 = getLe16 hdr 0 := by
      rw [getLe16, getLe16, List.getD_append _ _ _ _ (by omega),
        List.getD_append _ _ _ _ (by omega)]
    rw [hfc, List.drop_append_of_le_length h, List.append_assoc]
  · rfl

end Mark

section Round

variable {s : Suite} {spp : Bool} {tk frame out : List Byte} {hdrlen : ℕ}

/-- A frame is its header with the IV, its payload and its MIC. -/
theorem frame_parts {n mic : ℕ} (h : n + mic ≤ frame.length) : frame = frame.take n ++
    (slice frame n (frame.length - n - mic) ++ frame.drop (frame.length - mic)) := by
  have hdrop : frame.drop (frame.length - mic) =
      (frame.drop n).drop (frame.length - n - mic) := by
    rw [List.drop_drop]
    congr 1
    omega
  rw [slice, hdrop, List.take_append_drop, List.take_append_drop]

/-- What encryption does to a frame with room for the MIC. -/
theorem encryptInPlace_eq_some_iff (hhdr : 24 ≤ hdrlen) {plen : ℕ}
    (hlen : hdrlen + 8 + plen + s.micLen = frame.length) :
    encryptInPlace s spp tk hdrlen frame plen = some out ↔
      ∃ c t, s.ae tk (s.aadNonce spp frame (frame.drop hdrlen)).2 (slice frame (hdrlen + 8) plen)
        (s.aadNonce spp frame (frame.drop hdrlen)).1 = some (c, t) ∧
          out = s.mark (frame.take (hdrlen + 8)) ++ (c ++ t) := by
  have hhead : s.aadNonce spp (s.mark (frame.take (hdrlen + 8)))
      ((s.mark (frame.take (hdrlen + 8))).drop hdrlen) =
        s.aadNonce spp frame (frame.drop hdrlen) := by
    rw [aadNonce_mark, drop_mark (by omega), List.drop_take]
    refine aadNonce_congr ?_ ?_
    · rw [List.take_take, min_eq_left (by omega)]
    · rw [List.take_take, min_eq_left (by omega)]
  have hplen : (slice frame (hdrlen + 8) plen).length = plen := by
    rw [slice, List.length_take, List.length_drop]
    omega
  have hmark : (s.mark (frame.take (hdrlen + 8))).length = hdrlen + 8 := by
    rw [length_mark (by rw [List.length_take]; omega), List.length_take]
    omega
  rw [encryptInPlace, encrypt, if_neg (by omega), Nat.add_sub_cancel_left]
  simp only [hhead, Option.map_map, Option.map_eq_some_iff, Function.comp_apply]
  constructor
  · rintro ⟨⟨c, t⟩, hae, rfl⟩
    refine ⟨c, t, hae, ?_⟩
    obtain ⟨hc, ht⟩ := length_ae hae
    rw [List.drop_of_length_le, List.append_nil]
    simp only [List.length_append, hmark]
    omega
  · rintro ⟨c, t, hae, rfl⟩
    refine ⟨(c, t), hae, ?_⟩
    obtain ⟨hc, ht⟩ := length_ae hae
    rw [List.drop_of_length_le, List.append_nil]
    simp only [List.length_append, hmark]
    omega

/-- What decryption does to a frame. -/
theorem decryptInPlace_eq (hlen : hdrlen + 8 + s.micLen ≤ frame.length) :
    decryptInPlace s spp tk hdrlen frame = some out ↔
      ∃ plain, s.ae tk (s.aadNonce spp frame (frame.drop hdrlen)).2 plain
        (s.aadNonce spp frame (frame.drop hdrlen)).1 =
          some (slice frame (hdrlen + 8) (frame.length - (hdrlen + 8) - s.micLen),
            frame.drop (frame.length - s.micLen)) ∧
          out = frame.take (hdrlen + 8) ++ (plain ++ frame.drop (frame.length - s.micLen)) := by
  have hdata : (frame.drop hdrlen).length - 8 - s.micLen =
      frame.length - (hdrlen + 8) - s.micLen := by
    rw [List.length_drop]
    omega
  have hmic : (frame.drop hdrlen).drop (8 + (frame.length - (hdrlen + 8) - s.micLen)) =
      frame.drop (frame.length - s.micLen) := by
    rw [List.drop_drop]
    congr 1
    omega
  have hslice : ∀ n, slice (frame.drop hdrlen) 8 n = slice frame (hdrlen + 8) n := fun n => by
    rw [slice, slice, List.drop_drop]
  have hauth : (frame.drop (frame.length - s.micLen)).length = s.micLen := by
    rw [List.length_drop]
    omega
  rw [decryptInPlace, decrypt, if_neg (by rw [List.length_drop]; omega)]
  simp only [hdata, hmic, hslice, Option.map_eq_some_iff, ad_eq_some_iff hauth]
  refine exists_congr fun plain => and_congr_right fun hae => ?_
  have hlast : hdrlen + 8 + plain.length = frame.length - s.micLen := by
    have := (length_ae hae).1
    rw [slice, List.length_take, List.length_drop] at this
    omega
  rw [hlast, eq_comm]

theorem le_length_of_encryptInPlace {plen : ℕ}
    (h : encryptInPlace s spp tk hdrlen frame plen = some out) :
    (s.mark (frame.take (hdrlen + 8))).length + s.micLen ≤ out.length := by
  rw [encryptInPlace, encrypt] at h
  split at h
  · cases h
  · simp only [Option.map_map, Option.map_eq_some_iff, Function.comp_apply] at h
    obtain ⟨⟨c, t⟩, hae, rfl⟩ := h
    have ht := (length_ae hae).2
    simp only [List.length_append]
    omega

theorem aadNonce_of_take (hhdr : 24 ≤ hdrlen)
    (h : out.take (hdrlen + 8) = frame.take (hdrlen + 8)) :
    s.aadNonce spp out (out.drop hdrlen) = s.aadNonce spp frame (frame.drop hdrlen) := by
  refine aadNonce_congr ?_ ?_
  · have hle := congrArg (List.take 32) h
    rwa [List.take_take, List.take_take, min_eq_left (by omega)] at hle
  · have hdrop := congrArg (List.drop hdrlen) h
    rwa [List.drop_take, List.drop_take, Nat.add_sub_cancel_left] at hdrop

/-- A frame without room for its MIC is nothing that encryption makes. -/
theorem encryptInPlace_ne_of_short (hhdr : 24 ≤ hdrlen) {plen : ℕ}
    (hshort : frame.length < hdrlen + 8 + s.micLen)
    (htake : out.take (hdrlen + 8) = frame.take (hdrlen + 8)) :
    encryptInPlace s spp tk hdrlen out plen ≠ some (s.mark frame) := by
  intro henc
  have hmic : 0 < s.micLen := by cases s <;> decide
  have hle := le_length_of_encryptInPlace henc
  rw [htake] at hle
  by_cases hhead : frame.length ≤ hdrlen + 8
  · rw [List.take_of_length_le hhead] at hle
    omega
  · rw [length_mark (by rw [List.length_take]; omega), length_mark (by omega),
      List.length_take] at hle
    omega

/-- What is decrypted is what is encrypted to the frame: under CCMP to the frame with its protected
bit set, under GCMP to the frame as it is. -/
theorem decryptInPlace_eq_some_iff (hhdr : 24 ≤ hdrlen) :
    decryptInPlace s spp tk hdrlen frame = some out ↔
      out.length = frame.length ∧ out.take (hdrlen + 8) = frame.take (hdrlen + 8) ∧
        out.drop (frame.length - s.micLen) = frame.drop (frame.length - s.micLen) ∧
        encryptInPlace s spp tk hdrlen out (frame.length - (hdrlen + 8) - s.micLen) =
          some (s.mark frame) := by
  by_cases hlen : hdrlen + 8 + s.micLen ≤ frame.length
  · have hparts := frame_parts hlen
    have hhead : (frame.take (hdrlen + 8)).length = hdrlen + 8 := by
      rw [List.length_take]
      omega
    have hmark : s.mark frame = s.mark (frame.take (hdrlen + 8)) ++
        (slice frame (hdrlen + 8) (frame.length - (hdrlen + 8) - s.micLen) ++
          frame.drop (frame.length - s.micLen)) := by
      rw [← mark_append (by rw [hhead]; omega), ← hparts]
    rw [decryptInPlace_eq hlen]
    constructor
    · rintro ⟨plain, hae, rfl⟩
      have hplain := (length_ae hae).1
      rw [slice, List.length_take, List.length_drop] at hplain
      have hout : (frame.take (hdrlen + 8) ++
          (plain ++ frame.drop (frame.length - s.micLen))).length = frame.length := by
        rw [List.length_append, List.length_append, hhead, List.length_drop]
        omega
      have htake : (frame.take (hdrlen + 8) ++
          (plain ++ frame.drop (frame.length - s.micLen))).take (hdrlen + 8) =
            frame.take (hdrlen + 8) := List.take_left' hhead
      refine ⟨hout, htake, ?_, ?_⟩
      · rw [← List.append_assoc]
        exact List.drop_left' (by rw [List.length_append, hhead]; omega)
      · refine (encryptInPlace_eq_some_iff hhdr (by rw [hout]; omega)).mpr
          ⟨slice frame (hdrlen + 8) (frame.length - (hdrlen + 8) - s.micLen),
            frame.drop (frame.length - s.micLen), ?_, ?_⟩
        · rw [aadNonce_of_take hhdr htake, slice, List.drop_left' hhead,
            List.take_left' (by omega)]
          exact hae
        · rw [htake]
          exact hmark
    · rintro ⟨hout, htake, hdrop, henc⟩
      obtain ⟨c, t, hae, hsent⟩ := (encryptInPlace_eq_some_iff hhdr (by omega)).mp henc
      have hpl : (slice out (hdrlen + 8) (frame.length - (hdrlen + 8) - s.micLen)).length =
          frame.length - (hdrlen + 8) - s.micLen := by
        rw [slice, List.length_take, List.length_drop]
        omega
      have hc := (length_ae hae).1
      rw [htake, hmark] at hsent
      obtain ⟨hslice, hmic⟩ := List.append_inj (List.append_cancel_left hsent)
        (by rw [hc, hpl, slice, List.length_take, List.length_drop]; omega)
      rw [aadNonce_of_take hhdr htake, ← hslice, ← hmic] at hae
      refine ⟨slice out (hdrlen + 8) (frame.length - (hdrlen + 8) - s.micLen), hae, ?_⟩
      have houtparts := @frame_parts out (hdrlen + 8) s.micLen (by omega)
      rw [hout, htake, hdrop] at houtparts
      exact houtparts
  · have hnone : decryptInPlace s spp tk hdrlen frame = none := by
      rw [decryptInPlace, decrypt, if_pos (by rw [List.length_drop]; omega), Option.map_none]
    rw [hnone]
    constructor
    · intro h
      cases h
    · rintro ⟨-, htake, -, henc⟩
      exact absurd henc (encryptInPlace_ne_of_short hhdr (by omega) htake)

theorem take_mark {n : ℕ} (h : 2 ≤ n) (hn : n ≤ frame.length) :
    (s.mark frame).take n = s.mark (frame.take n) := by
  have hlen : (frame.take n).length = n := List.length_take_of_le hn
  have happ := @mark_append s (frame.take n) (frame.drop n) (by omega)
  rw [List.take_append_drop] at happ
  rw [happ, List.take_left' (by rw [length_mark (by omega), hlen])]

/-- What is encrypted is decrypted to what it was, with its protected bit set. -/
theorem decryptInPlace_of_encryptInPlace (hhdr : 24 ≤ hdrlen) {plen : ℕ}
    (hlen : hdrlen + 8 + plen + s.micLen = frame.length)
    (henc : encryptInPlace s spp tk hdrlen frame plen = some out) :
    decryptInPlace s spp tk hdrlen out = some (s.mark (frame.take (hdrlen + 8)) ++
      (slice frame (hdrlen + 8) plen ++ out.drop (out.length - s.micLen))) := by
  obtain ⟨c, t, hae, rfl⟩ := (encryptInPlace_eq_some_iff hhdr hlen).mp henc
  obtain ⟨hc, ht⟩ := length_ae hae
  have hplen : (slice frame (hdrlen + 8) plen).length = plen := by
    rw [slice, List.length_take, List.length_drop]
    omega
  have hmark : (s.mark (frame.take (hdrlen + 8))).length = hdrlen + 8 := by
    rw [length_mark (by rw [List.length_take]; omega), List.length_take]
    omega
  have hout : (s.mark (frame.take (hdrlen + 8)) ++ (c ++ t)).length = frame.length := by
    simp only [List.length_append, hmark]
    omega
  have hnonce : s.aadNonce spp (s.mark (frame.take (hdrlen + 8)) ++ (c ++ t))
      ((s.mark (frame.take (hdrlen + 8)) ++ (c ++ t)).drop hdrlen) =
        s.aadNonce spp frame (frame.drop hdrlen) := by
    have htake : (s.mark (frame.take (hdrlen + 8)) ++ (c ++ t)).take (hdrlen + 8) =
        (s.mark frame).take (hdrlen + 8) := by
      rw [List.take_left' hmark, take_mark (by omega) (by omega)]
    rw [aadNonce_of_take hhdr htake, aadNonce_mark, drop_mark (by omega)]
  refine (decryptInPlace_eq (by omega)).mpr ⟨slice frame (hdrlen + 8) plen, ?_, ?_⟩
  · rw [hnonce, hae, ← List.append_assoc, List.drop_left' (by simp [hmark]; omega), slice,
      List.append_assoc, List.drop_left' hmark, List.take_left' (by simp [hmark]; omega)]
  · rw [List.take_left' hmark]

theorem decryptInPlace_zeros :
    decryptInPlace .ccmp false (List.replicate 16 0) 24 (List.replicate 48 0) =
        some (List.replicate 48 0) ↔
      (List.replicate 48 (0 : Byte)).length = (List.replicate 48 (0 : Byte)).length ∧
        (List.replicate 48 (0 : Byte)).take 32 = (List.replicate 48 0).take 32 ∧
        (List.replicate 48 (0 : Byte)).drop 40 = (List.replicate 48 0).drop 40 ∧
        encryptInPlace .ccmp false (List.replicate 16 0) 24 (List.replicate 48 0) 8 =
          some (Suite.ccmp.mark (List.replicate 48 0)) :=
  decryptInPlace_eq_some_iff (by decide)

/-- A frame that is sent again: other retry, power management and more data bits, another duration
and another sequence number. -/
def retransmit (flags dur sn : BitVec 16) (frame : List Byte) : List Byte :=
  putLe16 (getLe16 frame 0 &&& ~~~0x3800 ||| flags &&& 0x3800) ++ (putLe16 dur ++
    (slice frame 4 18 ++ (putLe16 (getLe16 frame 22 &&& 0x000f ||| sn &&& 0xfff0) ++
      frame.drop 24)))

section Retransmit

variable (flags dur sn : BitVec 16)

def retransmitHead (frame : List Byte) : List Byte :=
  putLe16 (getLe16 frame 0 &&& ~~~0x3800 ||| flags &&& 0x3800) ++ (putLe16 dur ++
    (slice frame 4 18 ++ putLe16 (getLe16 frame 22 &&& 0x000f ||| sn &&& 0xfff0)))

theorem retransmit_eq : retransmit flags dur sn frame =
    retransmitHead flags dur sn frame ++ frame.drop 24 := by
  simp only [retransmit, retransmitHead, List.append_assoc]

theorem length_retransmitHead (h : 24 ≤ frame.length) :
    (retransmitHead flags dur sn frame).length = 24 := by
  simp only [retransmitHead, putLe16, slice, List.length_append, List.length_cons,
    List.length_nil, List.length_take, List.length_drop]
  omega

theorem drop_retransmit (h : 24 ≤ frame.length) {n : ℕ} (hn : 24 ≤ n) :
    (retransmit flags dur sn frame).drop n = frame.drop n := by
  obtain ⟨k, rfl⟩ := Nat.exists_eq_add_of_le hn
  rw [retransmit_eq, ← List.drop_drop, List.drop_left' (length_retransmitHead _ _ _ h),
    List.drop_drop]

theorem length_slice_addresses (h : 24 ≤ frame.length) : (slice frame 4 18).length = 18 := by
  rw [slice, List.length_take, List.length_drop]
  omega

theorem getLe16_drop (l : List Byte) (n : ℕ) : getLe16 (l.drop n) 0 = getLe16 l n := by
  simp [getLe16, List.getD_eq_getElem?_getD, List.getElem?_drop]

/-- Bits that are replaced by others are not seen outside their mask. -/
theorem replace_and {k m : BitVec 16} (h : k &&& m = 0) (x y : BitVec 16) :
    (x &&& ~~~k ||| y &&& k) &&& m = x &&& m := by
  ext i hi
  have hbit := congrArg (fun v : BitVec 16 => v[i]) h
  simp only [BitVec.getElem_and] at hbit
  cases hk : k[i] <;> cases hm : m[i] <;> simp_all

theorem clear_congr {x y k : BitVec 16} (h : x &&& ~~~k = y &&& ~~~k) (a : BitVec 16) :
    x &&& a &&& ~~~k = y &&& a &&& ~~~k := by
  rw [BitVec.and_assoc, BitVec.and_comm a, ← BitVec.and_assoc, h, BitVec.and_assoc,
    BitVec.and_comm _ a, ← BitVec.and_assoc]

theorem maskFc_congr {fc fc' : BitVec 16} (hcontrol : SameControl fc fc')
    (h : fc &&& ~~~0x3800 = fc' &&& ~~~0x3800) : maskFc fc = maskFc fc' := by
  simp only [maskFc, isData_congr hcontrol, isQos_congr hcontrol]
  split_ifs
  · rw [BitVec.and_assoc fc, BitVec.and_assoc fc', clear_congr h]
  · rw [clear_congr h]
  · rw [clear_congr h]
  · exact h

theorem sameControl_retransmit (fc : BitVec 16) :
    SameControl (fc &&& ~~~0x3800 ||| flags &&& 0x3800) fc where
  type := replace_and (by decide) fc flags
  qos := replace_and (by decide) fc flags
  addr4 := replace_and (by decide) fc flags

theorem sameHeader_retransmit (h : 24 ≤ frame.length) :
    SameHeader s (retransmit flags dur sn frame) frame where
  control := by
    rw [retransmit, getLe16_putLe16]
    exact sameControl_retransmit flags _
  mask := by
    rw [retransmit, getLe16_putLe16,
      maskFc_congr (sameControl_retransmit flags _) (replace_and (by decide) _ flags)]
  addresses := by
    have hfront : ∀ v : BitVec 16, (putLe16 v ++ putLe16 dur).length = 4 := fun _ => rfl
    rw [retransmit, slice, ← List.append_assoc, List.drop_left' (hfront _),
      List.take_left' (length_slice_addresses h)]
  fragment := by
    have hfront : ∀ v : BitVec 16,
        (putLe16 v ++ (putLe16 dur ++ slice frame 4 18)).length = 22 := fun _ => by
      simp [putLe16, length_slice_addresses h]
    have hmask : (0x000f : BitVec 16) = ~~~0xfff0 := by decide
    rw [← getLe16_drop, retransmit, ← List.append_assoc (putLe16 dur), ← List.append_assoc,
      List.drop_left' (hfront _), getLe16_putLe16, hmask]
    exact replace_and (by decide) _ sn
  rest := drop_retransmit flags dur sn h le_rfl

theorem retransmitHead_append {l : List Byte} (h : 24 ≤ frame.length) :
    retransmitHead flags dur sn (frame ++ l) = retransmitHead flags dur sn frame := by
  have hget : ∀ i < 24, (frame ++ l).getD i 0 = frame.getD i 0 := fun i hi =>
    List.getD_append _ _ _ _ (by omega)
  have hslice : slice (frame ++ l) 4 18 = slice frame 4 18 := by
    rw [slice, List.drop_append_of_le_length (by omega),
      List.take_append_of_le_length (by rw [List.length_drop]; omega), slice]
  simp only [retransmitHead, getLe16, hslice]
  rw [hget _ (by decide), hget _ (by decide), hget _ (by decide), hget _ (by decide)]

theorem retransmit_append {l : List Byte} (h : 24 ≤ frame.length) :
    retransmit flags dur sn (frame ++ l) = retransmit flags dur sn frame ++ l := by
  rw [retransmit_eq, retransmit_eq, retransmitHead_append _ _ _ h,
    List.drop_append_of_le_length h, List.append_assoc]

/-- A frame that is sent again is decrypted as the first one was. -/
theorem decryptInPlace_retransmit (hhdr : 24 ≤ hdrlen) (h : 24 ≤ frame.length) :
    decryptInPlace s spp tk hdrlen (retransmit flags dur sn frame) =
      (decryptInPlace s spp tk hdrlen frame).map (retransmit flags dur sn) := by
  have hdrop : ∀ n, 24 ≤ n → (retransmit flags dur sn frame).drop n = frame.drop n :=
    fun n hn => drop_retransmit flags dur sn h hn
  have hdec : decrypt s spp tk (retransmit flags dur sn frame)
      ((retransmit flags dur sn frame).drop hdrlen) =
        decrypt s spp tk frame (frame.drop hdrlen) := by
    rw [hdrop _ hhdr, decrypt, decrypt]
    simp only [aadNonce_of_same (sameHeader_retransmit flags dur sn h)]
  rw [decryptInPlace, decryptInPlace, hdec, Option.map_map]
  cases hplain : decrypt s spp tk frame (frame.drop hdrlen) with
  | none => rfl
  | some plain =>
    have hlen : hdrlen + 8 ≤ frame.length := by
      by_contra hshort
      rw [decrypt, if_pos (by rw [List.length_drop]; omega)] at hplain
      cases hplain
    have hhead : 24 ≤ (frame.take (hdrlen + 8)).length := by
      rw [List.length_take]
      omega
    have htake : (retransmit flags dur sn frame).take (hdrlen + 8) =
        retransmit flags dur sn (frame.take (hdrlen + 8)) := by
      have happ := @retransmit_append (frame.take (hdrlen + 8)) flags dur sn
        (frame.drop (hdrlen + 8)) hhead
      rw [List.take_append_drop] at happ
      rw [happ]
      refine List.take_left' ?_
      rw [retransmit_eq, List.length_append, length_retransmitHead _ _ _ hhead, List.length_drop,
        List.length_take]
      omega
    rw [Option.map_some, Option.map_some, Function.comp_apply, retransmit_append _ _ _ hhead,
      htake, hdrop _ (by omega)]

end Retransmit

theorem decryptInPlace_retransmit_zeros :
    decryptInPlace .gcmp false (List.replicate 16 0) 24
        (retransmit 0x0800 1 0x0010 (List.replicate 56 0)) =
      (decryptInPlace .gcmp false (List.replicate 16 0) 24 (List.replicate 56 0)).map
        (retransmit 0x0800 1 0x0010) :=
  decryptInPlace_retransmit 0x0800 1 0x0010 (by decide) (by decide)

end Round

end Rtl8821cu.CryptFrame
