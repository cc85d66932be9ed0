import Rtl8821cu.Amsdu

/-! What `amsdu_to_msdu` makes of an A-MSDU of `rtw_xmitframe_coalesce_amsdu`. -/
namespace Rtl8821cu.Amsdu
open Bytes XmitFrag

section Layout

variable (m : Msdu) (tail : List (BitVec 8))

@[simp] theorem length_rtwPutSnap (t : BitVec 16) : (rtwPutSnap t).length = 8 := rfl

theorem length_subframe : m.subframe.length = ethHlen + m.len := by
  simp only [Msdu.subframe, Msdu.len, List.length_append, Vector.length_toList, length_be16,
    length_rtwPutSnap, ethHlen, snapSize]
  omega

/-- The fields of the subframe at the front of a byte string. -/
theorem subframe_append : m.subframe ++ tail = m.hdrDa.toList ++ (m.hdrSa.toList ++
    (be16 m.len ++ (m.mctrl ++ (rtwPutSnap m.etherType ++ (m.payload ++ tail))))) := by
  simp [Msdu.subframe, List.append_assoc]

theorem take_hdrDa : (m.subframe ++ tail).take 6 = m.hdrDa.toList := by
  rw [subframe_append, List.take_append_of_le_length (by simp), List.take_of_length_le (by simp)]

theorem take_hdrSa : ((m.subframe ++ tail).drop 6).take 6 = m.hdrSa.toList := by
  rw [subframe_append, List.drop_left' (by simp), List.take_append_of_le_length (by simp),
    List.take_of_length_le (by simp)]

/-- What stands behind the subframe header. -/
theorem drop_ethHlen : (m.subframe ++ tail).drop ethHlen =
    m.mctrl ++ (rtwPutSnap m.etherType ++ (m.payload ++ tail)) := by
  rw [subframe_append, ← List.append_assoc, ← List.append_assoc]
  exact List.drop_left' (by simp [ethHlen])

theorem drop_mctrl : (m.subframe ++ tail).drop (ethHlen + m.mctrl.length) =
    rtwPutSnap m.etherType ++ (m.payload ++ tail) := by
  rw [← List.drop_drop, drop_ethHlen]
  exact List.drop_left' rfl

theorem drop_subframe : (m.subframe ++ tail).drop (ethHlen + m.len) = tail :=
  List.drop_left' (length_subframe m)

theorem getBe16_len (hlen : m.len < 65536) : getBe16 (m.subframe ++ tail) 12 = m.len := by
  rw [subframe_append, ← List.append_assoc]
  exact getBe16_be16 hlen _ _ (by simp)

end Layout

section Llc

theorem take_rtwPutSnap (t : BitVec 16) (l : List (BitVec 8)) :
    (rtwPutSnap t ++ l).take snapSize =
      if t = 0x8137 ∨ t = 0x80f3 then rtwBridgeTunnelHeader else rtwRfc1042Header := by
  unfold rtwPutSnap
  split_ifs <;> rfl

/-- The encapsulation of every EtherType is recognised. -/
theorem rtwRecvLlcParse_rtwPutSnap (t : BitVec 16) (l : List (BitVec 8)) {n : ℕ} (hn : 8 ≤ n) :
    rtwRecvLlcParse (rtwPutSnap t ++ l) n = true := by
  have htype : getBe16 (rtwPutSnap t ++ l) snapSize = t.toNat := by
    simp only [getBe16, rtwPutSnap, snapSize, List.cons_append, List.getD_cons_succ,
      List.getD_cons_zero, BitVec.extractLsb'_toNat]
    have := t.isLt
    omega
  rw [rtwRecvLlcParse, if_neg (by omega)]
  simp only [htype, take_rtwPutSnap]
  by_cases ht : t = 0x8137 ∨ t = 0x80f3
  · rw [if_pos ht, beq_self_eq_true, Bool.or_true]
  · rw [if_neg ht]
    rw [not_or] at ht
    have h1 : t.toNat ≠ 0x8137 := fun h => ht.1 (BitVec.eq_of_toNat_eq h)
    have h2 : t.toNat ≠ 0x80f3 := fun h => ht.2 (BitVec.eq_of_toNat_eq h)
    simp [h1, h2]

theorem rtwOsAllocMsduPkt_rtwPutSnap (m : Msdu) (tail : List (BitVec 8)) :
    rtwOsAllocMsduPkt m.dst.toList m.src.toList
      (rtwPutSnap m.etherType ++ (m.payload ++ tail)) (snapSize + 2 + m.payload.length) true =
      m.eth := by
  have htake : (rtwPutSnap m.etherType ++ (m.payload ++ tail)).take
      (snapSize + 2 + m.payload.length) = rtwPutSnap m.etherType ++ m.payload := by
    rw [← List.append_assoc]
    exact List.take_left' (by simp [snapSize])
  have hbytes : (rtwPutSnap m.etherType).drop snapSize = be16 m.etherType.toNat := by
    have hlo : m.etherType.extractLsb' 0 8 = BitVec.ofNat 8 m.etherType.toNat := by
      apply BitVec.eq_of_toNat_eq
      simp [BitVec.extractLsb'_toNat]
    have hhi : m.etherType.extractLsb' 8 8 = BitVec.ofNat 8 (m.etherType.toNat / 256) := by
      apply BitVec.eq_of_toNat_eq
      simp [BitVec.extractLsb'_toNat, Nat.shiftRight_eq_div_pow]
    simp [rtwPutSnap, snapSize, be16, hlo, hhi]
  rw [rtwOsAllocMsduPkt, htake, if_pos rfl, List.drop_append_of_le_length (by simp [snapSize]),
    hbytes, Msdu.eth, List.append_assoc, List.append_assoc, List.append_assoc]

end Llc

section Subframe

variable {c : Rx} {m : Msdu}

/-- The receiver is a mesh point if the sender is, and then the frame has four addresses. -/
structure SameKind (c : Rx) (m : Msdu) : Prop where
  mesh : c.mesh = m.mesh.isSome
  toFrDs : c.mesh = true → c.toFrDs = 3

/-- The receiver's checks let the MSDU through to the host. -/
structure Accepts (c : Rx) (m : Msdu) : Prop where
  content : validateAmsduContent c m.dst.toList m.src.toList = true
  indicate : ∀ msdu, (c.act m.dst.toList m.src.toList msdu true).indicate = true
  alloc : ∀ n, c.alloc n = true

theorem addrsOf_subframe (hk : SameKind c m) (tail oldDa oldSa : List (BitVec 8)) :
    addrsOf c (m.subframe ++ tail) oldDa oldSa =
      ⟨true, m.dst.toList, m.src.toList, m.mctrl.length⟩ := by
  unfold addrsOf
  simp only [take_hdrDa, take_hdrSa, drop_ethHlen]
  cases hm : m.mesh with
  | none =>
    have hc : c.mesh = false := by rw [hk.mesh, hm]; rfl
    simp [hc, Msdu.hdrDa, Msdu.hdrSa, Msdu.mctrl, hm]
  | some a =>
    have hc : c.mesh = true := by rw [hk.mesh, hm]; rfl
    obtain ⟨mode, ttl, seqnum⟩ := a
    cases mode with
    | data =>
      simp [hc, rtwMeshRxDataValidateMctrl, hk.toFrDs hc, Msdu.hdrDa, Msdu.hdrSa, Msdu.mctrl, hm,
        aeToMeshCtrlLen]
    | px mda msa =>
      have hd : ∀ l, List.drop 6 ([2, ttl] ++ leBytes 4 seqnum.toNat ++ m.dst.toList ++
          m.src.toList ++ l) = m.dst.toList ++ (m.src.toList ++ l) := by
        intro l
        rw [List.append_assoc, List.append_assoc]
        exact List.drop_left' (by simp)
      have hs : ∀ l, List.drop 12 ([2, ttl] ++ leBytes 4 seqnum.toNat ++ m.dst.toList ++
          m.src.toList ++ l) = m.src.toList ++ l := by
        intro l
        rw [List.append_assoc]
        exact List.drop_left' (by simp)
      have hae : ∀ l, (([2, ttl] ++ leBytes 4 seqnum.toNat ++ m.dst.toList ++
          m.src.toList ++ l).getD 0 0).toNat % 4 = 2 := fun l => rfl
      simp only [hc, if_true, rtwMeshRxDataValidateMctrl, hk.toFrDs hc, Msdu.mctrl, hm, hd, hs, hae]
      simp [aeToMeshCtrlLen]

/-- A subframe that is accepted gives its Ethernet frame. -/
theorem rxSubframe_subframe (hk : SameKind c m) (ha : Accepts c m) (hlen : m.len < 65536)
    (tail oldDa oldSa : List (BitVec 8)) :
    rxSubframe c (m.subframe ++ tail) oldDa oldSa =
      some (some m.eth, ⟨true, m.dst.toList, m.src.toList, m.mctrl.length⟩) := by
  have hfit : ¬(m.subframe ++ tail).length < ethHlen + m.len := by
    rw [List.length_append, length_subframe]
    omega
  have hmsdu : (m.len + 65536 - m.mctrl.length) % 65536 = snapSize + 2 + m.payload.length := by
    unfold Msdu.len at hlen ⊢
    omega
  have hllc := rtwRecvLlcParse_rtwPutSnap m.etherType (m.payload ++ tail)
    (show 8 ≤ snapSize + 2 + m.payload.length by unfold snapSize; omega)
  unfold rxSubframe
  simp only [getBe16_len m tail hlen, hfit, if_false, addrsOf_subframe hk, ha.content, drop_mctrl,
    hmsdu, hllc, ha.indicate, ha.alloc, rtwOsAllocMsduPkt_rtwPutSnap]
  simp

/-- A subframe that fails the content check ends the A-MSDU. -/
theorem rxSubframe_rejected (hk : SameKind c m) (hlen : m.len < 65536)
    (hc : validateAmsduContent c m.dst.toList m.src.toList = false)
    (tail oldDa oldSa : List (BitVec 8)) :
    rxSubframe c (m.subframe ++ tail) oldDa oldSa = none := by
  have hfit : ¬(m.subframe ++ tail).length < ethHlen + m.len := by
    rw [List.length_append, length_subframe]
    omega
  unfold rxSubframe
  simp only [getBe16_len m tail hlen, hfit, if_false, addrsOf_subframe hk, hc, Bool.not_false,
    if_true]

theorem moveToNext_last (hlen : m.len < 65536) : moveToNext m.subframe = some [] := by
  have hn := getBe16_len m [] hlen
  have hd := drop_subframe m []
  rw [List.append_nil] at hn hd
  simp [moveToNext, hn, hd]

/-- The padding that the receiver skips is the one the sender left. -/
theorem moveToNext_padded (hlen : m.len < 65536) (mem : ℕ → BitVec 8) (rest : List (BitVec 8)) :
    moveToNext (m.subframe ++ ((List.range (paddingLen (ethHlen + m.len))).map mem ++ rest)) =
      some rest := by
  have hpad : ((List.range (paddingLen (ethHlen + m.len))).map mem).length =
      paddingLen (m.len + ethHlen) := by
    rw [List.length_map, List.length_range, add_comm]
  unfold moveToNext
  simp only [getBe16_len m _ hlen, drop_subframe]
  split_ifs with hne hlt
  · rw [List.length_append, hpad] at hlt
    omega
  · rw [List.drop_left' hpad]
  · rw [ne_eq, not_not, List.length_append, Nat.add_eq_zero_iff] at hne
    rw [List.eq_nil_of_length_eq_zero hne.1, List.eq_nil_of_length_eq_zero hne.2]
    rfl

theorem amsduLoop_cons (hk : SameKind c m) (ha : Accepts c m) (hlen : m.len < 65536)
    (tail oldDa oldSa : List (BitVec 8)) {rest : List (BitVec 8)} {nr : ℕ}
    (hnr : nr + 1 < maxSubframeCount) (hnext : moveToNext (m.subframe ++ tail) = some rest) :
    amsduLoop c nr oldDa oldSa (m.subframe ++ tail) =
      m.eth :: amsduLoop c (nr + 1) m.dst.toList m.src.toList rest := by
  have hlong : ethHlen < (m.subframe ++ tail).length := by
    rw [List.length_append, length_subframe]
    unfold Msdu.len snapSize
    omega
  rw [amsduLoop, dif_pos hlong, rxSubframe_subframe hk ha hlen]
  have hcount : ¬nr + (some m.eth).toList.length ≥ maxSubframeCount := by
    rw [Option.toList_some, List.length_singleton]
    omega
  dsimp only
  rw [if_neg hcount]
  refine congrArg (m.eth :: ·) ?_
  split
  · rename_i hnone
    rw [hnext] at hnone
    cases hnone
  · rename_i r hsome
    rw [hnext] at hsome
    obtain rfl := Option.some.inj hsome
    rfl

theorem amsduLoop_nil (nr : ℕ) (oldDa oldSa : List (BitVec 8)) :
    amsduLoop c nr oldDa oldSa [] = [] := by
  rw [amsduLoop, dif_neg (by simp)]

end Subframe

section RoundTrip

variable {c : Rx} {q m : Msdu}

theorem amsduToMsdu_single (hk : SameKind c m) (ha : Accepts c m) (hlen : m.len < 65536)
    (mem : ℕ → BitVec 8) (oldDa oldSa : List (BitVec 8)) :
    amsduToMsdu c oldDa oldSa (rtwXmitframeCoalesceAmsdu mem none m) = [m.eth] := by
  have hloop := amsduLoop_cons hk ha hlen [] oldDa oldSa
    (show 0 + 1 < maxSubframeCount by decide)
    (by rw [List.append_nil, moveToNext_last hlen])
  rw [List.append_nil, amsduLoop_nil] at hloop
  exact hloop

/-- An A-MSDU whose MSDUs the receiver accepts gives their Ethernet frames back, in order. -/
theorem amsdu_round_trip (mem : ℕ → BitVec 8) (oldDa oldSa : List (BitVec 8))
    (hkq : SameKind c q) (hkm : SameKind c m) (haq : Accepts c q) (ham : Accepts c m)
    (hfit : (rtwXmitframeCoalesceAmsdu mem (some q) m).length ≤ maxXmitbufSz) :
    amsduToMsdu c oldDa oldSa (rtwXmitframeCoalesceAmsdu mem (some q) m) = [q.eth, m.eth] ∧
      amsduToMsdu c oldDa oldSa (rtwXmitframeCoalesceAmsdu mem none m) = [m.eth] ∧
      ∀ (t : BitVec 16) l n, 8 ≤ n → rtwRecvLlcParse (rtwPutSnap t ++ l) n = true := by
  simp only [rtwXmitframeCoalesceAmsdu, List.length_append, length_subframe, maxXmitbufSz]
    at hfit
  have hq : q.len < 65536 := by omega
  have hm : m.len < 65536 := by omega
  refine ⟨?_, amsduToMsdu_single hkm ham hm mem oldDa oldSa,
    fun t l n hn => rtwRecvLlcParse_rtwPutSnap t l hn⟩
  have hnext := moveToNext_padded hq mem m.subframe
  have hfirst := amsduLoop_cons hkq haq hq _ oldDa oldSa
    (show 0 + 1 < maxSubframeCount by decide) hnext
  have hlast := amsduLoop_cons hkm ham hm [] q.dst.toList q.src.toList
    (show 1 + 1 < maxSubframeCount by decide)
    (by rw [List.append_nil, moveToNext_last hm])
  rw [List.append_nil, amsduLoop_nil] at hlast
  rw [amsduToMsdu, rtwXmitframeCoalesceAmsdu, List.append_assoc, hfirst, hlast]

/-- A receiver that indicates every subframe that passes the content check. -/
def indicating (nonSpp privacy : Bool) : Rx :=
  ⟨false, 1, Mac.ending 1, Mac.ending 2, nonSpp, privacy,
    fun _ _ _ _ => ⟨true, false⟩, fun _ => true⟩

/-- An MSDU to an address, with a payload of one byte. -/
def msduTo (dst : Mac) : Msdu := ⟨dst, Mac.ending 2, 0x0800, [0x45], none⟩

theorem amsdu_round_trip_open :
    amsduToMsdu (indicating false false) [] [] (rtwXmitframeCoalesceAmsdu (fun _ => 0)
        (some (msduTo #v[2, 0, 0, 0, 0, 3])) (msduTo #v[2, 0, 0, 0, 0, 1])) =
      [(msduTo #v[2, 0, 0, 0, 0, 3]).eth, (msduTo #v[2, 0, 0, 0, 0, 1]).eth] := by
  have hk : ∀ dst, SameKind (indicating false false) (msduTo dst) := fun dst =>
    ⟨rfl, fun h => by cases h⟩
  have ha : ∀ dst, Accepts (indicating false false) (msduTo dst) := fun dst =>
    ⟨rfl, fun _ => rfl, fun _ => rfl⟩
  exact (amsdu_round_trip (fun _ => 0) [] [] (hk _) (hk _) (ha _) (ha _) (by decide)).1

/-- On a protected network without signalled A-MSDUs a subframe to `AA:AA:03:00:00:00` ends the
A-MSDU, so that nothing of it is indicated. -/
theorem rfc1042_destination_dropped :
    ¬∀ (c : Rx) (q m : Msdu) (mem : ℕ → BitVec 8) (oldDa oldSa : List (BitVec 8)),
      SameKind c q → SameKind c m → (∀ n, c.alloc n = true) →
      (∀ da sa msdu llc, (c.act da sa msdu llc).indicate = true) →
      (rtwXmitframeCoalesceAmsdu mem (some q) m).length ≤ maxXmitbufSz →
      amsduToMsdu c oldDa oldSa (rtwXmitframeCoalesceAmsdu mem (some q) m) = [q.eth, m.eth] := by
  intro h
  have hk : ∀ dst, SameKind (indicating true true) (msduTo dst) := fun dst =>
    ⟨rfl, fun h => by cases h⟩
  have hpair := h (indicating true true) (msduTo #v[0xaa, 0xaa, 0x03, 0, 0, 0])
    (msduTo #v[2, 0, 0, 0, 0, 1]) (fun _ => 0) [] [] (hk _) (hk _) (fun _ => rfl)
    (fun _ _ _ _ => rfl) (by decide)
  have hnone := rxSubframe_rejected (hk #v[0xaa, 0xaa, 0x03, 0, 0, 0]) (by decide) (by decide)
  rw [rtwXmitframeCoalesceAmsdu, List.append_assoc, amsduToMsdu, amsduLoop, dif_pos (by decide),
    hnone] at hpair
  cases hpair

end RoundTrip

end Rtl8821cu.Amsdu
