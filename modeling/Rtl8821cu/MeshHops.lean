import Rtl8821cu.MeshWire
import Rtl8821cu.MeshTtl

/-! The addresses of mesh data frames survive the wire and any number of hops. -/
namespace Rtl8821cu.MeshFwd
open Store Bytes
open Amsdu (aeToMeshCtrlLen)

section Bytes

theorem length_mac (a : Mac) : a.toList.length = 6 := by simp

theorem macAt_of_holdsAt {m : Buf} {p : ℕ} {a : Mac} (h : HoldsAt m p a.toList) :
    macAt m p = a := by
  apply Vector.ext
  intro i hi
  have hcell := h i a[i] (by simp [hi])
  simpa [macAt] using hcell

theorem orAt_of_ne (m : Buf) {p i : ℕ} (v : BitVec 8) (h : i ≠ p) : orAt m p v i = m i :=
  store_of_disjoint m _ (by simp only [List.length_singleton]; omega)

theorem orAt_self (m : Buf) (p : ℕ) (v : BitVec 8) : orAt m p v p = m p ||| v := by
  simp [orAt, store]

end Bytes

section Header

variable {w : Wire} {a : Attrib} {hdrlen : ℕ} {m : Buf}

/-- The header before the addresses are written. -/
def blankHdr (m : Buf) : Buf := orAt (store m 0 (List.replicate 64 0)) 0 0x88

theorem blankHdr_zero (m : Buf) : blankHdr m 0 = 0x88 := by
  rw [blankHdr, orAt_self, store_replicate m 0 le_rfl (by omega)]
  rfl

theorem blankHdr_of_lt (m : Buf) {i : ℕ} (h0 : i ≠ 0) (hi : i < 64) : blankHdr m i = 0 := by
  rw [blankHdr, orAt_of_ne _ _ h0, store_replicate m 0 (by omega) (by omega)]

/-- The flags that are set behind the addresses. -/
def flagged (w : Wire) (m : Buf) : Buf :=
  let m := if w.mdata then orAt m 1 0x20 else m
  if w.encrypt then orAt m 1 0x40 else m

theorem makeWlanhdr_eq (w : Wire) (a : Attrib) (hdrlen : ℕ) (m : Buf) :
    makeWlanhdr w a hdrlen m =
      store (orAt (store (flagged w (meshTxBuildWhdr a (blankHdr m))) (hdrlen - 2) [w.qos])
        (hdrlen - 1) 0x01) 22 [w.seqCtl.1, w.seqCtl.2] := rfl

theorem flagged_of_ne (w : Wire) (m : Buf) {i : ℕ} (h : i ≠ 1) : flagged w m i = m i := by
  unfold flagged
  split_ifs <;> simp only [orAt_of_ne _ _ h]

theorem flagged_ds (w : Wire) (m : Buf) : flagged w m 1 &&& 0x3 = m 1 &&& 0x3 := by
  have hor : ∀ (x v : BitVec 8), v &&& 0x3 = 0#8 → (x ||| v) &&& 0x3 = x &&& 0x3 := by
    intro x v hv
    rw [BitVec.and_or_distrib_right, hv, BitVec.or_zero]
  unfold flagged
  split_ifs
  · rw [orAt_self, orAt_self, hor _ _ (by decide), hor _ _ (by decide)]
  · rw [orAt_self, hor _ _ (by decide)]
  · rw [orAt_self, hor _ _ (by decide)]
  · rfl

/-- What is written behind the addresses leaves them. -/
theorem makeWlanhdr_of_ne {i : ℕ} (h1 : i ≠ 1) (hseq : i < 22 ∨ 24 ≤ i) (hqos : i < hdrlen - 2)
    (w : Wire) (a : Attrib) (m : Buf) :
    makeWlanhdr w a hdrlen m i = meshTxBuildWhdr a (blankHdr m) i := by
  rw [makeWlanhdr_eq, store_of_disjoint _ _ (by simpa using hseq), orAt_of_ne _ _ (by omega),
    store_of_lt _ _ hqos, flagged_of_ne w _ h1]

theorem makeWlanhdr_holdsAt {q : ℕ} {l : List (BitVec 8)}
    (h : HoldsAt (meshTxBuildWhdr a (blankHdr m)) q l)
    (hq : 4 ≤ q ∧ q + l.length ≤ 22 ∨ 24 ≤ q) (hlen : q + l.length ≤ hdrlen - 2) (w : Wire) :
    HoldsAt (makeWlanhdr w a hdrlen m) q l := by
  apply h.congr
  intro i hi hi'
  exact makeWlanhdr_of_ne (by omega) (by omega) (by omega) w a m

/-- The header with four addresses. -/
theorem makeWlanhdr_ucast (hmode : a.meshFrameMode = .ucastData ∨ a.meshFrameMode = .ucastPxData)
    (w : Wire) (m : Buf) :
    makeWlanhdr w a 32 m 0 = 0x88 ∧ makeWlanhdr w a 32 m 1 &&& 0x3 = 0x3 ∧
      HoldsAt (makeWlanhdr w a 32 m) 4 a.ra.toList ∧
      HoldsAt (makeWlanhdr w a 32 m) 10 a.ta.toList ∧
      HoldsAt (makeWlanhdr w a 32 m) 16 a.mda.toList ∧
      HoldsAt (makeWlanhdr w a 32 m) 24 a.msa.toList ∧
      (makeWlanhdr w a 32 m 31).getLsbD 0 = true := by
  have hbuild : meshTxBuildWhdr a (blankHdr m) =
      store (store (store (store (orAt (orAt (blankHdr m) 1 0x01) 1 0x02) 4 a.ra.toList)
        10 a.ta.toList) 16 a.mda.toList) 24 a.msa.toList := by
    rcases hmode with hmode | hmode <;> simp only [meshTxBuildWhdr, hmode]
  have hlen := length_mac
  refine ⟨?_, ?_, makeWlanhdr_holdsAt ?_ ?_ ?_ w, makeWlanhdr_holdsAt ?_ ?_ ?_ w,
    makeWlanhdr_holdsAt ?_ ?_ ?_ w, makeWlanhdr_holdsAt ?_ ?_ ?_ w, ?_⟩
  · rw [makeWlanhdr_of_ne (by omega) (by omega) (by omega), hbuild]
    simp only [store_of_lt, Nat.ofNat_pos, orAt_of_ne _ _ (Nat.zero_ne_one), blankHdr_zero]
  · rw [makeWlanhdr_eq, store_of_lt _ _ (by omega), orAt_of_ne _ _ (by omega),
      store_of_lt _ _ (by omega), flagged_ds, hbuild, store_of_lt _ _ (by omega),
      store_of_lt _ _ (by omega), store_of_lt _ _ (by omega), store_of_lt _ _ (by omega),
      orAt_self, orAt_self, blankHdr_of_lt m (by omega) (by omega)]
    decide
  · rw [hbuild]
    refine HoldsAt.store_disjoint (HoldsAt.store_disjoint (HoldsAt.store_disjoint
      (holdsAt_store _ _ _) ?_) ?_) ?_ <;> rw [hlen] <;> omega
  · rw [hlen]; omega
  · rw [hlen]; omega
  · rw [hbuild]
    refine HoldsAt.store_disjoint (HoldsAt.store_disjoint (holdsAt_store _ _ _) ?_) ?_ <;>
      rw [hlen] <;> omega
  · rw [hlen]; omega
  · rw [hlen]; omega
  · rw [hbuild]
    refine HoldsAt.store_disjoint (holdsAt_store _ _ _) ?_
    rw [hlen]
    omega
  · rw [hlen]; omega
  · rw [hlen]; omega
  · rw [hbuild]
    exact holdsAt_store _ _ _
  · omega
  · rw [hlen]
  · rw [makeWlanhdr_eq, store_of_ge _ _ (by simp), orAt_self, BitVec.getLsbD_or]
    simp

/-- The header with three addresses. -/
theorem makeWlanhdr_bmcast
    (hmode : a.meshFrameMode = .bmcastData ∨ a.meshFrameMode = .bmcastPxData) (w : Wire) (m : Buf) :
    makeWlanhdr w a 26 m 0 = 0x88 ∧ makeWlanhdr w a 26 m 1 &&& 0x3 = 0x2 ∧
      HoldsAt (makeWlanhdr w a 26 m) 4 a.ra.toList ∧
      HoldsAt (makeWlanhdr w a 26 m) 10 a.ta.toList ∧
      HoldsAt (makeWlanhdr w a 26 m) 16 a.msa.toList ∧
      (makeWlanhdr w a 26 m 25).getLsbD 0 = true := by
  have hbuild : meshTxBuildWhdr a (blankHdr m) =
      store (store (store (orAt (blankHdr m) 1 0x02) 4 a.ra.toList) 10 a.ta.toList) 16
        a.msa.toList := by
    rcases hmode with hmode | hmode <;> simp only [meshTxBuildWhdr, hmode]
  have hlen := length_mac
  refine ⟨?_, ?_, makeWlanhdr_holdsAt ?_ ?_ ?_ w, makeWlanhdr_holdsAt ?_ ?_ ?_ w,
    makeWlanhdr_holdsAt ?_ ?_ ?_ w, ?_⟩
  · rw [makeWlanhdr_of_ne (by omega) (by omega) (by omega), hbuild]
    simp only [store_of_lt, Nat.ofNat_pos, orAt_of_ne _ _ (Nat.zero_ne_one), blankHdr_zero]
  · rw [makeWlanhdr_eq, store_of_lt _ _ (by omega), orAt_of_ne _ _ (by omega),
      store_of_lt _ _ (by omega), flagged_ds, hbuild, store_of_lt _ _ (by omega),
      store_of_lt _ _ (by omega), store_of_lt _ _ (by omega), orAt_self,
      blankHdr_of_lt m (by omega) (by omega)]
    decide
  · rw [hbuild]
    refine HoldsAt.store_disjoint (HoldsAt.store_disjoint (holdsAt_store _ _ _) ?_) ?_ <;>
      rw [hlen] <;> omega
  · rw [hlen]; omega
  · rw [hlen]; omega
  · rw [hbuild]
    refine HoldsAt.store_disjoint (holdsAt_store _ _ _) ?_
    rw [hlen]
    omega
  · rw [hlen]; omega
  · rw [hlen]; omega
  · rw [hbuild]
    exact holdsAt_store _ _ _
  · rw [hlen]; omega
  · rw [hlen]; omega
  · rw [makeWlanhdr_eq, store_of_ge _ _ (by simp), orAt_self, BitVec.getLsbD_or]
    simp

end Header

section Mctrl

variable {node : Node} {a : Attrib} {hdrlen len : ℕ}

/-- Everything that is built lies within the length of the mode. -/
theorem meshTxBuildMctrlAt_of_disjoint
    (hlen : meshTxSetWhdrMctrlLen a.meshFrameMode = some (hdrlen, len)) (m : Buf) {p i : ℕ}
    (hi : i < p ∨ p + len ≤ i) : meshTxBuildMctrlAt node a len m p i = m i := by
  unfold meshTxBuildMctrlAt
  cases hmode : a.meshFrameMode <;> simp [hmode, meshTxSetWhdrMctrlLen] at hlen <;>
    obtain ⟨-, rfl⟩ := hlen <;> dsimp only
  case ucastData | bmcastData =>
    rw [store_of_disjoint _ _ (by rw [length_leBytes]; omega),
      store_of_disjoint _ _ (by rw [List.length_singleton]; omega),
      store_of_disjoint _ _ (by rw [List.length_replicate]; omega)]
  case ucastPxData =>
    rw [store_of_disjoint _ _ (by rw [length_mac]; omega),
      store_of_disjoint _ _ (by rw [length_mac]; omega), orAt_of_ne _ _ (by omega),
      store_of_disjoint _ _ (by rw [length_leBytes]; omega),
      store_of_disjoint _ _ (by rw [List.length_singleton]; omega),
      store_of_disjoint _ _ (by rw [List.length_replicate]; omega)]
  case bmcastPxData =>
    rw [store_of_disjoint _ _ (by rw [length_mac]; omega), orAt_of_ne _ _ (by omega),
      store_of_disjoint _ _ (by rw [length_leBytes]; omega),
      store_of_disjoint _ _ (by rw [List.length_singleton]; omega),
      store_of_disjoint _ _ (by rw [List.length_replicate]; omega)]

/-- The flags before the address extension is marked. -/
theorem plain_flags (m : Buf) (p : ℕ) (ttl : BitVec 8) (v : ℕ) (hlen : 0 < len) :
    store (store (store m p (List.replicate len 0)) (p + 1) [ttl]) (p + 2) (leBytes 4 v) p =
      0 := by
  rw [store_of_lt _ _ (by omega), store_of_lt _ _ (by omega),
    store_replicate m 0 le_rfl (by omega)]

theorem mctrl_plain (hmode : a.meshFrameMode = .ucastData ∨ a.meshFrameMode = .bmcastData)
    (m : Buf) (p : ℕ) : meshTxBuildMctrlAt node a 6 m p p = 0 := by
  unfold meshTxBuildMctrlAt
  rcases hmode with hmode | hmode <;> simp only [hmode] <;> exact plain_flags m p _ _ (by omega)

theorem mctrl_ucastPx (node : Node) (hmode : a.meshFrameMode = .ucastPxData) (m : Buf) (p : ℕ) :
    meshTxBuildMctrlAt node a 18 m p p = 0x2 ∧
      macAt (meshTxBuildMctrlAt node a 18 m p) (p + 6) = a.dst ∧
      macAt (meshTxBuildMctrlAt node a 18 m p) (p + 12) = a.src := by
  unfold meshTxBuildMctrlAt
  simp only [hmode]
  refine ⟨?_, macAt_of_holdsAt ?_, macAt_of_holdsAt (holdsAt_store _ _ _)⟩
  · rw [store_of_lt _ _ (by omega), store_of_lt _ _ (by omega), orAt_self,
      plain_flags m p _ _ (by omega)]
    decide
  · refine HoldsAt.store_disjoint (holdsAt_store _ _ _) ?_
    rw [length_mac, length_mac]
    omega

theorem mctrl_bmcastPx (node : Node) (hmode : a.meshFrameMode = .bmcastPxData) (m : Buf) (p : ℕ) :
    meshTxBuildMctrlAt node a 12 m p p = 0x1 ∧
      macAt (meshTxBuildMctrlAt node a 12 m p) (p + 6) = a.src := by
  unfold meshTxBuildMctrlAt
  simp only [hmode]
  refine ⟨?_, macAt_of_holdsAt (holdsAt_store _ _ _)⟩
  rw [store_of_lt _ _ (by omega), orAt_self, plain_flags m p _ _ (by omega)]
  decide

end Mctrl

/-- The addresses that a frame carries to its receivers: DA, SA, mesh DA and mesh SA. -/
def Attrib.Carries (a : Attrib) (da sa mda msa : Mac) : Prop :=
  a.dst = da ∧ a.src = sa ∧ a.msa = msa ∧
    match a.meshFrameMode with
    | .ucastPxData => a.mda = mda
    | .ucastData => a.mda = mda ∧ da = mda ∧ sa = msa
    | .bmcastPxData => a.ra = mda ∧ da = mda ∧ mda.isMcast = true
    | .bmcastData => a.ra = mda ∧ da = mda ∧ sa = msa ∧ mda.isMcast = true
    | _ => False

/-- A frame to one receiver. -/
def Attrib.Ucast (a : Attrib) : Prop :=
  a.meshFrameMode = .ucastData ∨ a.meshFrameMode = .ucastPxData

section Decode

variable {node : Node} {w : Wire} {a : Attrib} {m frame : Buf} {hdrlen len : ℕ}
  {da sa mda msa : Mac} {peer : Peer}

theorem getTofrDs_eq (m : Buf) : getTofrDs m = (m 1 &&& 0x3).toNat := by
  have hand : (m 1 &&& 0x3).toNat = (m 1).toNat % 4 := by
    rw [BitVec.toNat_and]
    exact Nat.and_two_pow_sub_one_eq_mod _ 2
  unfold getTofrDs
  omega

theorem xmitFrame_eq (hlen : meshTxSetWhdrMctrlLen a.meshFrameMode = some (hdrlen, len)) :
    xmitFrame node w a m =
      some (meshTxBuildMctrlAt node a len (store (makeWlanhdr w a hdrlen m) hdrlen w.iv)
        (hdrlen + w.iv.length)) := by
  unfold xmitFrame
  rw [hlen]

/-- The IV and the Mesh Control field lie behind the header. -/
theorem xmitFrame_header (hlen : meshTxSetWhdrMctrlLen a.meshFrameMode = some (hdrlen, len))
    (hx : xmitFrame node w a m = some frame) {i : ℕ} (hi : i < hdrlen) :
    frame i = makeWlanhdr w a hdrlen m i := by
  rw [xmitFrame_eq hlen, Option.some.injEq] at hx
  rw [← hx, meshTxBuildMctrlAt_of_disjoint hlen _ (by omega), store_of_lt _ _ hi]

theorem xmitFrame_macAt (hlen : meshTxSetWhdrMctrlLen a.meshFrameMode = some (hdrlen, len))
    (hx : xmitFrame node w a m = some frame) {p : ℕ} {addr : Mac} (hp : p + 6 ≤ hdrlen)
    (h : HoldsAt (makeWlanhdr w a hdrlen m) p addr.toList) : macAt frame p = addr := by
  apply macAt_of_holdsAt
  apply h.congr
  intro i hi hi'
  rw [length_mac] at hi'
  exact xmitFrame_header hlen hx (by omega)

/-- The four-address header as the receiver sees it. -/
theorem validateHdr_ucast (hmode : a.Ucast)
    (hlen : meshTxSetWhdrMctrlLen a.meshFrameMode = some (32, len))
    (hx : xmitFrame node w a m = some frame) :
    meshRxDataValidateHdr peer frame =
      if !peer.asoc then .fail
      else if a.ra.isMcast then .fail
      else if !peer.knows a.ta then .noSta
      else .success ⟨a.ra, a.ta, a.mda, a.msa, a.mda, a.msa, 3, 0⟩ := by
  obtain ⟨h0, h1, hra, hta, hmda, hmsa, hqos⟩ := makeWlanhdr_ucast hmode w m
  rw [← xmitFrame_header hlen hx (by omega)] at h0 h1 hqos
  have hds : getTofrDs frame = 3 := by
    rw [getTofrDs_eq, h1]
    rfl
  have h7 : (frame 0).getLsbD 7 = true := by rw [h0]; decide
  have h6 : (frame 0).getLsbD 6 = false := by rw [h0]; decide
  unfold meshRxDataValidateHdr
  simp only [h7, h6, hds, hqos, xmitFrame_macAt hlen hx (by omega) hra,
    xmitFrame_macAt hlen hx (by omega) hta, xmitFrame_macAt hlen hx (by omega) hmda,
    xmitFrame_macAt hlen hx (by omega) hmsa]
  simp

/-- The three-address header as the receiver sees it. -/
theorem validateHdr_bmcast
    (hmode : a.meshFrameMode = .bmcastData ∨ a.meshFrameMode = .bmcastPxData)
    (hlen : meshTxSetWhdrMctrlLen a.meshFrameMode = some (26, len))
    (hx : xmitFrame node w a m = some frame) :
    meshRxDataValidateHdr peer frame =
      if !peer.asoc then .fail
      else if !a.ra.isMcast then .fail
      else if !peer.knows a.ta then .noSta
      else .success ⟨a.ra, a.ta, a.ra, a.msa, a.ra, a.msa, 2, 0⟩ := by
  obtain ⟨h0, h1, hra, hta, hmsa, hqos⟩ := makeWlanhdr_bmcast hmode w m
  rw [← xmitFrame_header hlen hx (by omega)] at h0 h1 hqos
  have hds : getTofrDs frame = 2 := by
    rw [getTofrDs_eq, h1]
    rfl
  have h7 : (frame 0).getLsbD 7 = true := by rw [h0]; decide
  have h6 : (frame 0).getLsbD 6 = false := by rw [h0]; decide
  unfold meshRxDataValidateHdr
  simp only [h7, h6, hds, hqos, xmitFrame_macAt hlen hx (by omega) hra,
    xmitFrame_macAt hlen hx (by omega) hta, xmitFrame_macAt hlen hx (by omega) hmsa]
  simp

/-- The Mesh Control field of a frame to one receiver. -/
theorem validateMctrl_ucast (hc : a.Carries da sa mda msa) (hmode : a.Ucast)
    (hlen : meshTxSetWhdrMctrlLen a.meshFrameMode = some (32, len))
    (hx : xmitFrame node w a m = some frame) (order : ByteOrder) :
    meshRxDataValidateMctrl 3 (mctrlAt order frame (32 + w.iv.length)) a.mda a.msa =
      some (len, da, sa) := by
  obtain ⟨rfl, rfl, rfl, hmda⟩ := hc
  rw [xmitFrame_eq hlen, Option.some.injEq] at hx
  rw [← hx]
  rcases hmode with hmode | hmode
  · rw [hmode] at hmda hlen
    obtain ⟨rfl, hdst, hsrc⟩ := hmda
    obtain rfl : len = 6 := by simpa [meshTxSetWhdrMctrlLen] using hlen.symm
    simp [meshRxDataValidateMctrl, mctrlAt, Mctrl.ae, mctrl_plain (Or.inl hmode), aeToMeshCtrlLen,
      hdst, hsrc]
  · rw [hmode] at hlen
    obtain rfl : len = 18 := by simpa [meshTxSetWhdrMctrlLen] using hlen.symm
    obtain ⟨hflags, hdst, hsrc⟩ := mctrl_ucastPx node hmode
      (store (makeWlanhdr w a 32 m) 32 w.iv) (32 + w.iv.length)
    simp [meshRxDataValidateMctrl, mctrlAt, Mctrl.ae, hflags, hdst, hsrc, aeToMeshCtrlLen]

/-- The Mesh Control field of a frame to a group. -/
theorem validateMctrl_bmcast (hc : a.Carries da sa mda msa)
    (hmode : a.meshFrameMode = .bmcastData ∨ a.meshFrameMode = .bmcastPxData)
    (hlen : meshTxSetWhdrMctrlLen a.meshFrameMode = some (26, len))
    (hx : xmitFrame node w a m = some frame) (order : ByteOrder) :
    meshRxDataValidateMctrl 2 (mctrlAt order frame (26 + w.iv.length)) a.ra a.msa =
      some (len, da, sa) := by
  obtain ⟨rfl, rfl, rfl, hmda⟩ := hc
  rw [xmitFrame_eq hlen, Option.some.injEq] at hx
  rw [← hx]
  rcases hmode with hmode | hmode
  · rw [hmode] at hmda hlen
    obtain ⟨hra, hdst, hsrc, -⟩ := hmda
    obtain rfl : len = 6 := by simpa [meshTxSetWhdrMctrlLen] using hlen.symm
    simp [meshRxDataValidateMctrl, mctrlAt, Mctrl.ae, mctrl_plain (Or.inr hmode), aeToMeshCtrlLen,
      hra, hdst, hsrc]
  · rw [hmode] at hmda hlen
    obtain ⟨hra, hdst, -⟩ := hmda
    obtain rfl : len = 12 := by simpa [meshTxSetWhdrMctrlLen] using hlen.symm
    obtain ⟨hflags, hsrc⟩ := mctrl_bmcastPx node hmode
      (store (makeWlanhdr w a 26 m) 26 w.iv) (26 + w.iv.length)
    simp [meshRxDataValidateMctrl, mctrlAt, Mctrl.ae, hflags, hsrc, aeToMeshCtrlLen, hra, hdst]

/-- A frame to one receiver, decoded. -/
theorem rxFrame_ucast (hc : a.Carries da sa mda msa) (hmode : a.Ucast)
    (hlen : meshTxSetWhdrMctrlLen a.meshFrameMode = some (32, len))
    (hx : xmitFrame node w a m = some frame) :
    rxFrame peer w.iv.length frame =
      if peer.asoc && !a.ra.isMcast && peer.knows a.ta then
        some (⟨a.ra, a.ta, mda, msa, da, sa, 3, len⟩,
          mctrlAt peer.node.order frame (32 + w.iv.length))
      else none := by
  have hmda : a.mda = mda := by
    obtain ⟨-, -, -, h⟩ := hc
    rcases hmode with hmode | hmode
    · rw [hmode] at h
      exact h.1
    · rw [hmode] at h
      exact h
  have hmsa : a.msa = msa := hc.2.2.1
  have hmctrl := validateMctrl_ucast hc hmode hlen hx peer.node.order
  rw [hmda, hmsa] at hmctrl
  unfold rxFrame
  rw [validateHdr_ucast hmode hlen hx]
  cases hasoc : peer.asoc with
  | false => simp
  | true =>
    cases hra : a.ra.isMcast with
    | true => simp
    | false =>
      cases hknows : peer.knows a.ta with
      | false => simp
      | true => simp [rxMctrlPos, hmctrl, hmda, hmsa]

/-- A frame to a group, decoded. -/
theorem rxFrame_bmcast (hc : a.Carries da sa mda msa)
    (hmode : a.meshFrameMode = .bmcastData ∨ a.meshFrameMode = .bmcastPxData)
    (hlen : meshTxSetWhdrMctrlLen a.meshFrameMode = some (26, len))
    (hx : xmitFrame node w a m = some frame) (hasoc : peer.asoc = true)
    (hknows : peer.knows a.ta = true) :
    rxFrame peer w.iv.length frame =
      some (⟨a.ra, a.ta, mda, msa, da, sa, 2, len⟩,
        mctrlAt peer.node.order frame (26 + w.iv.length)) := by
  have hra : a.ra = mda ∧ mda.isMcast = true := by
    obtain ⟨-, -, -, h⟩ := hc
    rcases hmode with hmode | hmode
    · rw [hmode] at h
      exact ⟨h.1, h.2.2.2⟩
    · rw [hmode] at h
      exact ⟨h.1, h.2.2⟩
  have hmsa : a.msa = msa := hc.2.2.1
  have hmctrl := validateMctrl_bmcast hc hmode hlen hx peer.node.order
  unfold rxFrame
  rw [validateHdr_bmcast hmode hlen hx]
  rw [hra.1, hmsa] at hmctrl
  simp [hasoc, hknows, hra.1, hra.2, hmsa, rxMctrlPos, hmctrl]

end Decode

section Source

variable {node : Node} {env : Env} {tables : Tables} {old : Attrib} {hDest hSource : Mac}

/-- The addresses of the unicast frames for a group frame. -/
theorem b2uLoop_addrs {da sa mda msa : Mac} {ae : Bool} {oriTa : Option Mac} {ttl : BitVec 8}
    {l : List Sta} {n num : ℕ} {mseq seqnum : BitVec 32} {a : Attrib}
    (h : a ∈ (b2uLoop node env da sa mda msa ae oriTa ttl l n num mseq seqnum).frames) :
    a.dst = da ∧ a.src = sa ∧ a.mda = mda ∧ a.msa = msa ∧ a.ta = node.macAddr ∧
      a.meshFrameMode = if ae then .ucastPxData else .ucastData := by
  induction l generalizing n num mseq seqnum with
  | nil => simp [b2uLoop] at h
  | cons sta l ih =>
    unfold b2uLoop at h
    split at h
    · exact ih h
    · split at h
      · simp at h
      · rcases List.mem_cons.1 h with rfl | h
        · exact ⟨rfl, rfl, rfl, rfl, rfl, rfl⟩
        · exact ih h

theorem aeNeedSource_eq_false (h : aeNeedSource node tables hDest hSource = false) :
    hSource = node.macAddr ∧ sourceMda node tables hDest hSource = hDest := by
  refine ⟨?_, by simp [sourceMda, h]⟩
  simp only [aeNeedSource, Bool.or_eq_false_iff, bne_eq_false_iff_eq] at h
  exact h.1.symm

theorem sourceMda_of_mcast (node : Node) (tables : Tables) (hSource : Mac)
    (h : hDest.isMcast = true) : sourceMda node tables hDest hSource = hDest := by
  simp [sourceMda, h]

theorem sourceB2u_carries {flags : BitVec 8} {a : Attrib}
    (h : a ∈ (sourceB2u node flags env tables hDest hSource).frames) :
    a.Carries hDest hSource (sourceMda node tables hDest hSource) node.macAddr ∧
      a.ta = node.macAddr := by
  unfold sourceB2u at h
  split at h
  · rename_i hcast
    rw [Bool.and_eq_true] at hcast
    obtain ⟨hdst, hsrc, hmda, hmsa, hta, hmode⟩ := b2uLoop_addrs h
    have hsame := sourceMda_of_mcast node tables hSource hcast.1
    refine ⟨⟨hdst, hsrc, hmsa, ?_⟩, hta⟩
    rw [hmode]
    cases hae : aeNeedSource node tables hDest hSource with
    | true => exact hmda.trans hsame.symm
    | false => exact ⟨hmda.trans hsame.symm, hsame.symm, (aeNeedSource_eq_false hae).1⟩
  · simp at h

theorem sourceAttrib_carries {b2u : B2u} {a : Attrib}
    (h : sourceAttrib node tables old hDest hSource b2u = some a) :
    a.Carries hDest hSource (sourceMda node tables hDest hSource) node.macAddr ∧
      a.ta = node.macAddr := by
  unfold sourceAttrib at h
  dsimp only at h
  split at h
  · rename_i hcast
    obtain rfl := Option.some.inj h
    have hsame := sourceMda_of_mcast node tables hSource hcast
    refine ⟨⟨rfl, rfl, rfl, ?_⟩, rfl⟩
    cases hae : aeNeedSource node tables hDest hSource with
    | true => exact ⟨hsame.symm, hsame.symm, by rwa [hsame]⟩
    | false => exact ⟨hsame.symm, hsame.symm, (aeNeedSource_eq_false hae).1, by rwa [hsame]⟩
  · split at h
    · simp at h
    · obtain rfl := Option.some.inj h
      refine ⟨⟨rfl, rfl, rfl, ?_⟩, rfl⟩
      cases hae : aeNeedSource node tables hDest hSource with
      | true => rfl
      | false =>
        obtain ⟨hsrc, hmda⟩ := aeNeedSource_eq_false hae
        exact ⟨rfl, hmda.symm, hsrc⟩

/-- Every frame that is sent for a frame of the host carries its addresses. -/
theorem meshAddrResolve_carries {flags : BitVec 8} {a : Attrib}
    (h : a ∈ meshAddrResolve node flags env tables old hDest hSource) :
    a.Carries hDest hSource (sourceMda node tables hDest hSource) node.macAddr ∧
      a.ta = node.macAddr := by
  unfold meshAddrResolve at h
  dsimp only at h
  split at h
  · rcases List.mem_append.1 h with h | h
    · exact sourceB2u_carries h
    · exact sourceAttrib_carries (Option.mem_toList.1 h)
  · exact sourceB2u_carries h

/-- A frame to one destination is sent to one receiver, with a mesh destination that is no group. -/
theorem meshAddrResolve_ucast {flags : BitVec 8} {a : Attrib} (hcast : hDest.isMcast = false)
    (h : a ∈ meshAddrResolve node flags env tables old hDest hSource) :
    a.Ucast ∧ (sourceMda node tables hDest hSource).isMcast = false := by
  have hb2u : sourceB2u node flags env tables hDest hSource = ⟨true, [], 0, node.meshSeqnum, 0⟩ := by
    simp [sourceB2u, hcast]
  simp only [meshAddrResolve, hb2u, if_true, List.nil_append, Option.mem_toList,
    sourceAttrib, hcast, Bool.false_eq_true, if_false] at h
  split at h
  · simp at h
  · rename_i ra hra
    obtain rfl := Option.some.inj h
    refine ⟨?_, tables.resolved_ucast _ _ hra⟩
    unfold Attrib.Ucast
    dsimp only
    split
    · exact Or.inr rfl
    · exact Or.inl rfl

end Source

section Hops

variable {node : Node} {env : Env} {rx : Rx} {da sa mda msa : Mac}

theorem fwdChk_fwdFrame {act : Act} (hact : act.fwdFrame = none) {fwdRa : Mac} {a : Attrib}
    (h : (fwdChk node env rx act fwdRa).fwdFrame = some a) :
    ∃ b2u, a = fwdAttrib node rx b2u fwdRa := by
  revert h
  unfold fwdChk
  split
  · simp [hact]
  split
  · simp [hact]
  dsimp only
  split
  · split
    · simp [hact]
    · exact fun h => ⟨_, (Option.some.inj h).symm⟩
  · simp [hact]

/-- The mode of a forwarded frame is chosen from the addresses it has to carry. -/
theorem fwdAttrib_carries (hmda : rx.mda.isMcast = false) (b2u : B2u) (fwdRa : Mac) :
    (fwdAttrib node rx b2u fwdRa).Carries rx.da rx.sa rx.mda rx.msa ∧
      (fwdAttrib node rx b2u fwdRa).Ucast := by
  cases hae : aeNeed rx with
  | true =>
    have hmode : (fwdAttrib node rx b2u fwdRa).meshFrameMode = .ucastPxData := by
      simp [fwdAttrib, hmda, hae]
    refine ⟨⟨rfl, rfl, rfl, ?_⟩, Or.inr hmode⟩
    rw [hmode]
    rfl
  | false =>
    have hmode : (fwdAttrib node rx b2u fwdRa).meshFrameMode = .ucastData := by
      simp [fwdAttrib, hmda, hae]
    simp only [aeNeed, Bool.or_eq_false_iff, bne_eq_false_iff_eq] at hae
    refine ⟨⟨rfl, rfl, rfl, ?_⟩, Or.inl hmode⟩
    rw [hmode]
    exact ⟨rfl, hae.1, hae.2⟩

theorem meshRxMsduActCheck_carries (hmda : rx.mda.isMcast = false) {a : Attrib}
    (h : (meshRxMsduActCheck node env rx).fwdFrame = some a) :
    a.Carries rx.da rx.sa rx.mda rx.msa ∧ a.Ucast := by
  revert h
  unfold meshRxMsduActCheck
  generalize (if rx.mctrl.ae != 0 && rx.sa != rx.msa then some (rx.sa, rx.msa) else none) = proxy
  simp only [hmda]
  split
  · simp
  split
  · simp
  split
  · contradiction
  split
  · split
    · simp
    · split
      · simp
      · intro h
        obtain ⟨b2u, rfl⟩ := fwdChk_fwdFrame rfl h
        exact fwdAttrib_carries hmda b2u _
  · simp

/-- A frame on its way to one receiver that carries these addresses. -/
def Sent.Carried (f : Sent) (da sa mda msa : Mac) : Prop :=
  ∃ (node : Node) (w : Wire) (a : Attrib) (m : Buf), xmitFrame node w a m = some f.buf ∧
    f.ivLen = w.iv.length ∧ f.ra = a.ra ∧ f.ta = a.ta ∧ a.Carries da sa mda msa ∧ a.Ucast

theorem Attrib.Ucast.len {a : Attrib} (h : a.Ucast) :
    ∃ len, meshTxSetWhdrMctrlLen a.meshFrameMode = some (32, len) := by
  rcases h with h | h <;> rw [h] <;> exact ⟨_, rfl⟩

/-- What a node decodes of a carried frame. -/
theorem Sent.Carried.rxFrame_eq {f : Sent} (h : f.Carried da sa mda msa) (peer : Peer) :
    ∃ len mctrl, rxFrame peer f.ivLen f.buf =
      if peer.asoc && !f.ra.isMcast && peer.knows f.ta then
        some (⟨f.ra, f.ta, mda, msa, da, sa, 3, len⟩, mctrl)
      else none := by
  obtain ⟨node, w, a, m, hx, hiv, hra, hta, hc, hmode⟩ := h
  obtain ⟨len, hlen⟩ := hmode.len
  rw [hiv, hra, hta]
  exact ⟨len, _, rxFrame_ucast hc hmode hlen hx⟩

/-- One hop keeps the addresses. -/
theorem relay_carried {hop : Hop} {f g : Sent} (hmda : mda.isMcast = false)
    (hf : f.Carried da sa mda msa) (h : hop.relay f = some g) : g.Carried da sa mda msa := by
  obtain ⟨len, mctrl, hrx⟩ := hf.rxFrame_eq hop.peer
  unfold Hop.relay at h
  rw [hrx] at h
  split at h
  · simp at h
  cases hok : hop.peer.asoc && !f.ra.isMcast && hop.peer.knows f.ta with
  | false => simp [hok] at h
  | true =>
    simp only [hok, if_true] at h
    split at h
    · simp at h
    split at h
    · simp at h
    rename_i a ha
    split at h
    · simp at h
    rename_i m hx
    obtain rfl := Option.some.inj h
    obtain ⟨hc, hmode⟩ := meshRxMsduActCheck_carries hmda ha
    exact ⟨hop.peer.node, hop.wire, a, hop.buf, hx, rfl, rfl, rfl, hc, hmode⟩

/-- Any number of hops keeps the addresses. -/
theorem relayAll_carried {hops : List Hop} {f g : Sent} (hmda : mda.isMcast = false)
    (hf : f.Carried da sa mda msa) (h : relayAll hops f = some g) : g.Carried da sa mda msa := by
  induction hops generalizing f with
  | nil =>
    obtain rfl := Option.some.inj h
    exact hf
  | cons hop hops ih =>
    obtain ⟨f', hf', h⟩ := Option.bind_eq_some_iff.1 h
    exact ih (relay_carried hmda hf hf') h

end Hops

/-- A frame is addressed to a node: it goes to a group or to the node's own address. -/
def Peer.Addressed (p : Peer) (a : Attrib) : Prop := a.Ucast → a.ra = p.node.macAddr

/-- The frame that is built reaches every node it is addressed to with these addresses, and the
node finds as many bytes of Mesh Control as were built. -/
def Attrib.Delivers (a : Attrib) (node : Node) (da sa mda msa : Mac) : Prop :=
  ∀ (w : Wire) (m : Buf) (p : Peer), p.Addressed a → p.asoc = true → p.knows a.ta = true →
    ∃ frame r mctrl hdrlen, xmitFrame node w a m = some frame ∧
      rxFrame p w.iv.length frame = some (r, mctrl) ∧
      r.dst = da ∧ r.src = sa ∧ r.mda = mda ∧ r.msa = msa ∧
      meshTxSetWhdrMctrlLen a.meshFrameMode = some (hdrlen, r.meshCtrlLen) ∧
      ∀ i, hdrlen + w.iv.length + r.meshCtrlLen ≤ i →
        frame i = store (makeWlanhdr w a hdrlen m) hdrlen w.iv i

/-- Nothing is written behind the Mesh Control field. -/
theorem xmitFrame_behind {node : Node} {w : Wire} {a : Attrib} {m frame : Buf} {hdrlen len : ℕ}
    (hlen : meshTxSetWhdrMctrlLen a.meshFrameMode = some (hdrlen, len))
    (hx : xmitFrame node w a m = some frame) {i : ℕ} (hi : hdrlen + w.iv.length + len ≤ i) :
    frame i = store (makeWlanhdr w a hdrlen m) hdrlen w.iv i := by
  rw [xmitFrame_eq hlen, Option.some.injEq] at hx
  rw [← hx, meshTxBuildMctrlAt_of_disjoint hlen _ (Or.inr hi)]

theorem Attrib.Carries.delivers {a : Attrib} {da sa mda msa : Mac}
    (hc : a.Carries da sa mda msa) (node : Node) : a.Delivers node da sa mda msa := by
  intro w m p haddr hasoc hknows
  by_cases hmode : a.Ucast
  · obtain ⟨len, hlen⟩ := hmode.len
    obtain ⟨frame, hx⟩ : ∃ frame, xmitFrame node w a m = some frame := ⟨_, xmitFrame_eq hlen⟩
    have hra : a.ra.isMcast = false := by
      rw [haddr hmode]
      exact p.ucast
    have hrx : rxFrame p w.iv.length frame = _ := rxFrame_ucast hc hmode hlen hx
    rw [if_pos (by rw [hasoc, hra, hknows]; rfl)] at hrx
    exact ⟨frame, _, _, 32, hx, hrx, rfl, rfl, rfl, rfl, hlen, fun i => xmitFrame_behind hlen hx⟩
  · have hbmcast : a.meshFrameMode = .bmcastData ∨ a.meshFrameMode = .bmcastPxData := by
      obtain ⟨-, -, -, h⟩ := hc
      unfold Attrib.Ucast at hmode
      cases hm : a.meshFrameMode <;> simp_all
    obtain ⟨len, hlen⟩ : ∃ len, meshTxSetWhdrMctrlLen a.meshFrameMode = some (26, len) := by
      rcases hbmcast with h | h <;> rw [h] <;> exact ⟨_, rfl⟩
    obtain ⟨frame, hx⟩ : ∃ frame, xmitFrame node w a m = some frame := ⟨_, xmitFrame_eq hlen⟩
    have hrx : rxFrame p w.iv.length frame = _ :=
      rxFrame_bmcast hc hbmcast hlen hx hasoc hknows
    exact ⟨frame, _, _, 26, hx, hrx, rfl, rfl, rfl, rfl, hlen, fun i => xmitFrame_behind hlen hx⟩

/-- Every frame that is sent for a frame of the host is decoded to the addresses it was sent with
and to as many bytes of Mesh Control as were built; and a frame to one destination is decoded so
also behind any number of nodes that forward it. -/
theorem mesh_addressing (node : Node) (b2uFlagsMsrc : BitVec 8) (env : Env) (tables : Tables)
    (old : Attrib) (hDest hSource : Mac) :
    (∀ a ∈ meshAddrResolve node b2uFlagsMsrc env tables old hDest hSource,
      a.Delivers node hDest hSource (sourceMda node tables hDest hSource) node.macAddr) ∧
    (hDest.isMcast = false → ∀ a ∈ meshAddrResolve node b2uFlagsMsrc env tables old hDest hSource,
      ∀ (w : Wire) (m frame : Buf) (hops : List Hop) (f : Sent) (p : Peer),
        xmitFrame node w a m = some frame →
        relayAll hops ⟨frame, w.iv.length, a.ra, a.ta⟩ = some f →
        f.ra = p.node.macAddr → p.asoc = true → p.knows f.ta = true →
        ∃ r mctrl, rxFrame p f.ivLen f.buf = some (r, mctrl) ∧ r.dst = hDest ∧ r.src = hSource ∧
          r.mda = sourceMda node tables hDest hSource ∧ r.msa = node.macAddr) := by
  refine ⟨fun a ha => (meshAddrResolve_carries ha).1.delivers node, ?_⟩
  intro hcast a ha w m frame hops f p hx hrelay hra hasoc hknows
  have hc := (meshAddrResolve_carries ha).1
  obtain ⟨hmode, hmda⟩ := meshAddrResolve_ucast hcast ha
  have hcarried : f.Carried hDest hSource (sourceMda node tables hDest hSource) node.macAddr :=
    relayAll_carried hmda ⟨node, w, a, m, hx, rfl, rfl, rfl, hc, hmode⟩ hrelay
  obtain ⟨len, mctrl, hrx⟩ := hcarried.rxFrame_eq p
  have hucast : f.ra.isMcast = false := by
    rw [hra]
    exact p.ucast
  rw [if_pos (by rw [hasoc, hucast, hknows]; rfl)] at hrx
  exact ⟨_, _, hrx, rfl, rfl, rfl, rfl⟩

/-- A node of a chain, with its two neighbours. -/
def chainNode (n : BitVec 8) : Node :=
  { relayNode with
    macAddr := Mac.ending n
    asocList := [⟨.ending (n - 1), true⟩, ⟨.ending (n + 1), true⟩] }

/-- A node that knows everyone. -/
def chainPeer (n : BitVec 8) : Peer where
  node := chainNode n
  ucast := by simp [chainNode, Mac.isMcast]
  asoc := true
  knows := fun _ => true

/-- The destination is behind the node 3, the next hop is the node 2. -/
def chainTables : Tables where
  mpathUsable := fun _ => false
  mppPathLookup := fun _ => some (.ending 3)
  nexthopResolve := fun mda => if mda.isMcast then none else some (.ending 2)
  resolved_ucast := by
    intro mda ra h
    split at h
    · simp at h
    · rename_i hmcast
      simpa using hmcast

def chainWire : Wire := ⟨false, true, 0, (0x10, 0), List.replicate 8 0⟩

def chainOld : Attrib :=
  ⟨false, 0, 0, Mac.zero, Mac.zero, Mac.zero, Mac.zero, Mac.zero, Mac.zero, .ucastData⟩

/-- A frame of a host behind the first node to a host behind the third. -/
def chainSource : List Attrib :=
  meshAddrResolve (chainNode 1) 0 openEnv chainTables chainOld #v[2, 0, 0, 0, 1, 2]
    #v[2, 0, 0, 0, 1, 1]

/-- The frame behind the second node. -/
def chainSent : Option Sent :=
  chainSource.head?.bind fun a =>
    (xmitFrame (chainNode 1) chainWire a fun _ => 0).bind fun frame =>
      relayAll [⟨chainPeer 2, openEnv, chainWire, fun _ => 0⟩]
        ⟨frame, chainWire.iv.length, a.ra, a.ta⟩

theorem mesh_addressing_proxied :
    ∃ f r mctrl, chainSent = some f ∧
      rxFrame (chainPeer 3) f.ivLen f.buf = some (r, mctrl) ∧ r.dst = #v[2, 0, 0, 0, 1, 2] ∧
      r.src = #v[2, 0, 0, 0, 1, 1] := by
  have hsent : chainSent.map Sent.ra = some #v[2, 0, 0, 0, 0, 3] := by decide +kernel
  obtain ⟨f, hf, hra⟩ := Option.map_eq_some_iff.1 hsent
  obtain ⟨a, ha, hrest⟩ := Option.bind_eq_some_iff.1 hf
  obtain ⟨frame, hx, hrelay⟩ := Option.bind_eq_some_iff.1 hrest
  obtain ⟨r, mctrl, hrx, hdst, hsrc, -, -⟩ :=
    (mesh_addressing (chainNode 1) 0 openEnv chainTables chainOld #v[2, 0, 0, 0, 1, 2]
      #v[2, 0, 0, 0, 1, 1]).2 rfl a (List.mem_of_mem_head? ha) chainWire (fun _ => 0) frame _ f
      (chainPeer 3) hx hrelay hra rfl rfl
  exact ⟨f, r, mctrl, hf, hrx, hdst, hsrc⟩

end Rtl8821cu.MeshFwd
