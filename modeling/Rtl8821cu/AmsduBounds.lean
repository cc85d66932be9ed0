import Rtl8821cu.Amsdu
import Rtl8821cu.AmsduIndicate

/-! `amsdu_to_msdu` as it walks the frame, by offset and remaining length: every read of the frame is
checked, and a run that reads behind the frame's end fails. Of a packet to indicate the check reads
what it likes, whatever lies behind the packet. -/
namespace Rtl8821cu.Amsdu
open Bytes Load Store

/-- `rtw_recv_llc_parse` at an offset of the frame. -/
def rtwRecvLlcParseAt (frame : List (BitVec 8)) (msdu msduLen : ℕ) : Option Bool :=
  if msduLen < 8 then some false
  else do
    let ethType ← loadBe16 frame (msdu + snapSize)
    let snap ← load frame msdu snapSize
    some ((snap == rtwRfc1042Header && ethType != 0x80f3 && ethType != 0x8137) ||
      snap == rtwBridgeTunnelHeader)

/-- `rtw_os_alloc_msdu_pkt` at an offset of the frame. -/
def rtwOsAllocMsduPktAt (frame : List (BitVec 8)) (da sa msdu msduLen : ℕ) (llcRemove : Bool) :
    Option (List (BitVec 8)) := do
  let data ← load frame msdu msduLen
  let sa ← load frame sa 6
  let da ← load frame da 6
  some (if llcRemove then da ++ sa ++ data.drop snapSize else da ++ sa ++ be16 msduLen ++ data)

/-- The addresses of the subframe at `pdata` on a station or access point, if the content check
lets them pass. -/
def addrsAt (c : Rx) (frame : List (BitVec 8)) (pdata : ℕ) :
    Option (Option (List (BitVec 8) × List (BitVec 8))) := do
  let da ← load frame pdata 6
  let sa ← load frame (pdata + 6) 6
  some (if validateAmsduContent c da sa then some (da, sa) else none)

/-- The label `move_to_next`: where the next subframe is and how much is left. -/
def moveToNextAt (nSubframeLength nrSubframes pdata : ℕ) (aLen : ℤ) : Option (ℕ × ℤ) :=
  let pdata := pdata + ethHlen
  let aLen := aLen - ethHlen
  if nrSubframes ≥ maxSubframeCount then none
  else
    let pdata := pdata + nSubframeLength
    let aLen := aLen - nSubframeLength
    if aLen ≠ 0 then
      let padding := paddingLen (nSubframeLength + ethHlen)
      if aLen < padding then none else some (pdata + padding, aLen - padding)
    else some (pdata, aLen)

/-- The check of the packets to indicate, and what the memory holds behind the packet that is made
of the subframe at each offset. -/
structure Indicate where
  ctl : IndicateCtl
  behind : ℕ → ℕ → BitVec 8

/-- Whether `rtw_recv_indicatepkt_check` lets the packet of the subframe at `pdata` pass. -/
def Indicate.passes (ind : Indicate) (pdata : ℕ) (subPkt : List (BitVec 8)) : Bool :=
  ((rtwRecvIndicatepktCheck ind.ctl).value (store (ind.behind pdata) 0 subPkt)).ret

/-- The packets gathered after one turn of the loop, and where it goes on, if it does. The array
`subframes` has no place behind `MAX_SUBFRAME_COUNT`. -/
def subframeTurn (c : Rx) (ind : Indicate) (frame : List (BitVec 8)) (pdata : ℕ) (aLen : ℤ)
    (subframes : List (List (BitVec 8))) : Option (List (List (BitVec 8)) × Option (ℕ × ℤ)) := do
  let n ← loadBe16 frame (pdata + 12)
  if aLen < ethHlen + n then some (subframes, none)
  else
    match ← addrsAt c frame pdata with
    | none => some (subframes, none)
    | some (da, sa) =>
      let llcRemove ← rtwRecvLlcParseAt frame (pdata + ethHlen) n
      let act := c.act da sa (frame.drop (pdata + ethHlen)) llcRemove
      if !act.indicate && !act.forward then
        some (subframes, moveToNextAt n subframes.length pdata aLen)
      else if !c.alloc aLen.toNat then some (subframes, none)
      else
        let subPkt ← rtwOsAllocMsduPktAt frame pdata (pdata + 6) (pdata + ethHlen) n llcRemove
        if !act.indicate then some (subframes, moveToNextAt n subframes.length pdata aLen)
        else if !ind.passes pdata subPkt then
          some (subframes, moveToNextAt n subframes.length pdata aLen)
        else if subframes.length < maxSubframeCount then
          some (subframes ++ [subPkt], moveToNextAt n (subframes.length + 1) pdata aLen)
        else none

theorem moveToNextAt_lt {n nr pdata p : ℕ} {aLen a : ℤ}
    (h : moveToNextAt n nr pdata aLen = some (p, a)) : a < aLen := by
  unfold moveToNextAt ethHlen at h
  dsimp only at h
  split_ifs at h <;> simp only [Option.some.injEq, Prod.mk.injEq] at h <;> omega

theorem subframeTurn_next {c : Rx} {ind : Indicate} {frame : List (BitVec 8)} {pdata p : ℕ}
    {aLen a : ℤ} {subframes out : List (List (BitVec 8))}
    (h : subframeTurn c ind frame pdata aLen subframes = some (out, some (p, a))) : a < aLen := by
  unfold subframeTurn at h
  simp only [Option.bind_eq_bind, Option.bind_eq_some_iff] at h
  obtain ⟨n, -, h⟩ := h
  by_cases hn : aLen < ethHlen + n
  · rw [if_pos hn] at h
    cases h
  · rw [if_neg hn, Option.bind_eq_some_iff] at h
    obtain ⟨x, -, h⟩ := h
    rcases x with - | ⟨da, sa⟩
    · cases h
    · simp only [Option.bind_eq_some_iff] at h
      obtain ⟨llc, -, h⟩ := h
      by_cases hact : !(c.act da sa (frame.drop (pdata + ethHlen)) llc).indicate &&
          !(c.act da sa (frame.drop (pdata + ethHlen)) llc).forward
      · rw [if_pos hact] at h
        exact moveToNextAt_lt (Prod.mk.inj (Option.some.inj h)).2
      · rw [if_neg hact] at h
        by_cases halloc : !c.alloc aLen.toNat
        · rw [if_pos halloc] at h
          cases h
        · rw [if_neg halloc, Option.bind_eq_some_iff] at h
          obtain ⟨pkt, -, h⟩ := h
          split_ifs at h
          · exact moveToNextAt_lt (Prod.mk.inj (Option.some.inj h)).2
          · exact moveToNextAt_lt (Prod.mk.inj (Option.some.inj h)).2
          · exact moveToNextAt_lt (Prod.mk.inj (Option.some.inj h)).2

/-- The loop of `amsdu_to_msdu`; `a_len` is an `int` that only falls. -/
def subframeLoop (c : Rx) (ind : Indicate) (frame : List (BitVec 8)) (pdata : ℕ) (aLen : ℤ)
    (subframes : List (List (BitVec 8))) : Option (List (List (BitVec 8))) :=
  if _hlen : ethHlen < aLen then
    match _h : subframeTurn c ind frame pdata aLen subframes with
    | none => none
    | some (out, none) => some out
    | some (out, some (p, a)) => subframeLoop c ind frame p a out
  else some subframes
termination_by aLen.toNat
decreasing_by
  have hlt := subframeTurn_next _h
  unfold ethHlen at _hlen
  omega

/-- `amsdu_to_msdu` on a station or access point, behind header and IV and without the ICV. -/
def amsduToMsduAt (c : Rx) (ind : Indicate) (frame : List (BitVec 8)) :
    Option (List (List (BitVec 8))) :=
  subframeLoop c ind frame 0 frame.length []

/-- A subframe: its addresses and what follows the header. -/
structure Subframe where
  da : List (BitVec 8)
  sa : List (BitVec 8)
  msdu : List (BitVec 8)

/-- The bytes of a subframe, without the padding. -/
def Subframe.bytes (s : Subframe) : List (BitVec 8) :=
  s.da ++ s.sa ++ be16 s.msdu.length ++ s.msdu

/-- Whether the encapsulation of a subframe is removed. -/
def Subframe.llcRemove (s : Subframe) : Bool := rtwRecvLlcParse s.msdu s.msdu.length

/-- The Ethernet frame of a subframe. -/
def Subframe.eth (s : Subframe) : List (BitVec 8) :=
  if s.llcRemove then s.da ++ s.sa ++ s.msdu.drop snapSize
  else s.da ++ s.sa ++ be16 s.msdu.length ++ s.msdu

/-- The subframe at the front of a byte string that holds it. -/
def frontSubframe (l : List (BitVec 8)) : Subframe :=
  ⟨l.take 6, (l.drop 6).take 6, (l.drop ethHlen).take (getBe16 l 12)⟩

/-- What is to be done with the subframe at the front of a byte string. -/
def frontAct (c : Rx) (l : List (BitVec 8)) : Act :=
  c.act (frontSubframe l).da (frontSubframe l).sa (l.drop ethHlen) (frontSubframe l).llcRemove

section Front

variable {c : Rx} {l : List (BitVec 8)}

theorem length_frontSubframe_msdu (h : ethHlen + getBe16 l 12 ≤ l.length) :
    (frontSubframe l).msdu.length = getBe16 l 12 := by
  simp only [frontSubframe, List.length_take, List.length_drop]
  omega

theorem frontSubframe_bytes (h : ethHlen + getBe16 l 12 ≤ l.length) :
    (frontSubframe l).bytes = l.take (ethHlen + getBe16 l 12) := by
  unfold Subframe.bytes
  rw [length_frontSubframe_msdu h]
  unfold ethHlen at h
  rw [be16_getBe16 (by omega)]
  unfold frontSubframe ethHlen
  rw [List.take_add, show 14 = 12 + 2 from rfl, List.take_add, show 12 = 6 + 6 from rfl,
    List.take_add]

theorem frontSubframe_llcRemove (h : ethHlen + getBe16 l 12 ≤ l.length) :
    (frontSubframe l).llcRemove = rtwRecvLlcParse (l.drop ethHlen) (getBe16 l 12) := by
  unfold Subframe.llcRemove
  rw [length_frontSubframe_msdu h]
  unfold rtwRecvLlcParse
  split_ifs with h8
  · rfl
  · have htake : (frontSubframe l).msdu.take snapSize = (l.drop ethHlen).take snapSize := by
      rw [frontSubframe, List.take_take, min_eq_left (by unfold snapSize; omega)]
    have htype : getBe16 (frontSubframe l).msdu snapSize = getBe16 (l.drop ethHlen) snapSize :=
      getBe16_take (by unfold snapSize; omega)
    simp only [htake, htype]

theorem frontSubframe_eth (h : ethHlen + getBe16 l 12 ≤ l.length) :
    rtwOsAllocMsduPkt (frontSubframe l).da (frontSubframe l).sa (l.drop ethHlen) (getBe16 l 12)
      (frontSubframe l).llcRemove = (frontSubframe l).eth := by
  unfold rtwOsAllocMsduPkt Subframe.eth
  rw [length_frontSubframe_msdu h]
  rfl

/-- A turn of the loop on a station or access point, in terms of the subframe at the front. -/
theorem rxSubframe_front (hmesh : c.mesh = false) (h : ethHlen + getBe16 l 12 ≤ l.length)
    (oldDa oldSa : List (BitVec 8)) :
    rxSubframe c l oldDa oldSa =
      if !validateAmsduContent c (frontSubframe l).da (frontSubframe l).sa then none
      else if !(frontAct c l).indicate && !(frontAct c l).forward then
        some (none, ⟨true, (frontSubframe l).da, (frontSubframe l).sa, 0⟩)
      else if !c.alloc l.length then none
      else some (if (frontAct c l).indicate then some (frontSubframe l).eth else none,
        ⟨true, (frontSubframe l).da, (frontSubframe l).sa, 0⟩) := by
  have hlt := getBe16_lt l 12
  have hlen : (getBe16 l 12 + 65536 - 0) % 65536 = getBe16 l 12 := by omega
  unfold rxSubframe addrsOf
  rw [if_neg (not_lt.mpr h)]
  simp only [hmesh, Bool.false_eq_true, if_false, Nat.add_zero, hlen, Bool.not_true,
    ← frontSubframe_llcRemove h]
  change (if !validateAmsduContent c (frontSubframe l).da (frontSubframe l).sa then none
    else if !(frontAct c l).indicate && !(frontAct c l).forward then _
    else if _ then _ else if (frontAct c l).indicate then
      some (some (rtwOsAllocMsduPkt (frontSubframe l).da (frontSubframe l).sa _ _ _), _)
    else _) = _
  rw [frontSubframe_eth h]
  split_ifs <;> rfl

end Front

section Reads

variable {frame : List (BitVec 8)} {pdata n : ℕ}

theorem rtwRecvLlcParseAt_eq (hn : pdata + (ethHlen + n) ≤ frame.length)
    (hlen : getBe16 (frame.drop pdata) 12 = n) :
    rtwRecvLlcParseAt frame (pdata + ethHlen) n =
      some (frontSubframe (frame.drop pdata)).llcRemove := by
  rw [frontSubframe_llcRemove (by rw [hlen, List.length_drop]; omega), hlen, List.drop_drop]
  unfold rtwRecvLlcParseAt rtwRecvLlcParse
  split_ifs with h8
  · rfl
  · rw [loadBe16_eq (by unfold snapSize; omega), load_eq (by unfold snapSize; omega)]
    simp only [Option.bind_eq_bind, Option.bind_some, getBe16_drop]

theorem rtwOsAllocMsduPktAt_eq (hn : pdata + (ethHlen + n) ≤ frame.length)
    (hlen : getBe16 (frame.drop pdata) 12 = n) :
    rtwOsAllocMsduPktAt frame pdata (pdata + 6) (pdata + ethHlen) n
      (frontSubframe (frame.drop pdata)).llcRemove =
      some (frontSubframe (frame.drop pdata)).eth := by
  rw [← frontSubframe_eth (by rw [hlen, List.length_drop]; omega), hlen]
  unfold ethHlen at hn
  unfold rtwOsAllocMsduPktAt rtwOsAllocMsduPkt frontSubframe ethHlen
  rw [load_eq (by omega), load_eq (by omega), load_eq (by omega)]
  simp only [Option.bind_eq_bind, Option.bind_some, List.drop_drop]

theorem addrsAt_eq (c : Rx) (hn : pdata + 12 ≤ frame.length) :
    addrsAt c frame pdata =
      let s := frontSubframe (frame.drop pdata)
      some (if validateAmsduContent c s.da s.sa then some (s.da, s.sa) else none) := by
  unfold addrsAt frontSubframe
  rw [load_eq (by omega), load_eq (by omega)]
  simp only [Option.bind_eq_bind, Option.bind_some, List.drop_drop]

/-- Behind `move_to_next` offset and remaining length still make up the frame. -/
theorem moveToNextAt_eq {aLen : ℤ} (hinv : pdata + aLen = frame.length)
    (hn : ethHlen + getBe16 (frame.drop pdata) 12 ≤ aLen) (nr : ℕ) :
    moveToNextAt (getBe16 (frame.drop pdata) 12) nr pdata aLen =
      if nr ≥ maxSubframeCount then none
      else (moveToNext (frame.drop pdata)).map fun rest =>
        (frame.length - rest.length, (rest.length : ℤ)) := by
  generalize hm : getBe16 (frame.drop pdata) 12 = m at *
  have hleft : frame.length - (pdata + (ethHlen + m)) = (aLen - ethHlen - m).toNat := by omega
  unfold moveToNextAt moveToNext
  simp only [hm, List.drop_drop, List.length_drop, hleft]
  refine if_congr Iff.rfl rfl ?_
  by_cases hrest : aLen - ethHlen - m = 0
  · have hzero : ¬(aLen - ethHlen - m).toNat ≠ 0 := by omega
    rw [if_neg (not_not.mpr hrest), if_neg hzero]
    simp only [Option.map_some, List.length_drop, Option.some.injEq, Prod.mk.injEq]
    omega
  · have hpos : (aLen - ethHlen - m).toNat ≠ 0 := by omega
    rw [if_pos hrest, if_pos hpos]
    by_cases hpad : aLen - ethHlen - m < paddingLen (m + ethHlen)
    · have hshort : (aLen - ethHlen - m).toNat < paddingLen (m + ethHlen) := by omega
      rw [if_pos hpad, if_pos hshort]
      rfl
    · have hlong : ¬(aLen - ethHlen - m).toNat < paddingLen (m + ethHlen) := by omega
      rw [if_neg hpad, if_neg hlong]
      simp only [Option.map_some, List.length_drop, Option.some.injEq, Prod.mk.injEq]
      omega

end Reads

section Refines

variable {c : Rx} {ind : Indicate} {frame : List (BitVec 8)} {pdata : ℕ} {aLen : ℤ}

theorem indicate_passes (pkt : List (BitVec 8)) : ind.passes pdata pkt = true :=
  rtwRecvIndicatepktCheck_ret

/-- A turn reads only the frame and does what `rxSubframe` and `moveToNext` do. -/
theorem subframeTurn_eq (hmesh : c.mesh = false) (hinv : pdata + aLen = frame.length)
    (hlen : ethHlen < aLen) {subframes : List (List (BitVec 8))}
    (hnr : subframes.length < maxSubframeCount) (oldDa oldSa : List (BitVec 8)) :
    subframeTurn c ind frame pdata aLen subframes = some
      (match rxSubframe c (frame.drop pdata) oldDa oldSa with
      | none => (subframes, none)
      | some (pkt, _) =>
        (subframes ++ pkt.toList,
          if subframes.length + pkt.toList.length ≥ maxSubframeCount then none
          else (moveToNext (frame.drop pdata)).map fun rest =>
            (frame.length - rest.length, (rest.length : ℤ)))) := by
  have hdrop : (frame.drop pdata).length = aLen.toNat := by
    rw [List.length_drop]
    unfold ethHlen at hlen
    omega
  have hn0 : loadBe16 frame (pdata + 12) = some (getBe16 (frame.drop pdata) 12) := by
    rw [loadBe16_eq (by unfold ethHlen at hlen; omega), getBe16_drop]
  unfold subframeTurn
  rw [hn0, addrsAt_eq c (by unfold ethHlen at hlen; omega)]
  simp only [Option.bind_eq_bind, Option.bind_some]
  by_cases hn : aLen < ethHlen + getBe16 (frame.drop pdata) 12
  · have hshort : (frame.drop pdata).length < ethHlen + getBe16 (frame.drop pdata) 12 := by omega
    rw [if_pos hn, rxSubframe, if_pos hshort]
  · have hfit : ethHlen + getBe16 (frame.drop pdata) 12 ≤ (frame.drop pdata).length := by omega
    have hend : pdata + (ethHlen + getBe16 (frame.drop pdata) 12) ≤ frame.length := by omega
    rw [if_neg hn, rxSubframe_front hmesh hfit]
    by_cases hvalid : validateAmsduContent c (frontSubframe (frame.drop pdata)).da
        (frontSubframe (frame.drop pdata)).sa
    · simp only [hvalid, if_true, Bool.not_true, Bool.false_eq_true, if_false,
        rtwRecvLlcParseAt_eq hend rfl, Option.bind_some, rtwOsAllocMsduPktAt_eq hend rfl]
      rw [← List.drop_drop]
      change (if !(frontAct c (frame.drop pdata)).indicate &&
        !(frontAct c (frame.drop pdata)).forward then _ else if _ then _
        else if !(frontAct c (frame.drop pdata)).indicate then _ else _) = _
      simp only [moveToNextAt_eq hinv (show _ ≤ aLen by omega), hdrop]
      by_cases hact : !(frontAct c (frame.drop pdata)).indicate &&
          !(frontAct c (frame.drop pdata)).forward
      · simp only [hact, if_true, Option.toList_none, List.append_nil, List.length_nil,
          Nat.add_zero]
        rfl
      · rw [if_neg hact, if_neg hact]
        by_cases halloc : !c.alloc aLen.toNat
        · simp only [halloc, if_true]
        · rw [if_neg halloc, if_neg halloc]
          cases hind : (frontAct c (frame.drop pdata)).indicate
          · simp
          · simp [hnr, indicate_passes]
    · simp [hvalid]

theorem suffix_of_moveToNext {l rest : List (BitVec 8)} (h : moveToNext l = some rest) :
    rest <:+ l := by
  unfold moveToNext at h
  dsimp only at h
  split_ifs at h
  · obtain rfl := Option.some.inj h
    rw [List.drop_drop]
    exact List.drop_suffix _ _
  · obtain rfl := Option.some.inj h
    exact List.drop_suffix _ _

theorem subframeLoop_break (hlong : ethHlen < aLen) {subframes out : List (List (BitVec 8))}
    (h : subframeTurn c ind frame pdata aLen subframes = some (out, none)) :
    subframeLoop c ind frame pdata aLen subframes = some out := by
  rw [subframeLoop, dif_pos hlong]
  split <;> simp_all

theorem subframeLoop_next (hlong : ethHlen < aLen) {subframes out : List (List (BitVec 8))}
    {p : ℕ} {a : ℤ} (h : subframeTurn c ind frame pdata aLen subframes = some (out, some (p, a))) :
    subframeLoop c ind frame pdata aLen subframes = subframeLoop c ind frame p a out := by
  rw [subframeLoop, dif_pos hlong]
  split <;> simp_all

theorem amsduLoop_eq {l : List (BitVec 8)} (hlong : ethHlen < l.length) (nr : ℕ)
    (oldDa oldSa : List (BitVec 8)) :
    amsduLoop c nr oldDa oldSa l =
      match rxSubframe c l oldDa oldSa with
      | none => []
      | some (pkt, a) =>
        pkt.toList ++
          if nr + pkt.toList.length ≥ maxSubframeCount then []
          else ((moveToNext l).map (amsduLoop c (nr + pkt.toList.length) a.da a.sa)).getD [] := by
  rw [amsduLoop, dif_pos hlong]
  cases rxSubframe c l oldDa oldSa with
  | none => rfl
  | some x =>
    dsimp only
    split_ifs
    · rfl
    · split <;> simp_all

/-- The loop never reads behind the end of the frame. -/
theorem subframeLoop_eq (hmesh : c.mesh = false) (hinv : pdata + aLen = frame.length)
    (hlen : 0 ≤ aLen) {subframes : List (List (BitVec 8))}
    (hnr : subframes.length < maxSubframeCount) (oldDa oldSa : List (BitVec 8)) :
    subframeLoop c ind frame pdata aLen subframes =
      some (subframes ++ amsduLoop c subframes.length oldDa oldSa (frame.drop pdata)) := by
  induction hn : aLen.toNat using Nat.strong_induction_on
    generalizing pdata aLen subframes oldDa oldSa with
  | _ n ih =>
    have hdrop : (frame.drop pdata).length = aLen.toNat := by
      rw [List.length_drop]
      omega
    by_cases hlong : (ethHlen : ℤ) < aLen
    · have hturn := @subframeTurn_eq c ind frame pdata aLen hmesh hinv hlong subframes hnr oldDa
        oldSa
      rw [amsduLoop_eq (by omega)]
      rcases hrx : rxSubframe c (frame.drop pdata) oldDa oldSa with - | ⟨pkt, addrs⟩
      · rw [hrx] at hturn
        rw [subframeLoop_break hlong hturn, List.append_nil]
      · rw [hrx] at hturn
        dsimp only at hturn ⊢
        by_cases hfull : subframes.length + pkt.toList.length ≥ maxSubframeCount
        · rw [if_pos hfull] at hturn ⊢
          rw [subframeLoop_break hlong hturn, List.append_nil]
        · rw [if_neg hfull] at hturn ⊢
          rcases hmove : moveToNext (frame.drop pdata) with - | rest
          · rw [hmove] at hturn
            rw [subframeLoop_break hlong hturn]
            simp
          · rw [hmove] at hturn
            have hsuffix := (suffix_of_moveToNext hmove).trans (List.drop_suffix pdata frame)
            have hrest := hsuffix.length_le
            have hshort := moveToNext_length (by omega) hmove
            rw [subframeLoop_next hlong hturn, ih rest.length (by omega)
              (by omega) (by omega) (by rw [List.length_append]; omega) addrs.da addrs.sa (by simp)]
            rw [← List.suffix_iff_eq_drop.mp hsuffix, List.length_append, List.append_assoc]
            rfl
    · rw [subframeLoop, dif_neg hlong, amsduLoop, dif_neg (by omega), List.append_nil]

/-- On a station or access point `amsdu_to_msdu` reads nothing but the frame and, in the check, its
packets and what lies behind them. -/
theorem amsduToMsduAt_eq (hmesh : c.mesh = false) (oldDa oldSa : List (BitVec 8)) :
    amsduToMsduAt c ind frame = some (amsduToMsdu c oldDa oldSa frame) :=
  subframeLoop_eq hmesh (Int.zero_add _) (Int.natCast_nonneg _) (by decide) oldDa oldSa

end Refines

end Rtl8821cu.Amsdu
