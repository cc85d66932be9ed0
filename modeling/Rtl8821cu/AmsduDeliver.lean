import Rtl8821cu.AmsduBounds
import Rtl8821cu.AmsduRoundTrip

/-! What `amsdu_to_msdu` delivers of any frame: its well-formed subframes, each on its own. -/
namespace Rtl8821cu.Amsdu
open Bytes Load Store

/-- The next multiple of four. -/
def align4 (n : ℕ) : ℕ := (n + 3) / 4 * 4

theorem align4_eq (n : ℕ) : align4 n = n + paddingLen n := by
  unfold align4 paddingLen
  split_ifs <;> omega

theorem le_align4 (n : ℕ) : n ≤ align4 n := by
  rw [align4_eq]
  omega

/-- The maximal prefix of well-formed subframes, with their offsets: as long as `least` bytes are
left and the declared length does not exceed them, a subframe is taken and the next one starts at
the next multiple of four. -/
def subframesOf (least pos : ℕ) (l : List (BitVec 8)) : List (ℕ × Subframe) :=
  if _h : least ≤ l.length ∧ ethHlen + getBe16 l 12 ≤ l.length then
    (pos, frontSubframe l) :: subframesOf least (pos + align4 (ethHlen + getBe16 l 12))
      (l.drop (align4 (ethHlen + getBe16 l 12)))
  else []
termination_by l.length
decreasing_by
  have hle := le_align4 (ethHlen + getBe16 l 12)
  rw [List.length_drop]
  unfold ethHlen at *
  omega

theorem Subframe.two_le_length_bytes (s : Subframe) : 2 ≤ s.bytes.length := by
  simp only [Subframe.bytes, List.length_append, length_be16]
  omega

section Prefix

variable {least pos : ℕ} {l : List (BitVec 8)}

theorem length_frontSubframe_bytes (h : ethHlen + getBe16 l 12 ≤ l.length) :
    (frontSubframe l).bytes.length = ethHlen + getBe16 l 12 := by
  rw [frontSubframe_bytes h, List.length_take, min_eq_left h]

/-- Every subframe stands in the byte string at its offset. -/
theorem subframesOf_bytes {x : ℕ × Subframe} (hx : x ∈ subframesOf least pos l) :
    pos ≤ x.1 ∧ x.1 % 4 = pos % 4 ∧ x.1 - pos + x.2.bytes.length ≤ l.length ∧
      (l.drop (x.1 - pos)).take x.2.bytes.length = x.2.bytes := by
  induction hn : l.length using Nat.strong_induction_on generalizing pos l with
  | _ n ih =>
    rw [subframesOf] at hx
    split_ifs at hx with h
    · rcases List.mem_cons.mp hx with rfl | hx
      · rw [length_frontSubframe_bytes h.2, frontSubframe_bytes h.2]
        refine ⟨le_refl _, rfl, ?_, ?_⟩
        · rw [Nat.sub_self, Nat.zero_add, ← hn]
          exact h.2
        · rw [Nat.sub_self, List.drop_zero]
      · have hle := le_align4 (ethHlen + getBe16 l 12)
        have hfour : align4 (ethHlen + getBe16 l 12) % 4 = 0 := Nat.mul_mod_left _ _
        generalize align4 (ethHlen + getBe16 l 12) = step at *
        have hlt : (l.drop step).length < n := by
          rw [List.length_drop]
          unfold ethHlen at hle h
          omega
        obtain ⟨hpos, hmod, hend, hbytes⟩ := ih _ hlt hx rfl
        rw [List.length_drop] at hend
        rw [List.drop_drop, show step + (x.1 - (pos + step)) = x.1 - pos by omega] at hbytes
        have hsize := x.2.two_le_length_bytes
        exact ⟨by omega, by omega, by omega, hbytes⟩
    · cases hx

theorem fourteen_le_length_eth (h : ethHlen + getBe16 l 12 ≤ l.length) :
    14 ≤ (frontSubframe l).eth.length := by
  have hda : (frontSubframe l).da.length = 6 := by
    rw [frontSubframe, List.length_take]
    unfold ethHlen at h
    omega
  have hsa : (frontSubframe l).sa.length = 6 := by
    rw [frontSubframe, List.length_take, List.length_drop]
    unfold ethHlen at h
    omega
  unfold Subframe.eth
  split_ifs with hllc
  · have hlong : 8 ≤ (frontSubframe l).msdu.length := by
      unfold Subframe.llcRemove rtwRecvLlcParse at hllc
      split_ifs at hllc with hshort
      exact not_lt.mp hshort
    simp only [List.length_append, List.length_drop, hda, hsa]
    unfold snapSize
    omega
  · simp only [List.length_append, length_be16, hda, hsa]
    omega

/-- The Ethernet frame of every subframe has its header. -/
theorem subframesOf_eth {x : ℕ × Subframe} (hx : x ∈ subframesOf least pos l) :
    14 ≤ x.2.eth.length := by
  induction hn : l.length using Nat.strong_induction_on generalizing pos l with
  | _ n ih =>
    rw [subframesOf] at hx
    split_ifs at hx with h
    · rcases List.mem_cons.mp hx with rfl | hx
      · exact fourteen_le_length_eth h.2
      · refine ih _ ?_ hx rfl
        have hle := le_align4 (ethHlen + getBe16 l 12)
        rw [List.length_drop]
        unfold ethHlen at *
        omega
    · cases hx

/-- The subframes do not overlap. -/
theorem subframesOf_pairwise :
    (subframesOf least pos l).Pairwise fun x y => x.1 + x.2.bytes.length ≤ y.1 := by
  induction hn : l.length using Nat.strong_induction_on generalizing pos l with
  | _ n ih =>
    rw [subframesOf]
    split_ifs with h
    · have hle := le_align4 (ethHlen + getBe16 l 12)
      refine List.pairwise_cons.mpr ⟨fun y hy => ?_, ih _ ?_ rfl⟩
      · have hpos := (subframesOf_bytes hy).1
        rw [length_frontSubframe_bytes h.2]
        dsimp only
        omega
      · rw [List.length_drop]
        unfold ethHlen at *
        omega
    · exact List.Pairwise.nil

end Prefix

/-- What is to be done with a subframe of a frame. -/
def actOf (c : Rx) (frame : List (BitVec 8)) (x : ℕ × Subframe) : Act :=
  c.act x.2.da x.2.sa (frame.drop (x.1 + ethHlen)) x.2.llcRemove

/-- The content check lets a subframe pass, and if it is wanted there is a packet for it. -/
def passes (c : Rx) (frame : List (BitVec 8)) (x : ℕ × Subframe) : Bool :=
  validateAmsduContent c x.2.da x.2.sa &&
    ((!(actOf c frame x).indicate && !(actOf c frame x).forward) || c.alloc (frame.length - x.1))

/-- The Ethernet frames of the subframes that are indicated, up to the first that does not pass. -/
def indicated (c : Rx) (frame : List (BitVec 8)) (subs : List (ℕ × Subframe)) :
    List (List (BitVec 8)) :=
  ((subs.takeWhile (passes c frame)).filter fun x => (actOf c frame x).indicate).map fun x =>
    x.2.eth

section Deliver

variable {c : Rx} {ind : Indicate} {frame : List (BitVec 8)}

theorem moveToNext_getD {l : List (BitVec 8)} {α : Type*} (f : List (BitVec 8) → List α)
    (hf : f [] = []) :
    ((moveToNext l).map f).getD [] = f (l.drop (align4 (ethHlen + getBe16 l 12))) := by
  have hpad : align4 (ethHlen + getBe16 l 12) =
      ethHlen + getBe16 l 12 + paddingLen (getBe16 l 12 + ethHlen) := by
    rw [align4_eq, add_comm (getBe16 l 12) ethHlen]
  rw [hpad, ← List.drop_drop]
  unfold moveToNext
  dsimp only
  split_ifs with hrest hshort
  · rw [List.drop_of_length_le hshort.le, hf]
    rfl
  · rfl
  · rw [not_not, List.length_eq_zero_iff] at hrest
    rw [hrest, List.drop_nil]
    rfl

@[simp] theorem indicated_nil : indicated c frame [] = [] := rfl

theorem indicated_cons (x : ℕ × Subframe) (subs : List (ℕ × Subframe)) :
    indicated c frame (x :: subs) =
      if passes c frame x then
        (if (actOf c frame x).indicate then some x.2.eth else none).toList ++
          indicated c frame subs
      else [] := by
  unfold indicated
  rw [List.takeWhile_cons]
  cases hpass : passes c frame x
  · simp
  · cases hind : (actOf c frame x).indicate <;> simp [hind]

theorem actOf_front (pos : ℕ) :
    actOf c frame (pos, frontSubframe (frame.drop pos)) = frontAct c (frame.drop pos) := by
  rw [actOf, frontAct, List.drop_drop]

theorem rxSubframe_passes (hmesh : c.mesh = false) {pos : ℕ}
    (hfit : ethHlen + getBe16 (frame.drop pos) 12 ≤ (frame.drop pos).length)
    (oldDa oldSa : List (BitVec 8)) :
    rxSubframe c (frame.drop pos) oldDa oldSa =
      let s := frontSubframe (frame.drop pos)
      if passes c frame (pos, s) then
        some (if (actOf c frame (pos, s)).indicate then some s.eth else none,
          ⟨true, s.da, s.sa, 0⟩)
      else none := by
  rw [rxSubframe_front hmesh hfit]
  dsimp only
  rw [passes, actOf_front, List.length_drop]
  cases validateAmsduContent c (frontSubframe (frame.drop pos)).da
    (frontSubframe (frame.drop pos)).sa
  · rfl
  · cases (frontAct c (frame.drop pos)).indicate <;>
      cases (frontAct c (frame.drop pos)).forward <;>
      cases c.alloc (frame.length - pos) <;> rfl

/-- From any offset on the loop delivers the subframes that are there, while there is room. -/
theorem amsduLoop_delivers (hmesh : c.mesh = false) {nr : ℕ} (hnr : nr < maxSubframeCount)
    (pos : ℕ) (oldDa oldSa : List (BitVec 8)) :
    amsduLoop c nr oldDa oldSa (frame.drop pos) =
      (indicated c frame (subframesOf (ethHlen + 1) pos (frame.drop pos))).take
        (maxSubframeCount - nr) := by
  induction hn : (frame.drop pos).length using Nat.strong_induction_on
    generalizing pos nr oldDa oldSa with
  | _ n ih =>
    rw [subframesOf]
    by_cases hlong : ethHlen < (frame.drop pos).length
    · rw [amsduLoop_eq hlong]
      by_cases hfit : ethHlen + getBe16 (frame.drop pos) 12 ≤ (frame.drop pos).length
      · have hnext : ∀ k da sa, (if k ≥ maxSubframeCount then []
            else ((moveToNext (frame.drop pos)).map (amsduLoop c k da sa)).getD []) =
            (indicated c frame (subframesOf (ethHlen + 1)
              (pos + align4 (ethHlen + getBe16 (frame.drop pos) 12))
              ((frame.drop pos).drop (align4 (ethHlen + getBe16 (frame.drop pos) 12))))).take
                (maxSubframeCount - k) := by
          intro k da sa
          split_ifs with hk
          · rw [Nat.sub_eq_zero_of_le hk, List.take_zero]
          · have hle := le_align4 (ethHlen + getBe16 (frame.drop pos) 12)
            rw [moveToNext_getD _ (amsduLoop_nil k da sa), List.drop_drop]
            refine ih _ ?_ (not_le.mp hk) _ da sa rfl
            rw [← hn, ← List.drop_drop, List.length_drop (l := frame.drop pos)]
            unfold ethHlen at *
            omega
        rw [dif_pos ⟨hlong, hfit⟩, rxSubframe_passes hmesh hfit, indicated_cons]
        by_cases hpass : passes c frame (pos, frontSubframe (frame.drop pos))
        · dsimp only
          rw [if_pos hpass, if_pos hpass]
          generalize (if (actOf c frame (pos, frontSubframe (frame.drop pos))).indicate then
            some (frontSubframe (frame.drop pos)).eth else none) = pkt
          have hsize : pkt.toList.length ≤ maxSubframeCount - nr :=
            (Option.length_toList_le).trans (by omega)
          dsimp only
          rw [hnext, List.take_append, List.take_of_length_le hsize, Nat.sub_sub]
        · simp [hpass]
      · rw [dif_neg (fun h => hfit h.2), rxSubframe, if_pos (by omega), indicated_nil,
          List.take_nil]
    · rw [amsduLoop, dif_neg hlong, dif_neg (fun h => hlong h.1), indicated_nil, List.take_nil]

/-- Of any frame on a station or access point the loop reads only the bytes of the frame and
delivers, in order and up to `MAX_SUBFRAME_COUNT`, the subframes that are to be indicated, up to the
first that does not pass. The subframes are disjoint parts of the frame at multiples of four. The
check of a packet reads only the packet if that is neither IPv4 nor EAPOL. -/
theorem amsdu_to_msdu_delivers (c : Rx) (ind : Indicate) (frame : List (BitVec 8))
    (hmesh : c.mesh = false) :
    amsduToMsduAt c ind frame =
        some ((indicated c frame (subframesOf (ethHlen + 1) 0 frame)).take maxSubframeCount) ∧
      (∀ x ∈ subframesOf (ethHlen + 1) 0 frame, x.1 % 4 = 0 ∧
        x.1 + x.2.bytes.length ≤ frame.length ∧
        (frame.drop x.1).take x.2.bytes.length = x.2.bytes) ∧
      (subframesOf (ethHlen + 1) 0 frame).Pairwise (fun x y => x.1 + x.2.bytes.length ≤ y.1) ∧
      ∀ x ∈ subframesOf (ethHlen + 1) 0 frame, getBe16 x.2.eth 12 ≠ 0x0800 →
        getBe16 x.2.eth 12 ≠ 0x888e → ind.ctl.sinkUdpport = 0 →
          (rtwRecvIndicatepktCheck ind.ctl).Inside (store (ind.behind x.1) 0 x.2.eth) 0
            x.2.eth.length := by
  refine ⟨?_, fun x hx => ?_, subframesOf_pairwise, fun x hx hipv4 heapol hsink => ?_⟩
  · have hloop : amsduLoop c 0 [] [] (frame.drop 0) = _ :=
      amsduLoop_delivers hmesh (show 0 < maxSubframeCount by decide) 0 [] []
    rw [List.drop_zero, Nat.sub_zero] at hloop
    rw [amsduToMsduAt_eq hmesh [] [], amsduToMsdu, hloop]
  · obtain ⟨-, hmod, hend, hbytes⟩ := subframesOf_bytes hx
    rw [Nat.sub_zero] at hend hbytes
    exact ⟨hmod, hend, hbytes⟩
  · exact rtwRecvIndicatepktCheck_inside (holdsAt_store _ _ _) (subframesOf_eth hx) hipv4 heapol
      hsink

/-- No session is tracked and zeros lie behind the packets. -/
def untracked : Indicate := ⟨⟨none, true, 0⟩, fun _ _ => 0⟩

/-- A frame with two subframes of one byte each, the first padded. -/
def twoSubframes : List (BitVec 8) :=
  [2, 0, 0, 0, 0, 1, 2, 0, 0, 0, 0, 3, 0, 1, 0x45, 0,
    2, 0, 0, 0, 0, 4, 2, 0, 0, 0, 0, 2, 0, 1, 0x46]

theorem amsdu_to_msdu_delivers_two :
    amsduToMsduAt (indicating false false) untracked twoSubframes =
      some [[2, 0, 0, 0, 0, 1, 2, 0, 0, 0, 0, 3, 0, 1, 0x45],
        [2, 0, 0, 0, 0, 4, 2, 0, 0, 0, 0, 2, 0, 1, 0x46]] := by
  rw [(amsdu_to_msdu_delivers (indicating false false) untracked twoSubframes rfl).1, subframesOf,
    dif_pos (by decide), subframesOf, dif_pos (by decide), subframesOf, dif_neg (by decide)]
  decide

/-- On a protected network without signalled A-MSDUs the source of each subframe has to be the
transmitter, and the first other one ends the A-MSDU. -/
theorem amsdu_content_check_ends :
    ¬∀ (c : Rx) (ind : Indicate) (frame : List (BitVec 8)), c.mesh = false → (∀ n, c.alloc n = true) →
      (∀ da sa msdu llc, (c.act da sa msdu llc).indicate = true) →
      amsduToMsduAt c ind frame =
        some (((subframesOf ethHlen 0 frame).map fun x => x.2.eth).take maxSubframeCount) := by
  intro h
  have hall := h (indicating true true) untracked twoSubframes rfl (fun _ => rfl) (fun _ _ _ _ => rfl)
  have hnone : rxSubframe (indicating true true) twoSubframes [] [] = none := by decide
  rw [amsduToMsduAt_eq rfl [] [], amsduToMsdu, amsduLoop_eq (by decide), hnone, subframesOf,
    dif_pos (by decide)] at hall
  cases hall

end Deliver

end Rtl8821cu.Amsdu
