import Rtl8821cu.LibRun
import Rtl8821cu.LibWordMap

/-! Packet-number caches of the receive path (`core/rtw_recv.c`, `include/rtw_security.h`) and
the replay check on group-addressed frames over whole runs. -/
namespace Rtl8821cu.Recv
open Run Bitmap

/-- `enum security_type`, as far as data frames carry it. -/
inductive SecurityType
  | noPrivacy
  | wep40
  | tkip
  | tkipWtmic
  | aes
  | wep104
  | sms4
  | gcmp
  | ccmp256
  | gcmp256
  deriving DecidableEq, Repr

/-- `PN_LESS_CHK(a, b)`. -/
def pnLessChk (a b : BitVec 64) : Bool := (a - b) &&& 0x800000000000 != 0

/-- `VALID_PN_CHK(new, old)`. -/
def validPnChk (new old : BitVec 64) : Bool := old == 0 || pnLessChk old new

/-- `CCMPH_2_PN`: the packet number in the eight bytes of a CCMP header. -/
def ccmph2Pn (ch : BitVec 64) : BitVec 64 :=
  ch &&& 0x000000000000ffff ||| (ch &&& 0xffffffff00000000) >>> 16

/-- `CCMPH_2_KEYID`: bits 30 and 31. -/
def ccmph2Keyid (ch : BitVec 64) : BitVec 2 := ch.extractLsb' 30 2

/-- The unicast cache of a station: the last eight-byte header per TID. -/
structure RxCache where
  iv : ℕ → BitVec 64
  lastTid : ℕ

/-- `ivHdr` is the eight bytes behind the MAC header; `none` is `_FAIL`. -/
def recvUcastPnDecache (c : RxCache) (encrypt : SecurityType) (tid : ℕ) (ivHdr : BitVec 64) :
    Option RxCache :=
  if 15 < tid then none
  else if encrypt = .aes then
    if validPnChk (ccmph2Pn ivHdr) (ccmph2Pn (c.iv tid)) then
      some { iv := Function.update c.iv tid ivHdr, lastTid := tid }
    else some c
  else some c

def pnMask : BitVec 64 := 0x0000ffffffffffff

/-- `ivSeq` is `securitypriv.iv_seq`; `stationState` is the `WIFI_STATION_STATE` test. -/
def recvBcastPnDecache (ivSeq : BitVec 2 → BitVec 64) (stationState : Bool)
    (encrypt : SecurityType) (ivHdr : BitVec 64) : Option (BitVec 2 → BitVec 64) :=
  if encrypt = .aes ∧ stationState then
    let keyId := ccmph2Keyid ivHdr
    let pktPn := ccmph2Pn ivHdr
    let currPn := ivSeq keyId &&& pnMask
    if !validPnChk pktPn currPn then none else some (Function.update ivSeq keyId pktPn)
  else some ivSeq

section Arithmetic

theorem ccmph2Pn_lt (ch : BitVec 64) : (ccmph2Pn ch).toNat < 2 ^ 48 := by
  unfold ccmph2Pn
  rw [BitVec.toNat_or]
  refine Nat.or_lt_two_pow ?_ ?_
  · rw [BitVec.toNat_and]
    exact lt_of_le_of_lt Nat.and_le_right (by decide)
  · rw [BitVec.toNat_ushiftRight, Nat.shiftRight_eq_div_pow]
    have := (ch &&& 0xffffffff00000000).isLt
    omega

theorem and_mask48_lt (x : BitVec 64) : (x &&& pnMask).toNat < 2 ^ 48 := by
  rw [BitVec.toNat_and]
  exact lt_of_le_of_lt Nat.and_le_right (by decide)

theorem and_mask48_of_lt {x : BitVec 64} (h : x.toNat < 2 ^ 48) : x &&& pnMask = x := by
  apply BitVec.eq_of_toNat_eq
  rw [BitVec.toNat_and]
  exact (Nat.and_two_pow_sub_one_eq_mod x.toNat 48).trans (Nat.mod_eq_of_lt h)

/-- The half-range test read on 48-bit numbers. -/
theorem pnLessChk_iff {a b : BitVec 64} (ha : a.toNat < 2 ^ 48) (hb : b.toNat < 2 ^ 48) :
    pnLessChk a b = true ↔
      (a.toNat < b.toNat ∧ b.toNat ≤ a.toNat + 2 ^ 47) ∨ b.toNat + 2 ^ 47 ≤ a.toNat := by
  have hmask : (0x800000000000 : BitVec 64) = BitVec.twoPow 64 47 := by decide
  have hbit : pnLessChk a b = (a - b).getLsbD 47 := by
    rw [pnLessChk, hmask]
    cases hg : (a - b).getLsbD 47 with
    | false => simpa using (and_twoPow_eq_zero _ (by decide)).mpr hg
    | true =>
      have hne := mt (and_twoPow_eq_zero (a - b) (show 47 < 64 by decide)).mp (by simp [hg])
      simpa using hne
  rw [hbit, BitVec.getLsbD, Nat.testBit_eq_decide_div_mod_eq, decide_eq_true_eq,
    BitVec.toNat_sub]
  omega

theorem validPnChk_iff {new old : BitVec 64} (hn : new.toNat < 2 ^ 48) (ho : old.toNat < 2 ^ 48) :
    validPnChk new old = true ↔ old = 0 ∨
      (old.toNat < new.toNat ∧ new.toNat ≤ old.toNat + 2 ^ 47) ∨
      new.toNat + 2 ^ 47 ≤ old.toNat := by
  rw [validPnChk, Bool.or_eq_true, pnLessChk_iff ho hn, beq_iff_eq]

end Arithmetic

/-- A group-addressed frame as the replay check sees it. -/
structure BcastFrame where
  encrypt : SecurityType
  ivHdr : BitVec 64
  deriving DecidableEq

def BcastFrame.keyId (f : BcastFrame) : BitVec 2 := ccmph2Keyid f.ivHdr

def BcastFrame.pn (f : BcastFrame) : ℕ := (ccmph2Pn f.ivHdr).toNat

/-- The cache together with the key ids and packet numbers accepted so far. -/
structure BcastRun where
  ivSeq : BitVec 2 → BitVec 64
  accepted : List (BitVec 2 × ℕ)

/-- The 48-bit number a frame is compared with. -/
def BcastRun.stored (r : BcastRun) (keyId : BitVec 2) : ℕ :=
  (r.ivSeq keyId &&& pnMask).toNat

def BcastRun.step (stationState : Bool) (r : BcastRun) (f : BcastFrame) : BcastRun :=
  match recvBcastPnDecache r.ivSeq stationState f.encrypt f.ivHdr with
  | none => r
  | some ivSeq => ⟨ivSeq, r.accepted ++ [(f.keyId, f.pn)]⟩

/-- A new number is legal exactly if nothing is stored yet or it is greater than what is. -/
def LegalExactly (stationState : Bool) (r : BcastRun) (f : BcastFrame) : Prop :=
  (recvBcastPnDecache r.ivSeq stationState f.encrypt f.ivHdr).isSome = true ↔
    r.stored f.keyId = 0 ∨ r.stored f.keyId < f.pn

/-- The accepted numbers of each key id are strictly increasing. -/
def AcceptedIncreasing (r : BcastRun) : Prop :=
  r.accepted.Pairwise fun a b => a.1 = b.1 → a.2 < b.2

/-- The frames on which the half-range test is the comparison it stands for: CCMP to a station,
a non-zero number, and no jump past half the space from a stored number. -/
def HalfRange (stationState : Bool) (r : BcastRun) (f : BcastFrame) : Prop :=
  f.encrypt = .aes ∧ stationState = true ∧ f.pn ≠ 0 ∧
    (r.stored f.keyId ≠ 0 → f.pn ≤ r.stored f.keyId + 2 ^ 47 ∧ r.stored f.keyId < f.pn + 2 ^ 47)

instance (s : Bool) (r : BcastRun) (f : BcastFrame) : Decidable (HalfRange s r f) :=
  inferInstanceAs (Decidable (_ ∧ _))

section Run
variable {stationState : Bool} {r : BcastRun} {f : BcastFrame}

theorem bcast_decache_eq (he : f.encrypt = .aes) (hs : stationState = true) :
    recvBcastPnDecache r.ivSeq stationState f.encrypt f.ivHdr =
      if validPnChk (ccmph2Pn f.ivHdr) (r.ivSeq f.keyId &&& pnMask) then
        some (Function.update r.ivSeq f.keyId (ccmph2Pn f.ivHdr)) else none := by
  simp only [recvBcastPnDecache, he, hs, and_self, if_true, BcastFrame.keyId]
  split_ifs <;> simp_all

theorem validPnChk_of_halfRange (h : HalfRange stationState r f) :
    validPnChk (ccmph2Pn f.ivHdr) (r.ivSeq f.keyId &&& pnMask) = true ↔
      r.stored f.keyId = 0 ∨ r.stored f.keyId < f.pn := by
  obtain ⟨-, -, -, hr⟩ := h
  have hzero : r.ivSeq f.keyId &&& pnMask = 0 ↔ (r.ivSeq f.keyId &&& pnMask).toNat = 0 :=
    (BitVec.toNat_eq (y := 0)).trans (by simp)
  rw [validPnChk_iff (ccmph2Pn_lt _) (and_mask48_lt _), hzero]
  unfold BcastRun.stored BcastFrame.pn at *
  constructor
  · rintro (h0 | h1 | h2)
    · exact Or.inl h0
    · exact Or.inr h1.1
    · omega
  · rintro (h0 | h1)
    · exact Or.inl h0
    · by_cases h0 : (r.ivSeq f.keyId &&& pnMask).toNat = 0
      · exact Or.inl h0
      · exact Or.inr (Or.inl ⟨h1, (hr h0).1⟩)

theorem legalExactly_of_halfRange (h : HalfRange stationState r f) :
    LegalExactly stationState r f := by
  rw [LegalExactly, bcast_decache_eq h.1 h.2.1, ← validPnChk_of_halfRange h]
  split_ifs with hv
  · simp [hv]
  · simp [hv]

/-- Every accepted number is at most the one now stored for its key id. -/
structure PnInv (r : BcastRun) : Prop where
  bounded : ∀ p ∈ r.accepted, p.2 ≤ r.stored p.1 ∧ r.stored p.1 ≠ 0
  increasing : AcceptedIncreasing r

theorem PnInv.step (stationState : Bool) (r : BcastRun) (f : BcastFrame) (hi : PnInv r)
    (h : HalfRange stationState r f) : PnInv (r.step stationState f) := by
  by_cases hv : validPnChk (ccmph2Pn f.ivHdr) (r.ivSeq f.keyId &&& pnMask) = true
  · have hstep : r.step stationState f =
        ⟨Function.update r.ivSeq f.keyId (ccmph2Pn f.ivHdr), r.accepted ++ [(f.keyId, f.pn)]⟩ := by
      rw [BcastRun.step, bcast_decache_eq h.1 h.2.1, if_pos hv]
    have hlegal := (validPnChk_of_halfRange h).mp hv
    have hself : (r.step stationState f).stored f.keyId = f.pn := by
      simp only [hstep, BcastRun.stored, Function.update_self, and_mask48_of_lt (ccmph2Pn_lt _)]
      rfl
    have hother : ∀ k, k ≠ f.keyId → (r.step stationState f).stored k = r.stored k := by
      intro k hk
      simp only [hstep, BcastRun.stored, Function.update_of_ne hk]
    have hacc : (r.step stationState f).accepted = r.accepted ++ [(f.keyId, f.pn)] := by
      rw [hstep]
    have hlt : ∀ p ∈ r.accepted, p.1 = f.keyId → p.2 < f.pn := by
      intro p hp hk
      obtain ⟨hle, hne⟩ := hi.bounded p hp
      rw [hk] at hle hne
      have := hlegal.resolve_left hne
      omega
    refine ⟨?_, ?_⟩
    · intro p hp
      rw [hacc, List.mem_append, List.mem_singleton] at hp
      rcases hp with hp | rfl
      · by_cases hk : p.1 = f.keyId
        · rw [hk, hself]
          exact ⟨(hlt p hp hk).le, h.2.2.1⟩
        · rw [hother p.1 hk]
          exact hi.bounded p hp
      · rw [hself]
        exact ⟨le_rfl, h.2.2.1⟩
    · rw [AcceptedIncreasing, hacc, List.pairwise_append]
      refine ⟨hi.increasing, List.pairwise_singleton _ _, ?_⟩
      intro p hp q hq hk
      obtain rfl := List.mem_singleton.mp hq
      exact hlt p hp hk
  · have hstep : r.step stationState f = r := by
      rw [BcastRun.step, bcast_decache_eq h.1 h.2.1, if_neg hv]
    rw [hstep]
    exact hi

end Run

/-- In every run of such frames a number is accepted exactly if it is legal, and the accepted
numbers of each key id strictly increase; so no pair of key id and number is accepted twice. -/
theorem bcast_pn_increasing (stationState : Bool) (ivSeq : BitVec 2 → BitVec 64)
    (frames : List BcastFrame)
    (h : Along (BcastRun.step stationState) (HalfRange stationState) ⟨ivSeq, []⟩ frames) :
    Along (BcastRun.step stationState) (LegalExactly stationState) ⟨ivSeq, []⟩ frames ∧
      AcceptedIncreasing (run (BcastRun.step stationState) ⟨ivSeq, []⟩ frames) ∧
      (run (BcastRun.step stationState) ⟨ivSeq, []⟩ frames).accepted.Nodup := by
  have h0 : PnInv ⟨ivSeq, []⟩ := ⟨by simp, by simp [AcceptedIncreasing]⟩
  have hend := run_invariant (PnInv.step stationState) h0 h
  refine ⟨along_mono (PnInv.step stationState)
    (fun _ _ _ hr => legalExactly_of_halfRange hr) h0 h, hend.increasing, ?_⟩
  refine hend.increasing.imp ?_
  intro a b hab heq
  have := hab (by rw [heq])
  rw [heq] at this
  exact lt_irrefl _ this

/-- The CCMP header of key id 1 and the given packet number. -/
def ccmpHdr (pn : BitVec 64) : BitVec 64 :=
  pn &&& 0xffff ||| (pn &&& 0xffffffff0000) <<< 16 ||| 0x60000000

theorem bcast_pn_increasing_three :
    (run (BcastRun.step true) ⟨fun _ => 0, []⟩
      [⟨.aes, ccmpHdr 7⟩, ⟨.aes, ccmpHdr 5⟩, ⟨.aes, ccmpHdr 0x10000⟩]).accepted.Nodup :=
  (bcast_pn_increasing true (fun _ => 0) _ (by
    refine ⟨?_, ?_, ?_, trivial⟩ <;> decide)).2.2

/-- After the number `2^47 + 1` the smaller number 1 is accepted. -/
theorem bcast_pn_half_range_replay :
    ¬ ∀ frames : List BcastFrame,
      (∀ f ∈ frames, f.encrypt = .aes) →
        AcceptedIncreasing (run (BcastRun.step true) ⟨fun _ => 0, []⟩ frames) := by
  intro h
  have h2 := h [⟨.aes, ccmpHdr 0x800000000001⟩, ⟨.aes, ccmpHdr 1⟩] (by decide)
  revert h2
  unfold AcceptedIncreasing
  decide

end Rtl8821cu.Recv
