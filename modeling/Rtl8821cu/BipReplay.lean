import Rtl8821cu.Bip

/-! Which frames `rtw_bip_verify` accepts, and the packet numbers it accepts over a run. -/
namespace Rtl8821cu.Bip
open Bytes Run

/-- The size of an MME: element id, length, key id, packet number and MIC. -/
def mmeSize (gmcs : BipCipher) : ℕ := 2 + 2 + 6 + micLen gmcs

/-- The arguments of `rtw_bip_verify`, except for the stored packet number. -/
structure Call where
  gmcs : BipCipher
  pktLen : ℕ
  whdr : List Byte
  key : List Byte
  keyid : ℕ

/-- The checks behind the one of the length. -/
structure MmeMatches (P : MicPrimitive) (ipn : ℕ) (c : Call) : Prop where
  element : c.whdr.getD (mmePos c.gmcs c.whdr) 0 = mmeIe
  keyid : ofLe ((c.whdr.drop (mmePos c.gmcs c.whdr + 2)).take 2) = c.keyid
  newer : ipn < pktIpn c.gmcs c.whdr
  mic : (rtwCalculateBipMic P c.gmcs c.whdr c.pktLen c.key (bipAad c.whdr ++
      ((c.whdr.drop 24).take (c.whdr.length - 24 - micLen c.gmcs) ++
        List.replicate (micLen c.gmcs) 0))).take (micLen c.gmcs) =
    c.whdr.drop (c.whdr.length - micLen c.gmcs)

/-- The verdict of a call, and the stored packet number behind it. -/
def Call.verify (P : MicPrimitive) (ipn : ℕ) (c : Call) : Ret × ℕ :=
  rtwBipVerify P c.gmcs c.pktLen c.whdr c.key c.keyid ipn

/-- What a call should do: accept only a frame with a whole MME behind the header that matches, and
store the packet number of what it accepts only. -/
structure Sound (P : MicPrimitive) (ipn : ℕ) (c : Call) : Prop where
  whole : (c.verify P ipn).1 = .success → 24 + mmeSize c.gmcs ≤ c.whdr.length
  checked : (c.verify P ipn).1 = .success → MmeMatches P ipn c
  stored : (c.verify P ipn).2 =
    if (c.verify P ipn).1 = .success then pktIpn c.gmcs c.whdr else ipn

/-- The stored packet number of a key, and those of the accepted frames, the last one first. -/
structure Replay where
  ipn : ℕ
  accepted : List ℕ

def receive (P : MicPrimitive) (s : Replay) (c : Call) : Replay :=
  ⟨(c.verify P s.ipn).2, if (c.verify P s.ipn).1 = .success then
    pktIpn c.gmcs c.whdr :: s.accepted else s.accepted⟩

section Sound

variable {P : MicPrimitive} {ipn : ℕ} {c : Call}

theorem verify_success_iff :
    (c.verify P ipn).1 = .success ↔ 24 + micLen c.gmcs ≤ c.whdr.length ∧ MmeMatches P ipn c := by
  unfold Call.verify rtwBipVerify
  dsimp only
  constructor
  · intro h
    split_ifs at h with hlen hie hid hipn hmic
    exact ⟨by omega, not_not.mp hie, not_not.mp hid, not_le.mp hipn, hmic⟩
  · rintro ⟨hlen, hmatch⟩
    rw [if_neg (by omega), if_neg (not_not.mpr hmatch.element), if_neg (not_not.mpr hmatch.keyid),
      if_neg (not_le.mpr hmatch.newer), if_pos hmatch.mic]

theorem verify_stored : (c.verify P ipn).2 =
    if (c.verify P ipn).1 = .success then pktIpn c.gmcs c.whdr else ipn := by
  unfold Call.verify rtwBipVerify
  dsimp only
  split_ifs <;> first | rfl | contradiction

/-- A call goes wrong only for a frame with room for the MIC but not for the MME whose header bytes
happen to pass. -/
theorem sound_iff : Sound P ipn c ↔
    (24 + micLen c.gmcs ≤ c.whdr.length → c.whdr.length < 24 + mmeSize c.gmcs →
      ¬MmeMatches P ipn c) := by
  constructor
  · intro h hroom hshort hmatch
    have := h.whole (verify_success_iff.mpr ⟨hroom, hmatch⟩)
    omega
  · intro h
    refine ⟨fun hs => ?_, fun hs => (verify_success_iff.mp hs).2, verify_stored⟩
    obtain ⟨hroom, hmatch⟩ := verify_success_iff.mp hs
    by_contra hlt
    exact h hroom (not_le.mp hlt) hmatch

end Sound

/-- The accepted packet numbers increase, up to the stored one. -/
structure Increasing (s : Replay) : Prop where
  sorted : s.accepted.Pairwise (· > ·)
  last : ∀ n ∈ s.accepted.head?, n = s.ipn

theorem increasing_receive (P : MicPrimitive) {s : Replay} (h : Increasing s) (c : Call) :
    Increasing (receive P s c) := by
  by_cases hs : (c.verify P s.ipn).1 = .success
  · have hnewer := (verify_success_iff.mp hs).2.newer
    have hle : ∀ n ∈ s.accepted, n ≤ s.ipn := by
      intro n hn
      obtain ⟨hsorted, hlast⟩ := h
      cases haccepted : s.accepted with
      | nil => simp [haccepted] at hn
      | cons m l =>
        rw [haccepted] at hn hsorted hlast
        have hm : m = s.ipn := hlast m rfl
        rcases List.mem_cons.mp hn with rfl | hn
        · exact hm.le
        · have := (List.pairwise_cons.mp hsorted).1 n hn
          omega
    refine ⟨?_, ?_⟩
    · simp only [receive, hs, if_true]
      exact List.pairwise_cons.mpr ⟨fun n hn => (hle n hn).trans_lt hnewer, h.sorted⟩
    · simp only [receive, verify_stored, hs, if_true]
      intro n hn
      exact (Option.some.inj hn).symm
  · have heq : receive P s c = s := by
      simp only [receive, verify_stored, hs, if_false]
    rw [heq]
    exact h

/-- Over any run of calls for one stored packet number: every call does what it should, and the
accepted packet numbers increase, exactly if no frame with room for the MIC but not for the MME
passes the checks. -/
theorem bip_run_sound_iff (P : MicPrimitive) (ipn : ℕ) (calls : List Call) :
    (Along (receive P) (fun s c => Sound P s.ipn c) ⟨ipn, []⟩ calls ∧
      ∀ k, (run (receive P) ⟨ipn, []⟩ (calls.take k)).accepted.Pairwise (· > ·)) ↔
    Along (receive P) (fun s c => 24 + micLen c.gmcs ≤ c.whdr.length →
      c.whdr.length < 24 + mmeSize c.gmcs → ¬MmeMatches P s.ipn c) ⟨ipn, []⟩ calls := by
  have hsound : Along (receive P) (fun s c => Sound P s.ipn c) ⟨ipn, []⟩ calls ↔
      Along (receive P) (fun s c => 24 + micLen c.gmcs ≤ c.whdr.length →
        c.whdr.length < 24 + mmeSize c.gmcs → ¬MmeMatches P s.ipn c) ⟨ipn, []⟩ calls := by
    simp only [sound_iff]
  have hstart : Increasing ⟨ipn, []⟩ := ⟨List.Pairwise.nil, by simp⟩
  rw [hsound, and_iff_left]
  intro k
  have hkept : Increasing (run (receive P) ⟨ipn, []⟩ (calls.take k)) :=
    run_invariant (P := fun _ _ => True) (fun s c hs _ => increasing_receive P hs c) hstart
      (along_of_forall fun _ _ _ => trivial)
  exact hkept.sorted

/-- A frame of a header and eight bytes: the third address and the sequence number read as an MME. -/
def headerAsMme : List Byte :=
  List.replicate 14 0 ++ [mmeIe, 0, 4, 0] ++ leBytes 6 1 ++ List.replicate 8 1

/-- A primitive with one MIC for everything. -/
def constantMic : MicPrimitive := ⟨fun _ _ _ _ => List.replicate 16 1, fun _ _ _ _ => rfl⟩

/-- The MME of an accepted frame can lie in the header. -/
theorem bip_accepts_header :
    ¬∀ (P : MicPrimitive) (ipn : ℕ) (c : Call), Sound P ipn c := by
  intro h
  have hmatch : MmeMatches constantMic 0 ⟨.cmac128, 32, headerAsMme, [], 4⟩ :=
    ⟨by decide, by decide, by decide, by decide⟩
  exact sound_iff.mp (h constantMic 0 ⟨.cmac128, 32, headerAsMme, [], 4⟩) (by decide) (by decide)
    hmatch

end Rtl8821cu.Bip
