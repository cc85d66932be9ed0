import Rtl8821cu.MeshForward

/-! The TTL of forwarded mesh data frames, and how often a frame is forwarded. -/
namespace Rtl8821cu.MeshFwd
open Run

/-- A frame that is sent on for a received one: its TTL is one less, as a byte, and it has the
received sequence number. -/
def Attrib.Forwards (a : Attrib) (node : Node) (m : Mctrl) : Prop :=
  a.mfwdTtl = m.ttl - 1 ∧ a.mseq = node.order.le32 m.seqnum

section Check

variable {node : Node} {env : Env} {rx : Rx}

/-- The unicast frames for a received group frame take its TTL and sequence number. -/
theorem b2uLoop_frames (da sa mda msa ta : Mac) (aeNeed : Bool) (ttl : BitVec 8) (l : List Sta)
    (n num : ℕ) (mseq seqnum : BitVec 32) :
    let r := b2uLoop node env da sa mda msa aeNeed (some ta) ttl l n num mseq seqnum
    r.mseq = mseq ∧ ∀ a ∈ r.frames, a.mfwdTtl = ttl ∧ a.mseq = mseq := by
  induction l generalizing n num with
  | nil => exact ⟨rfl, by simp [b2uLoop]⟩
  | cons sta l ih =>
    simp only [b2uLoop, Option.isNone_some, Bool.and_false, Bool.false_eq_true, if_false,
      Option.isSome_some, if_true]
    split
    · exact ih n num
    · split
      · exact ⟨rfl, by simp⟩
      · obtain ⟨hmseq, hframes⟩ := ih (n + 1) (num + 1)
        refine ⟨hmseq, fun a ha => ?_⟩
        rcases List.mem_cons.1 ha with rfl | ha
        · exact ⟨rfl, rfl⟩
        · exact hframes a ha

theorem fwdB2u_frames (node : Node) (env : Env) (rx : Rx) :
    (fwdB2u node env rx).mseq = node.order.le32 rx.mctrl.seqnum ∧
      ∀ a ∈ (fwdB2u node env rx).frames, a.Forwards node rx.mctrl := by
  unfold fwdB2u
  split
  · exact b2uLoop_frames _ _ _ _ _ _ _ _ _ _ _ _
  · exact ⟨rfl, by simp⟩

/-- `fwd_chk` sends frames on only for a TTL other than 1. -/
theorem fwdChk_frames {act : Act} (hact : act.forward = false) (hnone : act.fwdFrame = none)
    {fwdRa : Mac} (h : (fwdChk node env rx act fwdRa).forward = true) :
    rx.mctrl.ttl ≠ 1 ∧ ∀ a ∈ (fwdChk node env rx act fwdRa).frames, a.Forwards node rx.mctrl := by
  obtain ⟨hmseq, hframes⟩ := fwdB2u_frames node env rx
  revert h
  unfold fwdChk
  split
  · simp [hact]
  split
  · simp [hact]
  rename_i httl
  dsimp only
  split
  · split
    · simp [hact]
    · refine fun _ => ⟨httl, fun a ha => ?_⟩
      rcases List.mem_append.1 ha with ha | ha
      · exact hframes a ha
      · obtain rfl : a = fwdAttrib node rx (fwdB2u node env rx) fwdRa := by simpa using ha
        exact ⟨rfl, hmseq⟩
  · refine fun _ => ⟨httl, fun a ha => ?_⟩
    rw [Act.frames, hnone, Option.toList_none, List.append_nil] at ha
    exact hframes a ha

theorem meshRxMsduActCheck_frames (h : (meshRxMsduActCheck node env rx).forward = true) :
    rx.mctrl.ttl ≠ 1 ∧
      ∀ a ∈ (meshRxMsduActCheck node env rx).frames, a.Forwards node rx.mctrl := by
  revert h
  unfold meshRxMsduActCheck
  generalize (if rx.mctrl.ae != 0 && rx.sa != rx.msa then some (rx.sa, rx.msa) else none) = proxy
  dsimp only
  split
  · simp
  split
  · simp
  split
  · split
    · simp
    · exact fwdChk_frames rfl rfl
  split
  · split
    · simp
    · split
      · simp
      · exact fwdChk_frames rfl rfl
  · simp

/-- The Mesh Control field of a frame that is sent on. -/
theorem meshTxBuildMctrl_ttl (node : Node) {attrib : Attrib} (h : attrib.mfwdTtl ≠ 0) :
    (meshTxBuildMctrl node attrib).1.ttl = attrib.mfwdTtl ∧
      (meshTxBuildMctrl node attrib).1.seqnum = node.order.le32 attrib.mseq := by
  unfold meshTxBuildMctrl
  rw [if_pos (Or.inl h), if_neg h]
  dsimp only
  split <;> exact ⟨rfl, rfl⟩

theorem meshTxBuildMctrl_forwards {m : Mctrl} {a : Attrib} (ha : a.Forwards node m)
    (h : m.ttl ≠ 1) :
    (meshTxBuildMctrl node a).1.ttl = m.ttl - 1 ∧
      (meshTxBuildMctrl node a).1.seqnum = m.seqnum := by
  have hne : a.mfwdTtl ≠ 0 := by
    rw [ha.1]
    bv_omega
  obtain ⟨httl, hseq⟩ := meshTxBuildMctrl_ttl node hne
  rw [httl, hseq, ha.1, ha.2, node.order.le32_le32]
  exact ⟨rfl, rfl⟩

end Check

/-- Forwarding a frame with this Mesh Control field takes from its TTL and keeps its sequence
number. -/
def ConsumesTtl (m : Mctrl) : Prop :=
  ∀ (node : Node) (env : Env) (rx : Rx), rx.mctrl = m →
    (meshRxMsduActCheck node env rx).forward = true →
      ∀ a ∈ (meshRxMsduActCheck node env rx).frames,
        (meshTxBuildMctrl node a).1.ttl < m.ttl ∧
          (meshTxBuildMctrl node a).1.seqnum = m.seqnum

section Network

variable {ι : Type} [DecidableEq ι]

/-- A frame that has been forwarded has had its TTL taken from each time. -/
def Air.Spent (f : Air) : Prop := f.hops = 0 ∨ f.mctrl.ttl ≠ 0 ∧ f.hops + f.mctrl.ttl.toNat ≤ 256

theorem rxValidate_mctrl {f : Air} {rx : Rx} (h : rxValidate f = some rx) : rx.mctrl = f.mctrl := by
  unfold rxValidate at h
  repeat' split at h
  all_goals simp at h
  all_goals rw [← h]

theorem buildFrame_fields (node : Node) (attrib : Attrib) (hops : ℕ) :
    (buildFrame node attrib hops).mctrl = (meshTxBuildMctrl node attrib).1 ∧
      (buildFrame node attrib hops).hops = hops := by
  unfold buildFrame
  dsimp only
  split <;> exact ⟨rfl, rfl⟩

theorem forwardFrames_spent {node : Node} {env : Env} {f g : Air} (hf : f.Spent)
    (hg : g ∈ forwardFrames node env f) : g.Spent := by
  unfold forwardFrames at hg
  split at hg
  · simp at hg
  · rename_i rx hrx
    dsimp only at hg
    split at hg
    · rename_i hforward
      obtain ⟨httl, hframes⟩ := meshRxMsduActCheck_frames hforward
      obtain ⟨a, ha, rfl⟩ := List.mem_map.1 hg
      obtain ⟨hmctrl, hhops⟩ := buildFrame_fields node a (f.hops + 1)
      have hbuilt := (meshTxBuildMctrl_forwards (hframes a ha) httl).1
      rw [rxValidate_mctrl hrx] at httl hbuilt
      unfold Air.Spent at hf ⊢
      rw [hmctrl, hhops, hbuilt]
      refine Or.inr ⟨by bv_omega, ?_⟩
      rcases hf with hzero | ⟨hne, hle⟩
      · bv_omega
      · bv_omega
    · simp at hg

theorem step_spent {net : Net ι} (h : ∀ f ∈ net.air, f.Spent) (e : Event ι) :
    ∀ f ∈ (net.step e).air, f.Spent := by
  cases e with
  | originate f =>
    intro g hg
    rcases List.mem_append.1 hg with hg | hg
    · exact h g hg
    · obtain rfl := List.mem_singleton.1 hg
      exact Or.inl rfl
  | deliver i k env =>
    unfold Net.step
    dsimp only
    split
    · exact h
    · rename_i f hf
      intro g hg
      rcases List.mem_append.1 hg with hg | hg
      · exact h g hg
      · exact forwardFrames_spent (h f (List.mem_of_getElem? hf)) hg
  | configure i node => exact h

theorem run_spent (nodes : ι → Node) (es : List (Event ι)) :
    ∀ f ∈ (run Net.step ⟨nodes, []⟩ es).air, f.Spent :=
  run_invariant (I := fun net : Net ι => ∀ f ∈ net.air, f.Spent) (P := fun _ _ => True)
    (fun _ e hnet _ => step_spent hnet e) (by simp) (along_of_forall fun _ _ _ => trivial)

end Network

/-- A little-endian processor. -/
def littleEndian : ByteOrder := ⟨id, fun _ => rfl⟩

/-- A node with two neighbours that forwards. -/
def relayNode : Node where
  order := littleEndian
  macAddr := Mac.ending 1
  dot11MeshForwarding := true
  dot11MeshTTL := 31
  b2uFlagsMfwd := 0
  meshSeqnum := 0
  asocList := [⟨.ending 2, true⟩, ⟨.ending 3, true⟩]

/-- Every path is known and every allocation succeeds. -/
def openEnv : Env := ⟨fun _ _ => false, fun mda _ => some mda, fun _ => true⟩

/-- A frame from one neighbour to the other. -/
def passing (m : Mctrl) : Rx where
  mda := Mac.ending 3
  msa := Mac.ending 2
  da := Mac.ending 3
  sa := Mac.ending 2
  ta := Mac.ending 2
  ucst := true
  mctrl := m

section Exact

/-- A frame with TTL 0 is forwarded. -/
theorem passing_forward {m : Mctrl} (h : m.ttl = 0) :
    (meshRxMsduActCheck relayNode openEnv (passing m)).forward = true ∧
      (meshRxMsduActCheck relayNode openEnv (passing m)).frames ≠ [] := by
  have hmsa : ((passing m).msa == relayNode.macAddr) = false := rfl
  have hmda : ((passing m).mda == relayNode.macAddr) = false := rfl
  have hmcast : (passing m).mda.isMcast = false := by
    show Mac.isMcast #v[2, 0, 0, 0, 0, 3] = false
    decide
  have httl : (passing m).mctrl.ttl ≠ 1#8 := by
    show m.ttl ≠ 1#8
    rw [h]
    decide
  have hforwarding : relayNode.dot11MeshForwarding = true := rfl
  have hlength : ¬relayNode.asocList.length ≤ 1 := by decide
  have halloc : ∀ n, openEnv.alloc n = true := fun _ => rfl
  have hnexthop : openEnv.rxNexthopResolve (passing m).mda (passing m).msa = some (passing m).mda :=
    rfl
  simp [meshRxMsduActCheck, hmsa, hmda, hmcast, hforwarding, hnexthop, fwdChk, httl, hlength, fwdB2u,
    halloc, Act.frames]

theorem consumesTtl_iff (m : Mctrl) : ConsumesTtl m ↔ m.ttl ≠ 0 := by
  constructor
  · intro h httl
    obtain ⟨hforward, hne⟩ := passing_forward httl
    obtain ⟨a, ha⟩ := List.exists_mem_of_ne_nil _ hne
    have hlt := (h relayNode openEnv (passing m) rfl hforward a ha).1
    rw [httl] at hlt
    bv_omega
  · rintro httl node env rx rfl hforward a ha
    obtain ⟨hone, hframes⟩ := meshRxMsduActCheck_frames hforward
    obtain ⟨hbuilt, hseq⟩ := meshTxBuildMctrl_forwards (hframes a ha) hone
    rw [hbuilt]
    exact ⟨by bv_omega, hseq⟩

end Exact

/-- Forwarding takes from the TTL and keeps the sequence number exactly for the frames whose TTL is
not 0 already; and in a network of such nodes, in any order of deliveries, no frame is forwarded more
than 255 times. -/
theorem mesh_ttl_iff (m : Mctrl) {ι : Type} [DecidableEq ι] (nodes : ι → Node)
    (es : List (Event ι)) :
    (ConsumesTtl m ↔ m.ttl ≠ 0) ∧ ∀ f ∈ (run Net.step ⟨nodes, []⟩ es).air, f.hops ≤ 255 := by
  refine ⟨consumesTtl_iff m, fun f hf => ?_⟩
  rcases run_spent nodes es f hf with hzero | ⟨hne, hle⟩
  · omega
  · have hpos : f.mctrl.ttl.toNat ≠ 0 := fun h => hne (BitVec.eq_of_toNat_eq h)
    omega

/-- A frame with TTL 0 is sent on with TTL 255. -/
theorem ttl_zero_forwarded :
    ∃ m : Mctrl, m.ttl = 0 ∧
      (meshRxMsduActCheck relayNode openEnv (passing m)).forward = true ∧
      ((meshRxMsduActCheck relayNode openEnv (passing m)).frames.map fun a =>
        (meshTxBuildMctrl relayNode a).1.ttl) = [255] ∧ ¬ConsumesTtl m := by
  refine ⟨⟨0, 0, 7, Mac.zero, Mac.zero⟩, rfl, rfl, rfl, fun h => ?_⟩
  exact (consumesTtl_iff _).1 h rfl

end Rtl8821cu.MeshFwd
