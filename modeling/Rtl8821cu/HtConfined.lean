import Rtl8821cu.HtCaps

/-! Which HT Capabilities elements keep `HT_caps_handler` inside of the element and of `HT_cap`. -/
namespace Rtl8821cu.HtCaps
open LeWord

/-- `Length` of the element. -/
def elementLength (frame : ℕ → BitVec 8) (pIE : ℕ) : ℕ := (frame (pIE + 1)).toNat

/-- The handler reads bytes of the element only, which are bytes of the frame, and changes of the
memory from `HT_cap` on its 26 bytes only. -/
structure Confined (env : HtEnv) (frame : ℕ → BitVec 8) (pktLen pIE : ℕ) (s : HtState) : Prop where
  reads : ∀ a ∈ (htCapsHandler env frame pIE s).reads,
    pIE ≤ a ∧ a < pIE + 2 + elementLength frame pIE ∧ a < pktLen
  writes : ∀ o ∈ (htCapsHandler env frame pIE s).writes, o < 26
  rest : ∀ o, 26 ≤ o → (htCapsHandler env frame pIE s).state.info o = s.info o

/-- The element ends inside of the frame, is not longer than `HT_cap`, and has the fields that the
settings ask for. -/
structure Fits (env : HtEnv) (frame : ℕ → BitVec 8) (pktLen pIE : ℕ) (s : HtState) : Prop where
  within : pIE + 2 + elementLength frame pIE ≤ pktLen
  length : elementLength frame pIE ≤ 26
  ldpc : env.apState = false → testFlag s.ldpcCap 0x2 = true → 1 ≤ elementLength frame pIE
  stbc : testFlag s.stbcCap 0x2 = true → 2 ≤ elementLength frame pIE
  beamforming : testFlag s.beamformCap 0x1 = true ∨ testFlag s.beamformCap 0x2 = true →
    25 ≤ elementLength frame pIE

/-- The second machine comes from the first one by the reads `R` and the writes `W`. -/
structure Traced (m m' : Machine) (R W : List ℕ) : Prop where
  reads : m'.reads = m.reads ++ R
  writes : m'.writes = m.writes ++ W
  info : ∀ o, o ∉ W → m'.state.info o = m.state.info o

theorem Traced.trans {m m' m'' : Machine} {R R' W W' : List ℕ} (h : Traced m m' R W)
    (h' : Traced m' m'' R' W') : Traced m m'' (R ++ R') (W ++ W') := by
  refine ⟨?_, ?_, fun o ho => ?_⟩
  · rw [h'.reads, h.reads, List.append_assoc]
  · rw [h'.writes, h.writes, List.append_assoc]
  · rw [List.mem_append, not_or] at ho
    rw [h'.info o ho.2, h.info o ho.1]

theorem Traced.foldl {ι : Type*} {f : Machine → ι → Machine} {r w : ι → List ℕ}
    (h : ∀ m i, Traced m (f m i) (r i) (w i)) (l : List ι) (m : Machine) :
    Traced m (l.foldl f m) (l.flatMap r) (l.flatMap w) := by
  induction l generalizing m with
  | nil => exact ⟨(List.append_nil _).symm, (List.append_nil _).symm, fun _ _ => rfl⟩
  | cons i l ih => exact (h m i).trans (ih (f m i))

theorem traced_write (m : Machine) (o : ℕ) (v : BitVec 8) : Traced m (m.write o v) [] [o] := by
  refine ⟨(List.append_nil _).symm, rfl, fun o' ho => ?_⟩
  exact Function.update_of_ne (by simpa using ho) _ _

theorem traced_capTurn (frame : ℕ → BitVec 8) (pIE : ℕ) (m : Machine) (i : ℕ) :
    Traced m (capTurn frame pIE m i) [pIE + 2 + i] [i] :=
  ⟨rfl, rfl, fun _ ho => Function.update_of_ne (by simpa using ho) _ _⟩

theorem traced_andMcsRate (v : ℕ → BitVec 8) (m : Machine) (i : ℕ) :
    Traced m (andMcsRate v m i) [] [3 + i] :=
  traced_write m (3 + i) _

theorem flatMap_nil (l : List ℕ) : (l.flatMap fun _ => ([] : List ℕ)) = [] := by simp

/-- The MCS set is written in its 16 bytes, and nothing of the element is read. -/
theorem traced_updateMcsSet (env : HtEnv) (m : Machine) :
    ∃ W, Traced m (updateMcsSet env m) [] W ∧ ∀ o ∈ W, o < 19 := by
  have h1 := Traced.foldl (traced_andMcsRate env.defaultSupportedMcsSet) (List.range 16) m
  rw [flatMap_nil] at h1
  have hw1 : ∀ o ∈ (List.range 16).flatMap fun i => [3 + i], o < 19 := by
    intro o ho
    simp only [List.mem_flatMap, List.mem_range, List.mem_singleton] at ho
    obtain ⟨i, hi, rfl⟩ := ho
    omega
  unfold updateMcsSet
  cases mcsRateMask env.rxNss with
  | none => exact ⟨_, h1, hw1⟩
  | some mask =>
    have h2 := Traced.foldl (traced_andMcsRate fun i => mask.extractLsb' (8 * i) 8) (List.range 4)
      ((List.range 16).foldl (andMcsRate env.defaultSupportedMcsSet) m)
    rw [flatMap_nil] at h2
    refine ⟨_, h1.trans h2, fun o ho => ?_⟩
    rcases List.mem_append.mp ho with ho | ho
    · exact hw1 o ho
    · simp only [List.mem_flatMap, List.mem_range, List.mem_singleton] at ho
      obtain ⟨i, hi, rfl⟩ := ho
      omega

/-- The settings of a state. -/
def HtState.caps (s : HtState) : BitVec 8 × BitVec 8 × BitVec 8 :=
  (s.ldpcCap, s.stbcCap, s.beamformCap)

theorem caps_foldl {ι : Type*} {f : Machine → ι → Machine}
    (h : ∀ m i, (f m i).state.caps = m.state.caps) (l : List ι) (m : Machine) :
    (l.foldl f m).state.caps = m.state.caps := by
  induction l generalizing m with
  | nil => rfl
  | cons i l ih => exact (ih (f m i)).trans (h m i)

theorem caps_andMcsRate (v : ℕ → BitVec 8) (m : Machine) (i : ℕ) :
    (andMcsRate v m i).state.caps = m.state.caps := rfl

theorem caps_updateMcsSet (env : HtEnv) (m : Machine) :
    (updateMcsSet env m).state.caps = m.state.caps := by
  have h1 : ((List.range 16).foldl (andMcsRate env.defaultSupportedMcsSet) m).state.caps =
      m.state.caps := caps_foldl (caps_andMcsRate _) _ m
  have h2 (mask : BitVec 32) (m : Machine) :
      (setMcsRateByMask mask m).state.caps = m.state.caps := caps_foldl (caps_andMcsRate _) _ m
  rw [updateMcsSet]
  cases mcsRateMask env.rxNss with
  | none => exact h1
  | some mask => exact (h2 mask _).trans h1

theorem traced_configLdpc (frame : ℕ → BitVec 8) (pIE : ℕ) (m : Machine) :
    Traced m (configLdpc frame pIE m)
      (if testFlag m.state.ldpcCap 0x2 then [pIE + 2] else []) [] := by
  by_cases h : testFlag m.state.ldpcCap 0x2
  · rw [configLdpc, if_pos h, if_pos h]
    exact ⟨rfl, (List.append_nil _).symm, fun _ _ => rfl⟩
  · rw [configLdpc, if_neg h, if_neg h]
    exact ⟨(List.append_nil _).symm, (List.append_nil _).symm, fun _ _ => rfl⟩

theorem traced_configStbc (frame : ℕ → BitVec 8) (pIE : ℕ) (enable : BitVec 8) (m : Machine) :
    Traced m (configStbc frame pIE enable m)
      (if testFlag m.state.stbcCap 0x2 then [pIE + 3] else []) [] := by
  by_cases h : testFlag m.state.stbcCap 0x2
  · rw [configStbc, if_pos h, if_pos h]
    exact ⟨rfl, (List.append_nil _).symm, fun _ _ => rfl⟩
  · rw [configStbc, if_neg h, if_neg h]
    exact ⟨(List.append_nil _).symm, (List.append_nil _).symm, fun _ _ => rfl⟩

theorem traced_configBeamforming (frame : ℕ → BitVec 8) (pIE : ℕ) (steering feedback : BitVec 8)
    (m : Machine) :
    Traced m (configBeamforming frame pIE steering feedback m)
      ((if testFlag m.state.beamformCap steering then txbfPlaces pIE else []) ++
        if testFlag m.state.beamformCap feedback then txbfPlaces pIE else []) [] := by
  unfold configBeamforming Machine.read
  refine ⟨?_, ?_, ?_⟩
  · dsimp only
    split_ifs <;> simp
  · dsimp only
    split_ifs <;> simp
  · intro o _
    dsimp only
    split_ifs <;> rfl

theorem stbcCap_configLdpc (frame : ℕ → BitVec 8) (pIE : ℕ) (m : Machine) :
    (configLdpc frame pIE m).state.stbcCap = m.state.stbcCap := by
  unfold configLdpc
  split_ifs <;> rfl

theorem beamformCap_configLdpc (frame : ℕ → BitVec 8) (pIE : ℕ) (m : Machine) :
    (configLdpc frame pIE m).state.beamformCap = m.state.beamformCap := by
  unfold configLdpc
  split_ifs <;> rfl

theorem beamformCap_configStbc (frame : ℕ → BitVec 8) (pIE : ℕ) (enable : BitVec 8) (m : Machine) :
    (configStbc frame pIE enable m).state.beamformCap = m.state.beamformCap := by
  unfold configStbc
  split_ifs <;> rfl

section Handler

variable {env : HtEnv} {frame : ℕ → BitVec 8} {pIE : ℕ} {s : HtState}

/-- The state in which the loop over the element starts. -/
def enabled (s : HtState) (pIE : ℕ) : Machine := ⟨{ s with htCapsEnable := true }, [pIE + 1], []⟩

/-- The loop over the element and the MCS set: every byte of the element is read, and as many bytes
from `HT_cap` on are written, even behind its end. -/
theorem traced_loop (env : HtEnv) (frame : ℕ → BitVec 8) (pIE : ℕ) (s : HtState) :
    ∃ m R W, m = updateMcsSet env ((List.range (elementLength frame pIE)).foldl
        (capTurn frame pIE) (enabled s pIE)) ∧
      Traced (enabled s pIE) m R W ∧ m.state.caps = s.caps ∧
      (∀ a, a ∈ R ↔ pIE + 2 ≤ a ∧ a < pIE + 2 + elementLength frame pIE) ∧
      (∀ o < elementLength frame pIE, o ∈ W) ∧
      ∀ o ∈ W, o < elementLength frame pIE ∨ o < 19 := by
  have hloop := Traced.foldl (traced_capTurn frame pIE) (List.range (elementLength frame pIE))
    (enabled s pIE)
  obtain ⟨W, hmcs, hW⟩ := traced_updateMcsSet env
    ((List.range (elementLength frame pIE)).foldl (capTurn frame pIE) (enabled s pIE))
  have hcaps := (caps_updateMcsSet env ((List.range (elementLength frame pIE)).foldl
    (capTurn frame pIE) (enabled s pIE))).trans
      (caps_foldl (fun m i => (rfl : (capTurn frame pIE m i).state.caps = m.state.caps)) _ _)
  refine ⟨_, _, _, rfl, hloop.trans hmcs, hcaps, fun a => ?_, fun o ho => ?_, fun o ho => ?_⟩
  · simp only [List.append_nil, List.mem_flatMap, List.mem_range, List.mem_singleton]
    constructor
    · rintro ⟨i, hi, rfl⟩
      omega
    · intro ha
      exact ⟨a - (pIE + 2), by omega, by omega⟩
  · exact List.mem_append_left _ (List.mem_flatMap.mpr ⟨o, List.mem_range.mpr ho, by simp⟩)
  · rcases List.mem_append.mp ho with ho | ho
    · obtain ⟨i, hi, hoi⟩ := List.mem_flatMap.mp ho
      obtain rfl := List.mem_singleton.mp hoi
      exact Or.inl (List.mem_range.mp hi)
    · exact Or.inr (hW o ho)

/-- What the handler reads of the frame and writes from `HT_cap` on. -/
theorem traced_htCapsHandler (env : HtEnv) (frame : ℕ → BitVec 8) (pIE : ℕ)
    (hopt : s.htOption = true) :
    ∃ R W, Traced (enabled s pIE) (htCapsHandler env frame pIE s) R W ∧
      (∀ a, a ∈ R ↔ (pIE + 2 ≤ a ∧ a < pIE + 2 + elementLength frame pIE) ∨
        (env.apState = false ∧ testFlag s.ldpcCap 0x2 = true ∧ a = pIE + 2) ∨
        (testFlag s.stbcCap 0x2 = true ∧ a = pIE + 3) ∨
        ((testFlag s.beamformCap 0x1 = true ∨ testFlag s.beamformCap 0x2 = true) ∧
          a ∈ txbfPlaces pIE)) ∧
      (∀ o < elementLength frame pIE, o ∈ W) ∧
      ∀ o ∈ W, o < elementLength frame pIE ∨ o < 19 := by
  obtain ⟨m, R, W, hm, htraced, hcaps, hR, hW, hW'⟩ := traced_loop env frame pIE s
  have hldpc : m.state.ldpcCap = s.ldpcCap := congrArg Prod.fst hcaps
  have hstbc : m.state.stbcCap = s.stbcCap := congrArg (fun c => c.2.1) hcaps
  have hbeam : m.state.beamformCap = s.beamformCap := congrArg (fun c => c.2.2) hcaps
  have heq : htCapsHandler env frame pIE s =
      if env.apState then configBeamforming frame pIE 0x1 0x2 (configStbc frame pIE 0x2 m)
      else configBeamforming frame pIE 0x2 0x1 (configStbc frame pIE 0xa
        (configLdpc frame pIE m)) := by
    have hoff : ¬(!s.htOption) = true := by simp [hopt]
    rw [htCapsHandler, if_neg hoff, hm]
    rfl
  cases hap : env.apState with
  | true =>
    rw [hap, if_pos rfl] at heq
    have hconfig := (traced_configStbc frame pIE 0x2 m).trans
      (traced_configBeamforming frame pIE 0x1 0x2 (configStbc frame pIE 0x2 m))
    rw [beamformCap_configStbc, hstbc, hbeam] at hconfig
    rw [heq]
    refine ⟨_, _, htraced.trans hconfig, fun a => ?_, fun o ho => ?_, fun o ho => ?_⟩
    · rw [List.mem_append, hR]
      cases testFlag s.stbcCap 0x2 <;> cases testFlag s.beamformCap 0x1 <;>
        cases testFlag s.beamformCap 0x2 <;> simp
    · exact List.mem_append_left _ (hW o ho)
    · exact hW' o (by simpa using ho)
  | false =>
    rw [hap, if_neg (by decide)] at heq
    have hconfig := ((traced_configLdpc frame pIE m).trans
      (traced_configStbc frame pIE 0xa (configLdpc frame pIE m))).trans
        (traced_configBeamforming frame pIE 0x2 0x1
          (configStbc frame pIE 0xa (configLdpc frame pIE m)))
    rw [beamformCap_configStbc, stbcCap_configLdpc, beamformCap_configLdpc, hldpc, hstbc,
      hbeam] at hconfig
    rw [heq]
    refine ⟨_, _, htraced.trans hconfig, fun a => ?_, fun o ho => ?_, fun o ho => ?_⟩
    · rw [List.mem_append, hR]
      cases testFlag s.ldpcCap 0x2 <;> cases testFlag s.stbcCap 0x2 <;>
        cases testFlag s.beamformCap 0x1 <;> cases testFlag s.beamformCap 0x2 <;>
        simp
    · exact List.mem_append_left _ (hW o ho)
    · exact hW' o (by simpa using ho)

/-- A call stays inside of the element and of `HT_cap` exactly if HT is off or the element fits. -/
theorem confined_iff (pktLen : ℕ) :
    Confined env frame pktLen pIE s ↔ (s.htOption = true → Fits env frame pktLen pIE s) := by
  by_cases hopt : s.htOption = true
  · obtain ⟨R, W, htraced, hR, hW, hW'⟩ := traced_htCapsHandler env frame pIE hopt
    have hreads : ∀ a, a ∈ (htCapsHandler env frame pIE s).reads ↔ a = pIE + 1 ∨ a ∈ R := by
      intro a
      rw [htraced.reads]
      simp [enabled]
    have hwrites : (htCapsHandler env frame pIE s).writes = W := htraced.writes
    constructor
    · intro hconf _
      have hread : ∀ a, a = pIE + 1 ∨ a ∈ R →
          a < pIE + 2 + elementLength frame pIE ∧ a < pktLen :=
        fun a ha => (hconf.reads a ((hreads a).mpr ha)).2
      refine ⟨?_, ?_, fun hap hflag => ?_, fun hflag => ?_, fun hflag => ?_⟩
      · rcases Nat.eq_zero_or_pos (elementLength frame pIE) with hzero | hpos
        · have := hread (pIE + 1) (Or.inl rfl)
          omega
        · have := hread (pIE + 1 + elementLength frame pIE)
            (Or.inr ((hR _).mpr (Or.inl (by omega))))
          omega
      · by_contra hlong
        have := hconf.writes 26 (by rw [hwrites]; exact hW 26 (by omega))
        omega
      · have := hread (pIE + 2) (Or.inr ((hR _).mpr (Or.inr (Or.inl ⟨hap, hflag, rfl⟩))))
        omega
      · have := hread (pIE + 3) (Or.inr ((hR _).mpr (Or.inr (Or.inr (Or.inl ⟨hflag, rfl⟩)))))
        omega
      · have := hread (pIE + 26) (Or.inr ((hR _).mpr (Or.inr (Or.inr (Or.inr
          ⟨hflag, by simp [txbfPlaces]⟩)))))
        omega
    · intro hfits
      have h := hfits hopt
      have hwithin := h.within
      have hlen := h.length
      have hsmall : ∀ o ∈ W, o < 26 := by
        intro o ho
        have := hW' o ho
        omega
      refine ⟨fun a ha => ?_, fun o ho => hsmall o (by rwa [hwrites] at ho), fun o ho => ?_⟩
      · rcases (hreads a).mp ha with rfl | ha
        · omega
        · rcases (hR a).mp ha with ha | ⟨hap, hflag, rfl⟩ | ⟨hflag, rfl⟩ | ⟨hflag, ha⟩
          · omega
          · have := h.ldpc hap hflag
            omega
          · have := h.stbc hflag
            omega
          · have := h.beamforming hflag
            simp only [txbfPlaces, List.mem_cons, List.not_mem_nil, or_false] at ha
            omega
      · exact htraced.info o fun hmem => absurd (hsmall o hmem) (by omega)
  · have hoff : htCapsHandler env frame pIE s = ⟨s, [], []⟩ := by
      rw [htCapsHandler, if_pos (by simpa using hopt)]
    refine ⟨fun _ h => absurd h hopt, fun _ => ⟨?_, ?_, ?_⟩⟩
    · rw [hoff]
      simp
    · rw [hoff]
      simp
    · intro o _
      rw [hoff]

end Handler

theorem elementLoop_calls (env : AssocEnv) (frame : ℕ → BitVec 8) (pktLen i : ℕ) (s : HtState) :
    ∀ c ∈ (elementLoop env frame pktLen i s).2,
      i ≤ c.1 ∧ c.1 < pktLen ∧ frame c.1 = htCapabilityIe := by
  fun_induction elementLoop env frame pktLen i s with
  | case1 i s hlt next hid rest ih =>
    intro c hc
    rcases List.mem_cons.mp hc with rfl | hc
    · exact ⟨le_refl _, hlt, hid⟩
    · obtain ⟨hle, hrest⟩ := ih c hc
      exact ⟨by omega, hrest⟩
  | case2 i s hlt next hid ih =>
    intro c hc
    obtain ⟨hle, hrest⟩ := ih c hc
    exact ⟨by omega, hrest⟩
  | case3 i s hlt =>
    intro c hc
    cases hc

/-- In every association response that is taken, a call of `HT_caps_handler` is for an HT
Capabilities element. It reads only bytes of that element and changes only the 26 bytes of `HT_cap`
exactly if HT is off or the element fits. -/
theorem onAssocRsp_confined_iff (env : AssocEnv) (frame : ℕ → BitVec 8) (pktLen : ℕ)
    (s : HtState) :
    ∀ c ∈ (onAssocRsp env frame pktLen s).2,
      (30 ≤ c.1 ∧ c.1 < pktLen ∧ frame c.1 = htCapabilityIe) ∧
        (Confined env.ht frame pktLen c.1 c.2 ↔
          (c.2.htOption = true → Fits env.ht frame pktLen c.1 c.2)) := by
  intro c hc
  refine ⟨?_, confined_iff pktLen⟩
  unfold onAssocRsp at hc
  split_ifs at hc with hacc
  · exact elementLoop_calls env frame pktLen 30 s c hc
  · cases hc

/-- A station with one receive stream and no settings. -/
def plainEnv : AssocEnv where
  ht := ⟨fun _ => 0xff, 1, false⟩
  macAddr := Mac.zero
  state := 0x2000
  joinAbort := false
  other _ s := s

def plainState : HtState := ⟨true, false, 0, 0, 0, fun _ => 0xff⟩

/-- An association response with an HT Capabilities element of `n` zeros and nothing else. -/
def htResponse (n : BitVec 8) (i : ℕ) : BitVec 8 :=
  if i = 28 then 1 else if i = 30 then htCapabilityIe else if i = 31 then n else 0

theorem htResponse_call (n : BitVec 8) :
    (30, plainState) ∈ (onAssocRsp plainEnv (htResponse n) (32 + n.toNat) plainState).2 := by
  have hacc : accepts plainEnv (htResponse n) = true := by
    have hda : getDa (htResponse n) = Mac.zero := by
      refine Vector.ext fun i hi => ?_
      have h28 : 4 + i ≠ 28 := by omega
      have h30 : 4 + i ≠ 30 := by omega
      have h31 : 4 + i ≠ 31 := by omega
      simp [getDa, htResponse, Mac.zero, h28, h30, h31]
    simp [accepts, hda, le16, htResponse, plainEnv]
  rw [onAssocRsp, if_pos hacc, elementLoop, if_pos (by omega)]
  exact List.mem_cons_self

/-- An element of 26 bytes is handled inside of its bounds. -/
theorem htResponse_confined : Confined plainEnv.ht (htResponse 26) 58 30 plainState :=
  (onAssocRsp_confined_iff plainEnv (htResponse 26) 58 plainState (30, plainState)
    (htResponse_call 26)).2.mpr fun _ => ⟨by decide, by decide, nofun, nofun, by decide⟩

/-- An element of 27 bytes makes the handler write behind `HT_cap`. -/
theorem htResponse_overrun : ¬∀ env frame pktLen s, ∀ c ∈ (onAssocRsp env frame pktLen s).2,
    Confined env.ht frame pktLen c.1 c.2 := by
  intro h
  have hconf := h plainEnv (htResponse 27) 59 plainState (30, plainState) (htResponse_call 27)
  have hfits := (confined_iff 59).mp hconf rfl
  exact absurd hfits.length (by decide)

end Rtl8821cu.HtCaps
