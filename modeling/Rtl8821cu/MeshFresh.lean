import Rtl8821cu.MeshHwmp

/-! Path selection never goes back to an older sequence number of an active entry, but for a PREQ
that names its originator as its target. -/
namespace Rtl8821cu.Hwmp
open Mesh Run

theorem snLt_eq_snGt (x y : BitVec 32) : snLt x y = snGt y x := rfl

theorem snGt_succ (x : BitVec 32) : snGt (x + 1) x = true := by
  have hdiff : x - (x + 1) = -1 := by ring
  rw [snGt, hdiff]
  decide

/-- A sequence number that is not behind is the same or newer. -/
theorem eq_or_snGt (x y : BitVec 32) (h : snGt y x = false) : x = y ∨ snGt x y = true := by
  rw [snGt, BitVec.msb_eq_decide, decide_eq_false_iff_not] at h
  rw [snGt, BitVec.msb_eq_decide, decide_eq_true_eq]
  by_cases hxy : x = y
  · exact Or.inl hxy
  · refine Or.inr ?_
    bv_omega

/-- An active entry with a valid sequence number that is neither fixed nor past its lifetime. -/
structure Path.Live (now : Jiffies) (p : Path) : Prop where
  active : p.active = true
  snValid : p.snValid = true
  notFixed : p.fixed = false
  notExpired : p.expired now = false

/-- What may become of the sequence number and the metric of a live entry: while it stays active, a
newer number or the same one with no larger metric; when it does not, the same number or a newer
one. -/
def Path.FreshTo (p p' : Path) : Prop :=
  if p'.active && p'.snValid then
    snGt p'.sn p.sn = true ∨ p'.sn = p.sn ∧ p'.metric ≤ p.metric
  else p'.sn = p.sn ∨ snGt p'.sn p.sn = true

theorem Path.FreshTo.of_newer {p p' : Path} (h : snGt p'.sn p.sn = true) : p.FreshTo p' := by
  unfold Path.FreshTo
  split
  · exact Or.inl h
  · exact Or.inr h

theorem Path.FreshTo.of_same {p p' : Path} (hsn : p'.sn = p.sn) (hmetric : p'.metric ≤ p.metric) :
    p.FreshTo p' := by
  unfold Path.FreshTo
  split
  · exact Or.inr ⟨hsn, hmetric⟩
  · exact Or.inl hsn

theorem Path.FreshTo.not_older {p p' : Path} (h : p.FreshTo p') :
    p'.sn = p.sn ∨ snGt p'.sn p.sn = true := by
  unfold Path.FreshTo at h
  split at h
  · rcases h with h | h
    · exact Or.inr h
    · exact Or.inl h.1
  · exact h

section Table

variable {s : State} {a b : Mac} {p : Path} {now : Jiffies} {cfg : Cfg} {rx : Rx}

@[simp] theorem State.set_paths_self (s : State) (a : Mac) (p : Path) :
    (s.set a p).paths a = some p := by
  simp [State.set]

theorem State.set_paths_ne (s : State) (p : Path) (h : a ≠ b) :
    (s.set b p).paths a = s.paths a := by
  simp [State.set, h]

@[simp] theorem State.set_mpaths (s : State) (a : Mac) (p : Path) :
    (s.set a p).mpaths = s.mpaths := rfl

theorem Path.Live.looked (h : p.Live now) : p.looked now = p := by
  simp [Path.looked, h.notExpired]

/-- An entry after changes that keep its sequence number, its metric and their validity. -/
structure Path.Calm (p p' : Path) : Prop where
  sn : p'.sn = p.sn
  metric : p'.metric = p.metric
  snValid : p'.snValid = p.snValid

theorem Path.Calm.refl (p : Path) : p.Calm p := ⟨rfl, rfl, rfl⟩

theorem Path.looked_calm (p : Path) (now : Jiffies) : p.Calm (p.looked now) := by
  unfold Path.looked
  split <;> exact ⟨rfl, rfl, rfl⟩

theorem Path.announce_calm (p : Path) (isGate : Bool) (interval : BitVec 32) :
    p.Calm (p.announce isGate interval) := by
  unfold Path.announce
  split <;> exact ⟨rfl, rfl, rfl⟩

theorem State.lookup_paths (s : State) (now : Jiffies) (a b : Mac) :
    (s.lookup now b).paths a = if a = b then (s.paths a).map (Path.looked now) else s.paths a := by
  unfold State.lookup
  by_cases hab : a = b
  · subst hab
    cases hp : s.paths a with
    | none => simp [hp]
    | some p => simp
  · cases hp : s.paths b with
    | none => simp [hab]
    | some p => simp [hab, State.set_paths_ne]

theorem State.lookup_live (h : s.paths a = some p) (hlive : p.Live now) :
    (s.lookup now b).paths a = some p := by
  rw [State.lookup_paths]
  split
  · rw [h, Option.map_some, hlive.looked]
  · exact h

theorem State.lookup_calm (now : Jiffies) (b : Mac) (h : s.paths a = some p) :
    ∃ p', (s.lookup now b).paths a = some p' ∧ p.Calm p' := by
  rw [State.lookup_paths]
  split
  · exact ⟨p.looked now, by rw [h, Option.map_some], p.looked_calm now⟩
  · exact ⟨p, h, Path.Calm.refl p⟩

theorem State.lookup_isSome (s : State) (now : Jiffies) (a b : Mac) :
    ((s.lookup now b).paths a).isSome = (s.paths a).isSome := by
  rw [State.lookup_paths]
  split <;> simp

@[simp] theorem State.lookup_mpaths (s : State) (now : Jiffies) (a : Mac) :
    (s.lookup now a).mpaths = s.mpaths := by
  unfold State.lookup
  split <;> rfl

/-- An entry can be added for an address: `rtw_mesh_path_add` gives one. -/
def CanAdd (cfg : Cfg) (rx : Rx) (s : State) (dst : Mac) : Prop :=
  dst ≠ cfg.macAddr ∧ dst.isMcast = false ∧ s.mpaths ≠ maxMpaths ∧ rx.alloc dst = true

theorem State.meshPathAdd_paths (cfg : Cfg) (rx : Rx) (h : s.paths a = some p) (hb : s.paths b = none) :
    (s.meshPathAdd cfg rx b).1.paths a = some p := by
  have hab : a ≠ b := by
    rintro rfl
    simp [h] at hb
  unfold State.meshPathAdd
  split
  · exact h
  · split
    · exact h
    · rw [State.set_paths_ne _ _ hab]
      exact h

theorem State.meshPathAdd_isSome (cfg : Cfg) (rx : Rx) (s : State) (b : Mac) :
    (s.meshPathAdd cfg rx b).2.isSome = true ↔ CanAdd cfg rx s b := by
  unfold State.meshPathAdd CanAdd
  split
  · rename_i h
    simp only [Bool.or_eq_true, beq_iff_eq] at h
    simp only [Option.isSome_none, Bool.false_eq_true, false_iff]
    rintro ⟨hself, hmcast, hroom, -⟩
    simp_all
  · rename_i h
    simp only [Bool.or_eq_true, beq_iff_eq, not_or, Bool.not_eq_true] at h
    split
    · rename_i halloc
      simp_all
    · rename_i halloc
      simp_all

end Table

section Route

variable {s : State} {a : Mac} {p : Path} {cfg : Cfg} {rx : Rx} {o : Origin}

/-- The originator's information is taken over by a live entry. -/
def Path.Accepts (p : Path) (sn metric : BitVec 32) : Prop :=
  snGt p.sn sn = false ∧ ¬ (p.sn = sn ∧ p.metric ≤ metric)

theorem freshInfo_live (hlive : p.Live rx.now) (sn metric : BitVec 32) :
    (p.Accepts sn metric → freshInfo p sn metric = (true, true)) ∧
      (¬ p.Accepts sn metric → freshInfo p sn metric = (false, false)) := by
  unfold freshInfo Path.Accepts
  rw [hlive.active, hlive.snValid, hlive.notFixed]
  constructor
  · rintro ⟨hgt, hsame⟩
    simp [hgt, hsame]
  · intro h
    have hcond : (snGt p.sn sn || (p.sn == sn && decide (p.metric ≤ metric))) = true := by
      by_cases hgt : snGt p.sn sn = true
      · simp [hgt]
      · have hgt' : snGt p.sn sn = false := by simpa using hgt
        have hsame := not_not.1 (fun hn => h ⟨hgt', hn⟩)
        simp [hsame.1, hsame.2]
    simp [hcond]

/-- The entry of the originator of an element, with the element's information. -/
def Path.fromOrigin (cfg : Cfg) (rx : Rx) (o : Origin) (p : Path) : Path :=
  p.originated rx.ta o.sn (newMetric o.metric rx.lastHopMetric)
    (rx.now + cfg.tuToSystime o.lifetime)

/-- The originator's part leaves a live entry alone, or makes it the originator's new one. -/
theorem originatorInfo_live (cfg : Cfg) (o : Origin) (h : s.paths a = some p) (hlive : p.Live rx.now) :
    (originatorInfo cfg rx o s).1.paths a = some p ∧
        (a = o.addr → (originatorInfo cfg rx o s).2 = some false) ∧
        ¬ (a = o.addr ∧ a ≠ cfg.macAddr ∧ p.Accepts o.sn (newMetric o.metric rx.lastHopMetric)) ∨
      (originatorInfo cfg rx o s).1 =
          (s.lookup rx.now o.addr).set o.addr (p.fromOrigin cfg rx o) ∧
        (originatorInfo cfg rx o s).2 = some true ∧ a = o.addr ∧ a ≠ cfg.macAddr ∧
        p.Accepts o.sn (newMetric o.metric rx.lastHopMetric) := by
  unfold originatorInfo
  by_cases hself : o.addr = cfg.macAddr
  · refine Or.inl ⟨by simp [hself, h], by simp [hself], ?_⟩
    rintro ⟨rfl, hne, -⟩
    exact hne hself
  · simp only [beq_iff_eq, hself, if_false]
    have hlook := State.lookup_live (b := o.addr) h hlive
    by_cases ha : a = o.addr
    · subst ha
      obtain ⟨hyes, hno⟩ := freshInfo_live hlive o.sn (newMetric o.metric rx.lastHopMetric)
      rw [hlook]
      by_cases hacc : p.Accepts o.sn (newMetric o.metric rx.lastHopMetric)
      · simp [hyes hacc, hacc, hself, Path.fromOrigin]
      · simp [hno hacc, hlook, hacc]
    · refine Or.inl ⟨?_, fun hao => absurd hao ha, fun hn => ha hn.1⟩
      split
      · split
        · rw [State.set_paths_ne _ _ ha, hlook]
        · exact hlook
      · rename_i hnone
        have hadd := State.meshPathAdd_paths cfg rx hlook hnone
        split
        · rename_i heq
          rw [heq] at hadd
          exact hadd
        · rename_i heq
          rw [heq] at hadd
          rw [State.set_paths_ne _ _ ha]
          exact hadd

/-- The transmitter's part keeps the sequence number of an entry, and at most lowers its metric. -/
theorem transmitterInfo_keeps (cfg : Cfg) (rx : Rx) (o : Origin) (h : s.paths a = some p) (hlive : a ≠ o.addr → p.Live rx.now) :
    ∃ p', (transmitterInfo cfg rx o s).1.paths a = some p' ∧ p'.sn = p.sn ∧
      p'.metric ≤ p.metric ∧ (a = o.addr → p' = p) ∧ (a ≠ o.addr → p'.snValid = true) := by
  unfold transmitterInfo
  by_cases hself : o.addr = rx.ta
  · exact ⟨p, by simp [hself, h], rfl, BitVec.le_refl _, fun _ => rfl,
      fun ha => (hlive ha).snValid⟩
  · simp only [beq_iff_eq, hself, if_false]
    by_cases ha : a = rx.ta
    · subst ha
      have hne : rx.ta ≠ o.addr := fun heq => hself heq.symm
      have hl := hlive hne
      rw [State.lookup_live h hl]
      simp only [hl.notFixed, hl.active, Bool.false_or, Bool.true_and, decide_eq_true_eq]
      split
      · exact ⟨p, State.lookup_live h hl, rfl, BitVec.le_refl _, fun heq => absurd heq hne,
          fun _ => hl.snValid⟩
      · rename_i hle
        exact ⟨_, State.set_paths_self _ _ _, rfl, BitVec.not_lt.1 hle,
          fun heq => absurd heq hne, fun _ => hl.snValid⟩
    · have hlook : (s.lookup rx.now rx.ta).paths a = some p := by
        rw [State.lookup_paths, if_neg ha, h]
      refine ⟨p, ?_, rfl, BitVec.le_refl _, fun _ => rfl, fun hne => (hlive hne).snValid⟩
      split
      · split
        · exact hlook
        · rw [State.set_paths_ne _ _ ha, hlook]
      · rename_i hnone
        have hadd := State.meshPathAdd_paths cfg rx hlook hnone
        split
        · rename_i heq
          rw [heq] at hadd
          exact hadd
        · rename_i heq
          rw [heq] at hadd
          rw [State.set_paths_ne _ _ ha]
          exact hadd

/-- The entry of the transmitter is there, can be added, or is the originator's. -/
def TransmitterKnown (cfg : Cfg) (rx : Rx) (s : State) (orig : Mac) : Prop :=
  orig = rx.ta ∨ (s.paths rx.ta).isSome = true ∨ CanAdd cfg rx s rx.ta

theorem transmitterInfo_snd (cfg : Cfg) (rx : Rx) (o : Origin) (s : State) :
    (transmitterInfo cfg rx o s).2 = true ↔ TransmitterKnown cfg rx s o.addr := by
  unfold transmitterInfo TransmitterKnown
  by_cases hself : o.addr = rx.ta
  · simp [hself]
  · simp only [beq_iff_eq, hself, if_false, false_or]
    rw [← State.lookup_isSome s rx.now rx.ta rx.ta]
    split
    · rename_i hp
      split <;> simp [hp]
    · rename_i hp
      have hadd := State.meshPathAdd_isSome cfg rx (s.lookup rx.now rx.ta) rx.ta
      have hcan : CanAdd cfg rx (s.lookup rx.now rx.ta) rx.ta ↔ CanAdd cfg rx s rx.ta := by
        simp [CanAdd]
      rw [hcan] at hadd
      split
      · rename_i heq
        rw [heq] at hadd
        simpa [hp] using hadd
      · rename_i heq
        rw [heq] at hadd
        simpa [hp] using hadd

theorem newMetric_eq_zero (m l : BitVec 32) : newMetric m l = 0 ↔ m = 0 ∧ l = 0 := by
  unfold newMetric maxMetric
  split
  · rename_i h
    refine ⟨fun hz => absurd hz (by decide), ?_⟩
    rintro ⟨rfl, rfl⟩
    simp at h
  · bv_omega

/-- A live entry of the originator takes the information of an element over. -/
structure TakenOver (cfg : Cfg) (rx : Rx) (o : Origin) (p : Path) : Prop where
  notSelf : o.addr ≠ cfg.macAddr
  staKnown : rx.staKnown = true
  accepts : p.Accepts o.sn (newMetric o.metric rx.lastHopMetric)

theorem transmitterKnown_set (cfg : Cfg) (rx : Rx) (s : State) (b : Mac) (q : Path) :
    TransmitterKnown cfg rx ((s.lookup rx.now b).set b q) b ↔ TransmitterKnown cfg rx s b := by
  unfold TransmitterKnown CanAdd
  by_cases hb : b = rx.ta
  · simp [hb]
  · rw [State.set_paths_ne _ _ (Ne.symm hb), State.lookup_isSome, State.set_mpaths,
      State.lookup_mpaths]

/-- What `rtw_hwmp_route_info_get` leaves of a live entry: its sequence number with no larger
metric, or the originator's. -/
theorem routeInfoGet_live (cfg : Cfg) (o : Origin) (h : s.paths a = some p) (hlive : p.Live rx.now) :
    ∃ p', (routeInfoGet cfg rx o s).1.paths a = some p' ∧ p'.snValid = true ∧
      (p'.sn = p.sn ∧ p'.metric ≤ p.metric ∧ (a = o.addr → (routeInfoGet cfg rx o s).2 = 0) ∧
          ¬ (a = o.addr ∧ TakenOver cfg rx o p) ∨
        p'.sn = o.sn ∧ p'.metric = newMetric o.metric rx.lastHopMetric ∧ a = o.addr ∧
          TakenOver cfg rx o p ∧
          ((routeInfoGet cfg rx o s).2 ≠ 0 ↔ TransmitterKnown cfg rx s o.addr ∧
            newMetric o.metric rx.lastHopMetric ≠ 0)) := by
  unfold routeInfoGet
  by_cases hsta : rx.staKnown = true
  · simp only [hsta, Bool.not_true, Bool.false_eq_true, if_false]
    rcases originatorInfo_live cfg o h hlive with
      ⟨hpath, hres, hnot⟩ | ⟨hstate, hres, rfl, hne, hacc⟩
    · have hnot' : ¬ (a = o.addr ∧ TakenOver cfg rx o p) := by
        rintro ⟨rfl, htaken⟩
        exact hnot ⟨rfl, htaken.notSelf, htaken.accepts⟩
      generalize originatorInfo cfg rx o s = r at hpath hres ⊢
      obtain ⟨s₁, _ | process⟩ := r
      · exact ⟨p, hpath, hlive.snValid, Or.inl ⟨rfl, BitVec.le_refl _, fun _ => rfl, hnot'⟩⟩
      · obtain ⟨p', hp', hsn, hmetric, hsame, hvalid⟩ :=
          transmitterInfo_keeps cfg rx o hpath fun _ => hlive
        have hvalid' : p'.snValid = true := by
          by_cases ha : a = o.addr
          · rw [hsame ha, hlive.snValid]
          · exact hvalid ha
        dsimp only
        generalize transmitterInfo cfg rx o s₁ = t at hp' ⊢
        obtain ⟨s₂, _ | _⟩ := t
        · exact ⟨p', hp', hvalid', Or.inl ⟨hsn, hmetric, fun _ => rfl, hnot'⟩⟩
        · refine ⟨p', hp', hvalid', Or.inl ⟨hsn, hmetric, fun ha => ?_, hnot'⟩⟩
          have hprocess : process = false := by simpa using hres ha
          simp [hprocess]
    · have hsnd := transmitterInfo_snd cfg rx o
        ((s.lookup rx.now o.addr).set o.addr (p.fromOrigin cfg rx o))
      rw [transmitterKnown_set] at hsnd
      obtain ⟨p', hp', -, -, hsame, -⟩ := transmitterInfo_keeps cfg rx o
        (State.set_paths_self (s.lookup rx.now o.addr) o.addr (p.fromOrigin cfg rx o))
        fun ha => absurd rfl ha
      rw [hsame rfl] at hp'
      have htaken : TakenOver cfg rx o p := ⟨hne, hsta, hacc⟩
      generalize originatorInfo cfg rx o s = r at hstate hres ⊢
      obtain ⟨s₁, r⟩ := r
      subst hstate hres
      dsimp only
      generalize transmitterInfo cfg rx o _ = t at hp' hsnd ⊢
      obtain ⟨s₂, _ | _⟩ := t
      · refine ⟨_, hp', rfl, Or.inr ⟨rfl, rfl, rfl, htaken, ?_⟩⟩
        simpa using fun hk => absurd (hsnd.2 hk) (by simp)
      · refine ⟨_, hp', rfl, Or.inr ⟨rfl, rfl, rfl, htaken, ?_⟩⟩
        simpa using fun _ => hsnd.1 rfl
  · refine ⟨p, by simp [hsta, h], hlive.snValid, Or.inl ⟨rfl, BitVec.le_refl _, ?_, ?_⟩⟩
    · intro _
      simp [hsta]
    · rintro ⟨-, htaken⟩
      exact hsta htaken.staKnown

end Route

section Process

variable {s : State} {a : Mac} {p : Path} {cfg : Cfg} {rx : Rx}

/-- The target of a PREQ is another station, asked for by its address. -/
def Preq.ForOther (cfg : Cfg) (e : Preq) : Prop :=
  e.targetAddr ≠ cfg.macAddr ∧ ¬ (e.targetAddr = Mac.broadcast ∧ e.targetOnly = true)

theorem State.lookup_set_calm (b : Mac) (now : Jiffies) (h : s.paths a = some p)
    {f : Path → Path} (hf : ∀ q : Path, q.Calm (f q)) :
    ∀ q, (s.lookup now b).paths b = some q →
      ∃ p', ((s.lookup now b).set b (f q)).paths a = some p' ∧ p.Calm p' := by
  intro q hq
  obtain ⟨p₁, hp₁, hcalm⟩ := State.lookup_calm now b h
  by_cases hab : a = b
  · subst hab
    have heq : q = p₁ := by simpa [hq] using hp₁
    subst heq
    have hfq := hf q
    exact ⟨f q, State.set_paths_self _ _ _, hfq.sn.trans hcalm.sn, hfq.metric.trans hcalm.metric,
      hfq.snValid.trans hcalm.snValid⟩
  · exact ⟨p₁, by rw [State.set_paths_ne _ _ hab, hp₁], hcalm⟩

theorem preqForUs_paths (e : Preq) : (preqForUs cfg rx e s).state.paths = s.paths := by
  simp only [preqForUs]
  split <;> rfl

theorem preqProactive_calm (cfg : Cfg) (rx : Rx) (e : Preq) (h : s.paths a = some p) :
    ∃ p', (preqProactive cfg rx e s).state.paths a = some p' ∧ p.Calm p' := by
  have hset := State.lookup_set_calm e.origAddr rx.now h
    (f := fun q => q.announce e.isGate e.lifetime) fun q => q.announce_calm e.isGate e.lifetime
  simp only [preqProactive]
  split
  · exact State.lookup_calm rx.now e.origAddr h
  · rename_i q hq
    split
    · exact hset q hq
    · exact hset q hq

/-- A PREQ gives the entry of its target a newer sequence number. -/
def Preq.Updates (cfg : Cfg) (e : Preq) (a : Mac) (p : Path) : Prop :=
  a = e.targetAddr ∧ e.ForOther cfg ∧ snLt p.sn e.targetSn = true

/-- What a PREQ for another station leaves of an entry with a valid sequence number. -/
theorem preqForOther_paths (e : Preq) (hother : e.ForOther cfg) (h : s.paths a = some p)
    (hvalid : p.snValid = true) :
    ∃ p', (preqForOther rx e s).state.paths a = some p' ∧ p'.snValid = true ∧
      p'.metric = p.metric ∧
      (p'.sn = p.sn ∧ ¬ e.Updates cfg a p ∨ p'.sn = e.targetSn ∧ e.Updates cfg a p) := by
  obtain ⟨p₁, hp₁, hc⟩ := State.lookup_calm rx.now e.targetAddr h
  have hvalid₁ : p₁.snValid = true := hc.snValid.trans hvalid
  simp only [preqForOther]
  by_cases ha : a = e.targetAddr
  · subst ha
    simp only [hp₁, hvalid₁, Bool.not_true, Bool.false_or]
    by_cases hlt : snLt p.sn e.targetSn = true
    · rw [if_pos (hc.sn ▸ hlt)]
      exact ⟨_, State.set_paths_self _ _ _, rfl, hc.metric, Or.inr ⟨rfl, rfl, hother, hlt⟩⟩
    · rw [if_neg (hc.sn ▸ hlt)]
      refine ⟨p₁, ?_, hvalid₁, hc.metric, Or.inl ⟨hc.sn, fun hu => hlt hu.2.2⟩⟩
      split <;> exact hp₁
  · refine ⟨p₁, ?_, hvalid₁, hc.metric, Or.inl ⟨hc.sn, fun hu => ha hu.1⟩⟩
    split
    · exact hp₁
    · split
      · rw [State.set_paths_ne _ _ ha, hp₁]
      · split <;> exact hp₁

/-- What the processing of a PREQ leaves of an entry with a valid sequence number. -/
theorem preqFrameProcess_paths (cfg : Cfg) (rx : Rx) (e : Preq) (m : BitVec 32) (h : s.paths a = some p)
    (hvalid : p.snValid = true) :
    ∃ p', (preqFrameProcess cfg rx e m s).1.paths a = some p' ∧ p'.snValid = true ∧
      p'.metric = p.metric ∧
      (p'.sn = p.sn ∧ ¬ e.Updates cfg a p ∨ p'.sn = e.targetSn ∧ e.Updates cfg a p) := by
  simp only [preqFrameProcess, preqVars]
  by_cases hself : e.targetAddr = cfg.macAddr
  · rw [if_pos (by simpa using hself), preqForUs_paths]
    exact ⟨p, h, hvalid, rfl, Or.inl ⟨rfl, fun hu => hu.2.1.1 hself⟩⟩
  · rw [if_neg (by simpa using hself)]
    by_cases hbc : e.targetAddr = Mac.broadcast ∧ e.targetOnly = true
    · rw [if_pos (by simpa using hbc)]
      obtain ⟨p', hp', hc⟩ := preqProactive_calm cfg rx e h
      exact ⟨p', hp', hc.snValid.trans hvalid, hc.metric,
        Or.inl ⟨hc.sn, fun hu => hu.2.1.2 hbc⟩⟩
    · rw [if_neg (by simpa using hbc)]
      exact preqForOther_paths e ⟨hself, hbc⟩ h hvalid

theorem prepFrameProcess_calm (e : Prep) (m : BitVec 32) (h : s.paths a = some p) :
    ∃ p', (prepFrameProcess cfg rx e m s).1.paths a = some p' ∧ p.Calm p' := by
  have hset := State.lookup_set_calm e.targetAddr rx.now h
    (f := fun q => { q with gateAsked := false, isGate := q.isGate && e.flags.getLsbD 0 })
    fun q => ⟨rfl, rfl, rfl⟩
  simp only [prepFrameProcess]
  split
  · split
    · exact State.lookup_calm rx.now e.targetAddr h
    · rename_i q hq
      split
      · exact hset q hq
      · exact State.lookup_calm rx.now e.targetAddr h
  · split
    · exact ⟨p, h, Path.Calm.refl p⟩
    · split
      · exact ⟨p, h, Path.Calm.refl p⟩
      · split
        · exact State.lookup_calm rx.now e.origAddr h
        · split <;> exact State.lookup_calm rx.now e.origAddr h

theorem Path.FreshTo.of_calm {p' : Path} (h : p.Calm p') : p.FreshTo p' :=
  Path.FreshTo.of_same h.sn (h.metric ▸ BitVec.le_refl _)

theorem perrFrameProcess_fresh (e : Perr) (h : s.paths a = some p) (hlive : p.Live rx.now) :
    ∃ p', (perrFrameProcess cfg rx e s).1.paths a = some p' ∧ p.FreshTo p' := by
  have hsame : p.FreshTo p := Path.FreshTo.of_calm (Path.Calm.refl p)
  have hlook := State.lookup_live (b := e.targetAddr) h hlive
  simp only [perrFrameProcess]
  split
  · exact ⟨p, h, hsame⟩
  · by_cases ha : a = e.targetAddr
    · subst ha
      rw [hlook]
      dsimp only
      split
      · rename_i hcond
        refine ⟨_, State.set_paths_self _ _ _, Path.FreshTo.of_newer ?_⟩
        simp only [hlive.snValid, Bool.not_true, Bool.false_or, Bool.and_eq_true, Bool.or_eq_true,
          beq_iff_eq] at hcond
        dsimp only
        split
        · rename_i hne
          exact hcond.2.resolve_right (by simpa using hne)
        · exact snGt_succ p.sn
      · exact ⟨p, hlook, hsame⟩
    · split
      · exact ⟨p, hlook, hsame⟩
      · split
        · exact ⟨p, by rw [State.set_paths_ne _ _ ha, hlook], hsame⟩
        · exact ⟨p, hlook, hsame⟩

/-- A root announcement gives an entry the same sequence number or a newer one. -/
theorem rannPath_fresh (e : Rann) {q : Path} (h : s.paths a = some p)
    (hq : a = e.addr → q = p) :
    ∃ p', (rannPath cfg rx e s q).1.paths a = some p' ∧ p.FreshTo p' := by
  have hsame : p.FreshTo p := Path.FreshTo.of_calm (Path.Calm.refl p)
  simp only [rannPath]
  split
  · exact ⟨p, h, hsame⟩
  · rename_i hcond
    by_cases ha : a = e.addr
    · obtain rfl := hq ha
      subst ha
      refine ⟨_, State.set_paths_self _ _ _, ?_⟩
      have hcalm := Path.announce_calm
        { q with
          lastPreqToRoot := if refreshRoot cfg rx q e.ttl then rx.now else q.lastPreqToRoot
          sn := e.seq
          rannMetric := e.metric + rx.lastHopMetric
          isRoot := true
          rannSndAddr := rx.ta } (e.flags.getLsbD 0) e.interval
      by_cases hlt : snLt q.sn e.seq = true
      · refine Path.FreshTo.of_newer ?_
        rw [hcalm.sn]
        exact hlt
      · have hand : q.sn = e.seq ∧ e.metric < q.rannMetric := by simpa [hlt] using hcond
        refine Path.FreshTo.of_same ?_ ?_
        · rw [hcalm.sn]
          exact hand.1.symm
        · rw [hcalm.metric]
          exact BitVec.le_refl _
    · exact ⟨p, by rw [State.set_paths_ne _ _ ha, h], hsame⟩

theorem rannFrameProcess_fresh (e : Rann) (h : s.paths a = some p) (hlive : p.Live rx.now) :
    ∃ p', (rannFrameProcess cfg rx e s).1.paths a = some p' ∧ p.FreshTo p' := by
  have hsame : p.FreshTo p := Path.FreshTo.of_calm (Path.Calm.refl p)
  have hlook := State.lookup_live (b := e.addr) h hlive
  simp only [rannFrameProcess]
  split
  · exact ⟨p, h, hsame⟩
  split
  · exact ⟨p, h, hsame⟩
  split
  · rename_i q hq
    refine rannPath_fresh e hlook fun ha => ?_
    subst ha
    simpa [hlook] using hq.symm
  · rename_i hnone
    have hadd := State.meshPathAdd_paths cfg rx hlook hnone
    split
    · rename_i heq
      rw [heq] at hadd
      exact ⟨p, hadd, hsame⟩
    · rename_i heq
      rw [heq] at hadd
      refine rannPath_fresh e hadd fun ha => ?_
      subst ha
      simp [hlook] at hnone

theorem plinkBroken_fresh (sta : Mac) (h : s.paths a = some p) :
    ∃ p', (plinkBroken sta s).paths a = some p' ∧ p.FreshTo p' := by
  refine ⟨p.linkBroken sta, by simp [plinkBroken, h], ?_⟩
  unfold Path.linkBroken
  split
  · exact Path.FreshTo.of_newer (snGt_succ p.sn)
  · exact Path.FreshTo.of_calm (Path.Calm.refl p)

end Process

/-- One step leaves every live entry as fresh as it was. -/
def StepFresh (cfg : Cfg) (s : State) (ev : Ev) : Prop :=
  ∀ a p, s.paths a = some p → p.Live ev.now →
    ∃ p', (step cfg s ev).paths a = some p' ∧ p.FreshTo p'

/-- A PREQ whose target is its originator, known by a live entry: the originator's sequence number
is not older than the entry's, the target's is newer than the originator's, and yet not newer than
the entry's. The element is gone on with: its station is known, its transmitter has an entry or
gets one, and its metric is not zero. -/
def WrapsRound (cfg : Cfg) (s : State) : Ev → Prop
  | .preq rx e =>
    e.targetAddr = e.origAddr ∧ e.ForOther cfg ∧ rx.staKnown = true ∧
      TransmitterKnown cfg rx s e.origAddr ∧ ¬ (e.metric = 0 ∧ rx.lastHopMetric = 0) ∧
      ∃ p, s.paths e.origAddr = some p ∧ p.Live rx.now ∧ snGt p.sn e.origSn = false ∧
        snLt e.origSn e.targetSn = true ∧ snGt e.targetSn p.sn = false
  | _ => False

section Step

variable {cfg : Cfg} {s : State} {a : Mac} {p : Path} {rx : Rx}

theorem Path.Accepts.fresh {sn metric : BitVec 32} (h : p.Accepts sn metric) :
    snGt sn p.sn = true ∨ sn = p.sn ∧ metric ≤ p.metric := by
  obtain ⟨hgt, hsame⟩ := h
  rcases eq_or_snGt sn p.sn hgt with rfl | hnewer
  · refine Or.inr ⟨rfl, ?_⟩
    by_contra hlt
    exact hsame ⟨rfl, by bv_omega⟩
  · exact Or.inl hnewer

theorem Path.FreshTo.of_accepts {p' : Path} {sn metric : BitVec 32} (h : p.Accepts sn metric)
    (hsn : p'.sn = sn) (hmetric : p'.metric = metric) : p.FreshTo p' := by
  rcases h.fresh with hnewer | ⟨hsame, hle⟩
  · exact Path.FreshTo.of_newer (hsn ▸ hnewer)
  · exact Path.FreshTo.of_same (hsn.trans hsame) (hmetric ▸ hle)

/-- A number newer than one that is not older cannot be the first one again. -/
theorem ne_of_wraps {x y z : BitVec 32} (hxy : snGt x y = false) (hyz : snLt y z = true) :
    z ≠ x := by
  rintro rfl
  rw [snLt_eq_snGt, hxy] at hyz
  cases hyz

theorem step_preq (cfg : Cfg) (s : State) (rx : Rx) (e : Preq) :
    step cfg s (.preq rx e) =
      if (routeInfoGet cfg rx e.origin s).2 = 0 then (routeInfoGet cfg rx e.origin s).1
      else (preqFrameProcess cfg rx e (routeInfoGet cfg rx e.origin s).2
        (routeInfoGet cfg rx e.origin s).1).1 := by
  simp only [step, beq_iff_eq]

theorem step_prep (cfg : Cfg) (s : State) (rx : Rx) (e : Prep) :
    step cfg s (.prep rx e) =
      if (routeInfoGet cfg rx e.origin s).2 = 0 then (routeInfoGet cfg rx e.origin s).1
      else (prepFrameProcess cfg rx e (routeInfoGet cfg rx e.origin s).2
        (routeInfoGet cfg rx e.origin s).1).1 := by
  simp only [step, beq_iff_eq]

theorem not_fresh_of_wrapsRound (e : Preq) (h : WrapsRound cfg s (.preq rx e)) :
    ¬ StepFresh cfg s (.preq rx e) := by
  obtain ⟨htarget, hother, hsta, htrans, hmetric, p, hp, hlive, hold, hlt, hnot⟩ := h
  intro hfresh
  obtain ⟨p', hp', hto⟩ := hfresh e.origAddr p hp hlive
  have htaken : TakenOver cfg rx e.origin p := by
    refine ⟨fun heq => hother.1 (htarget.trans heq), hsta, hold, ?_⟩
    rintro ⟨hsame, -⟩
    have hgt : snGt e.targetSn p.sn = true := by
      rw [hsame]
      exact hlt
    rw [hnot] at hgt
    cases hgt
  obtain ⟨p₁, hp₁, hvalid, hcase⟩ := routeInfoGet_live cfg e.origin hp hlive
  rcases hcase with ⟨-, -, -, hno⟩ | ⟨hsn, -, -, -, hmet⟩
  · exact hno ⟨rfl, htaken⟩
  · have hgone : (routeInfoGet cfg rx e.origin s).2 ≠ 0 :=
      hmet.2 ⟨htrans, fun hz => hmetric ((newMetric_eq_zero _ _).1 hz)⟩
    have hupd : e.Updates cfg e.origAddr p₁ := ⟨htarget.symm, hother, by rw [hsn]; exact hlt⟩
    rw [step_preq, if_neg hgone] at hp'
    obtain ⟨p₂, hp₂, -, -, hcase⟩ := preqFrameProcess_paths cfg rx e
      (routeInfoGet cfg rx e.origin s).2 hp₁ hvalid
    obtain rfl : p' = p₂ := by simpa [hp₂] using hp'.symm
    rcases hcase with ⟨-, hno⟩ | ⟨hsn', -⟩
    · exact hno hupd
    · rcases hto.not_older with heq | hgt
      · exact ne_of_wraps hold hlt (hsn'.symm.trans heq)
      · rw [hsn', hnot] at hgt
        cases hgt

theorem preq_fresh (e : Preq) (h : ¬ WrapsRound cfg s (.preq rx e)) :
    StepFresh cfg s (.preq rx e) := by
  intro a p hp hlive
  obtain ⟨p₁, hp₁, hvalid, hcase⟩ := routeInfoGet_live cfg e.origin hp hlive
  rw [step_preq]
  by_cases hgone : (routeInfoGet cfg rx e.origin s).2 = 0
  · rw [if_pos hgone]
    refine ⟨p₁, hp₁, ?_⟩
    rcases hcase with ⟨hsn, hmetric, -, -⟩ | ⟨hsn, hmetric, -, htaken, -⟩
    · exact Path.FreshTo.of_same hsn hmetric
    · exact Path.FreshTo.of_accepts htaken.accepts hsn hmetric
  · rw [if_neg hgone]
    obtain ⟨p₂, hp₂, -, hmetric₂, hcase₂⟩ := preqFrameProcess_paths cfg rx e
      (routeInfoGet cfg rx e.origin s).2 hp₁ hvalid
    refine ⟨p₂, hp₂, ?_⟩
    rcases hcase with ⟨hsn, hmetric, -, -⟩ | ⟨hsn, hmetric, ha, htaken, hmet⟩
    · rcases hcase₂ with ⟨hsn₂, -⟩ | ⟨hsn₂, hupd⟩
      · exact Path.FreshTo.of_same (hsn₂.trans hsn) (hmetric₂ ▸ hmetric)
      · refine Path.FreshTo.of_newer ?_
        rw [hsn₂, ← hsn]
        exact hupd.2.2
    · rcases hcase₂ with ⟨hsn₂, -⟩ | ⟨hsn₂, htgt, hother, hlt⟩
      · exact Path.FreshTo.of_accepts htaken.accepts (hsn₂.trans hsn) (hmetric₂.trans hmetric)
      · refine Path.FreshTo.of_newer ?_
        by_contra hnot
        have hknown := hmet.1 hgone
        have hlt' : snLt e.origSn e.targetSn = true := by
          rw [hsn] at hlt
          exact hlt
        have ha' : a = e.origAddr := ha
        subst ha'
        refine h ⟨htgt.symm, hother, htaken.staKnown, hknown.1,
          fun hz => hknown.2 ((newMetric_eq_zero _ _).2 hz), p, hp, hlive, htaken.accepts.1, hlt', ?_⟩
        simpa [hsn₂] using hnot

theorem prep_fresh (e : Prep) : StepFresh cfg s (.prep rx e) := by
  intro a p hp hlive
  obtain ⟨p₁, hp₁, -, hcase⟩ := routeInfoGet_live cfg e.origin hp hlive
  obtain ⟨p₂, hp₂, hcalm⟩ : ∃ p', (step cfg s (.prep rx e)).paths a = some p' ∧ p₁.Calm p' := by
    rw [step_prep]
    split
    · exact ⟨p₁, hp₁, Path.Calm.refl p₁⟩
    · exact prepFrameProcess_calm e _ hp₁
  refine ⟨p₂, hp₂, ?_⟩
  rcases hcase with ⟨hsn, hmetric, -, -⟩ | ⟨hsn, hmetric, -, htaken, -⟩
  · exact Path.FreshTo.of_same (hcalm.sn.trans hsn) (hcalm.metric ▸ hmetric)
  · exact Path.FreshTo.of_accepts htaken.accepts (hcalm.sn.trans hsn) (hcalm.metric.trans hmetric)

theorem step_fresh_iff (cfg : Cfg) (s : State) (ev : Ev) :
    StepFresh cfg s ev ↔ ¬ WrapsRound cfg s ev := by
  cases ev with
  | preq rx e => exact ⟨fun hfresh hwrap => not_fresh_of_wrapsRound e hwrap hfresh, preq_fresh e⟩
  | prep rx e => exact iff_of_true (prep_fresh e) id
  | perr rx e => exact iff_of_true (fun a p hp hlive => perrFrameProcess_fresh e hp hlive) id
  | rann rx e => exact iff_of_true (fun a p hp hlive => rannFrameProcess_fresh e hp hlive) id
  | plinkBroken now sta => exact iff_of_true (fun a p hp _ => plinkBroken_fresh sta hp) id

end Step

/-- Over any run, every live entry stays as fresh as it was in every step exactly when no step is
such a PREQ. -/
theorem hwmp_fresh_iff (cfg : Cfg) (s : State) (es : List Ev) :
    Along (step cfg) (StepFresh cfg) s es ↔
      Along (step cfg) (fun s ev => ¬ WrapsRound cfg s ev) s es := by
  constructor
  · refine along_mono (I := fun _ => True) (fun _ _ _ _ => trivial) (fun s ev _ h => ?_) trivial
    exact (step_fresh_iff cfg s ev).1 h
  · refine along_mono (I := fun _ => True) (fun _ _ _ _ => trivial) (fun s ev _ h => ?_) trivial
    exact (step_fresh_iff cfg s ev).2 h

/-- A station that forwards, with an empty table, and a neighbour it hears two PREQs from. -/
def exampleCfg : Cfg where
  macAddr := #v[2, 0, 0, 0, 0, 9]
  dot11MeshForwarding := true
  dot11MeshGateAnnouncementProtocol := false
  elementTtl := 31
  netTraversal := 12
  rootPathConfirmation := 500
  tuToSystime := BitVec.setWidth 64

def noPaths : State := ⟨fun _ => none, 0, 0, 0⟩

def neighbour : Mac := Mac.ending 1

def exampleRx : Rx := ⟨neighbour, 1000, true, 100, fun _ => true⟩

/-- A PREQ of the neighbour with its own sequence number and that of a target. -/
def examplePreq (origSn : BitVec 32) (target : Mac) (targetSn : BitVec 32) : Ev :=
  .preq exampleRx ⟨0, 0, 31, 1, neighbour, origSn, 5000, 0, 0, target, targetSn⟩

/-- The entry learnt from the first PREQ has the sequence number 0; the second one moves it to
0x7fffffff and then to 0xfffffffe, which is older than 0. -/
theorem preq_wraps_round :
    ¬ Along (step exampleCfg) (StepFresh exampleCfg) noPaths
      [examplePreq 0 #v[2, 0, 0, 0, 0, 7] 0,
        examplePreq 0x7fffffff neighbour 0xfffffffe] := by
  rintro ⟨-, h, -⟩
  obtain ⟨p', hp', hto⟩ := h neighbour _ rfl ⟨rfl, rfl, rfl, by decide⟩
  obtain rfl := Option.some.inj hp'
  rcases hto.not_older with heq | hgt
  · exact absurd heq (by decide)
  · exact absurd hgt (by decide)

end Rtl8821cu.Hwmp
