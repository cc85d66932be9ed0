import Rtl8821cu.LibStages
import Rtl8821cu.ClntJoin

/-! Runs of a joining station: the order in which it gets to an association, and how often its
link timer can run out on the way. -/
namespace Rtl8821cu.ClntJoin
open Run Stages

/-- The words of `state` that carry no progress. -/
def idleWords : List FwState := [0x0, 0x1, 0x2, 0x3]

/-- Those of them that do not belong to an IBSS. -/
def restWords : List FwState := [0x0, 0x2, 0x3]

/-- The words of `state` in an IBSS that was created or that a peer has joined, as an IBSS and
behind a change to infrastructure mode. -/
def ibssWords : List FwState := [0x4001, 0x4002]

/-- The words of `state` of a station that is not on its way. -/
def quietWords : List FwState := idleWords ++ ibssWords

/-- The words of `state` while a network is waited for, authenticated with and associated with. -/
def linkWords : List FwState := [0x102, 0x202, 0x2402]

/-- The word of `state` of an associated station. -/
def linkedWord : FwState := 0x4402

/-- The words that a station without SAE goes through. -/
def knownWords : List FwState := idleWords ++ linkWords ++ [linkedWord] ++ ibssWords

/-- How far the station got: it waits for a beacon, authenticates, associates, is associated. -/
def Mlme.stage (s : Mlme) : ℕ :=
  if s.state.has wifiFwAssocSuccess then 4
  else if s.state.has wifiFwAssocState then 3
  else if s.state.has wifiFwAuthState then 2
  else if s.state.has wifiFwAuthNull then 1
  else 0

def Mlme.Linking (s : Mlme) : Prop := s.state ∈ linkWords

instance (s : Mlme) : Decidable s.Linking := inferInstanceAs (Decidable (s.state ∈ linkWords))

/-- The network of the command may be joined. -/
def Bss.Usable (b : Bss) : Prop := b.ess = true ∧ 2 ≤ b.ieLength ∧ b.ieLength ≤ maxIeSz ∧ b.chbwOk

/-- The command joins no IBSS and creates none. -/
def NoIbss : Event → Prop
  | .join b _ => b.ess = true ∨ b.ibss = false
  | .createBss b _ => b.adhoc = false
  | _ => True

/-- The command cancels the link timer and goes no further. -/
def Aborts : Event → Prop
  | .join b _ => b.ess = false ∧ b.ibss = false
  | .createBss b _ => b.adhoc = true ∧ (maxIeSz < b.ieLength ∨ b.ibss = false)
  | _ => False

/-- What lets the station leave a stage upwards. -/
def Milestone (env : Env) : ℕ → Mlme → Event → Prop
  | 0, _, .join b _ => b.Usable
  | 1, s, .beacon b _ => b.addr3 = s.bssid ∧ b.scanning = false ∧ s.joinAbort = false
  | 2, s, .auth f => f.da = env.mac ∧ f.status = 0 ∧ s.joinAbort = false ∧
      (f.seq = 2 ∧ s.authAlgo ≠ dot11AuthAlgrthmShared ∨
        f.seq = 4 ∧ s.authAlgo = dot11AuthAlgrthmShared)
  | 3, s, .assocRsp f _ => f.da = env.mac ∧ f.status = 0 ∧ s.joinAbort = false ∧
      1 ≤ (f.aid &&& 0x3fff).toNat ∧ (f.aid &&& 0x3fff).toNat ≤ 2007
  | _, _, _ => False

/-- The link timer runs out while the station is on its way. -/
def expires (s : Mlme) : Event → Bool
  | .linkTimer _ => s.linkTimer.isSome && decide s.Linking
  | _ => false

def isJoin : Event → Bool
  | .join _ _ => true
  | _ => false

/-- The fields on which the way to an association depends are as before. -/
structure Same (s s' : Mlme) : Prop where
  state : s'.state = s.state
  reauthCount : s'.reauthCount = s.reauthCount
  reassocCount : s'.reassocCount = s.reassocCount

/-- What an event can do to a station that does not use SAE. -/
inductive Effect (env : Env) (s : Mlme) (e : Event) (s' : Mlme) : Prop
  | drop (hrest : s'.state ∈ restWords)
  | adhoc (hs' : s'.state = 0x1 ∨ s'.state = 0x4001) (hi : ¬NoIbss e)
  | peer (hs : s.state = 0x1 ∨ s.state = 0x4001) (hs' : s'.state ∈ ibssWords)
      (he : expires s e = false)
  | same (hsame : Same s s') (he : expires s e = false)
      (harm : s.linkTimer.isSome → s'.linkTimer.isSome)
  | spent (hsame : Same s s') (hl : ¬s.Linking)
  | lost (hsame : Same s s') (ha : Aborts e)
  | join (hs' : s'.state = 0x102) (hm : Milestone env 0 s e) (hj : isJoin e)
      (harm : s'.linkTimer.isSome)
  | heard (hs : s.state = 0x102) (hs' : s'.state = 0x202) (hauth : s'.reauthCount = 0)
      (hassoc : s'.reassocCount = 0) (hm : Milestone env 1 s e) (harm : s'.linkTimer.isSome)
  | accepted (hs : s.state = 0x202) (hs' : s'.state = 0x2402)
      (hassoc : s'.reassocCount = s.reassocCount) (hm : Milestone env 2 s e)
      (harm : s'.linkTimer.isSome)
  | linked (hs : s.state = 0x2402) (hs' : s'.state = 0x4402) (hm : Milestone env 3 s e)
  | reauth (hs : s.state = 0x202) (hs' : s'.state = 0x202)
      (hauth : s'.reauthCount = s.reauthCount + 1) (hlim : s'.reauthCount ≤ reauthLimit)
      (hassoc : s'.reassocCount = s.reassocCount) (harm : s'.linkTimer.isSome)
  | reassoc (hs : s.state = 0x2402) (hs' : s'.state = 0x2402)
      (hassoc : s'.reassocCount = s.reassocCount + 1) (hlim : s'.reassocCount ≤ reassocLimit)
      (harm : s'.linkTimer.isSome)

section Fields

variable (s : Mlme) (r : Report) (res : ℤ) (status : ℕ)

@[simp] theorem reportJoinRes_state : (s.reportJoinRes r res status).state = s.state := by
  cases r <;> rfl

@[simp] theorem reportJoinRes_reauthCount :
    (s.reportJoinRes r res status).reauthCount = s.reauthCount := by
  cases r <;> rfl

@[simp] theorem reportJoinRes_reassocCount :
    (s.reportJoinRes r res status).reassocCount = s.reassocCount := by
  cases r <;> rfl

@[simp] theorem reportJoinRes_linkTimer :
    (s.reportJoinRes r res status).linkTimer = s.linkTimer := by
  cases r <;> rfl

end Fields

variable (env : Env) (s : Mlme)

theorem Same.refl : Same s s := ⟨rfl, rfl, rfl⟩

theorem receiveDisconnect_effect (addr : Mac) (reason : ℕ) (r : Report) :
    (s.receiveDisconnect addr reason r).state = 0 ∨
      Same s (s.receiveDisconnect addr reason r) ∧
        (s.receiveDisconnect addr reason r).linkTimer = s.linkTimer := by
  unfold Mlme.receiveDisconnect
  split
  · exact .inr ⟨.refl s, rfl⟩
  split
  · exact .inr ⟨.refl s, rfl⟩
  split
  · by_cases hr : r = .queued
    · subst hr
      exact .inl rfl
    · cases r <;> first | exact absurd rfl hr | exact .inr ⟨⟨rfl, rfl, rfl⟩, rfl⟩
  split
  · by_cases hr : r = .queued
    · subst hr
      exact .inl rfl
    · cases r <;> first | exact absurd rfl hr | exact .inr ⟨⟨rfl, rfl, rfl⟩, rfl⟩
  · exact .inr ⟨.refl s, rfl⟩

variable {env s} {e : Event} {s' : Mlme}

/-- A step that leaves the timer alone. -/
theorem Effect.keep (he : ∀ r, e ≠ .linkTimer r) (h : Same s s')
    (ht : s'.linkTimer = s.linkTimer) : Effect env s e s' := by
  refine .same h ?_ (by rw [ht]; exact id)
  cases e <;> first | rfl | exact absurd rfl (he _)

theorem Effect.disconnected (he : ∀ r, e ≠ .linkTimer r)
    (h : s'.state = 0 ∨ Same s s' ∧ s'.linkTimer = s.linkTimer) : Effect env s e s' := by
  rcases h with h | ⟨h, ht⟩
  · exact .drop (by simp [h, restWords])
  · exact .keep he h ht

theorem not_noIbss {b : Bss} {r : Report} (hess : ¬b.ess = true) (hibss : b.ibss = true) :
    ¬NoIbss (.join b r) := by
  rintro (h | h)
  · exact hess h
  · exact absurd (hibss.symm.trans h) (by decide)

theorem joinCmdHdl_effect (b : Bss) (r : Report) :
    Effect env s (.join b r) (s.joinCmdHdl b r) := by
  have hne : ∀ r', Event.join b r ≠ .linkTimer r' := by simp
  by_cases ha : s.state.has wifiFwAssocSuccess
  · simp only [Mlme.joinCmdHdl, ha, if_true, Mlme.cancelLinkTimer, Mlme.startClntJoin]
    split
    · exact .drop (by simp [wifiFwNullState, restWords])
    split
    · exact .drop (by simp [wifiFwNullState, restWords])
    split
    · exact .drop (by simp [wifiFwNullState, restWords])
    rename_i hmax hmin hok
    split
    · rename_i hess
      exact .join rfl ⟨hess, by omega, by omega, by simpa using hok⟩ rfl rfl
    rename_i hess
    split
    · rename_i hibss
      exact .adhoc (.inl (by simp [wifiFwAdhocState])) (not_noIbss hess hibss)
    · exact .drop (by simp [wifiFwNullState, restWords])
  · simp only [Mlme.joinCmdHdl, ha, Mlme.cancelLinkTimer, Mlme.startClntJoin]
    split
    · exact .keep hne ⟨rfl, rfl, rfl⟩ rfl
    split
    · exact .keep hne (by constructor <;> simp) (by simp)
    split
    · exact .keep hne (by constructor <;> simp) (by simp)
    rename_i hmax hmin hok
    split
    · rename_i hess
      exact .join rfl ⟨hess, by omega, by omega, by simpa using hok⟩ rfl rfl
    rename_i hess
    split
    · rename_i hibss
      exact .adhoc (.inl (by simp [wifiFwAdhocState])) (not_noIbss hess hibss)
    · rename_i hibss
      exact .lost ⟨rfl, rfl, rfl⟩ ⟨by simpa using hess, by simpa using hibss⟩

theorem createbssHdl_effect (b : CreateBss) (r : Report) :
    Effect env s (.createBss b r) (s.createbssHdl b r) := by
  have hne : ∀ r', Event.createBss b r ≠ .linkTimer r' := by simp
  simp only [Mlme.createbssHdl, Mlme.startCreateIbss]
  split
  · exact .keep hne (.refl s) rfl
  split
  · exact .keep hne ⟨rfl, rfl, rfl⟩ rfl
  split
  · rename_i hadhoc
    split
    · rename_i hmax
      exact .lost ⟨rfl, rfl, rfl⟩ ⟨hadhoc, .inl hmax⟩
    split
    · rename_i hibss
      exact .lost ⟨rfl, rfl, rfl⟩ ⟨hadhoc, .inr (by simpa using hibss)⟩
    split
    · exact .adhoc (.inr (by simp [wifiFwAdhocState, wifiFwAssocSuccess]))
        (by simp [NoIbss, hadhoc])
    · exact .drop (by simp [wifiFwNullState, restWords])
  · exact .keep hne (.refl s) rfl

/-- What holds of each of the words holds of the state. -/
theorem of_known {p : FwState → Bool} (hk : s.state ∈ knownWords) (h : knownWords.all p) :
    p s.state :=
  List.all_eq_true.mp h _ hk

theorem eq_of_authNull (hk : s.state ∈ knownWords) (h : s.state.has wifiFwAuthNull) :
    s.state = 0x102 := by
  have hw := of_known (p := fun w => !w.has wifiFwAuthNull || w == 0x102) hk (by decide)
  simpa [h] using hw

theorem eq_of_authState (hk : s.state ∈ knownWords) (h : s.state.has wifiFwAuthState) :
    s.state = 0x202 := by
  have hw := of_known (p := fun w => !w.has wifiFwAuthState || w == 0x202) hk (by decide)
  simpa [h] using hw

theorem eq_of_assocState (hk : s.state ∈ knownWords) (h : s.state.has wifiFwAssocState) :
    s.state = 0x2402 := by
  have hw := of_known (p := fun w => !w.has wifiFwAssocState || w == 0x2402) hk (by decide)
  simpa [h] using hw

theorem eq_of_associating (hk : s.state ∈ knownWords)
    (h : s.state.has (wifiFwAuthSuccess ||| wifiFwAssocState))
    (hn : ¬s.state.has wifiFwAssocSuccess) : s.state = 0x2402 := by
  have hw := of_known (p := fun w => !w.has (wifiFwAuthSuccess ||| wifiFwAssocState) ||
    w.has wifiFwAssocSuccess || w == 0x2402) hk (by decide)
  simpa [h, hn] using hw

theorem not_linking (hk : s.state ∈ knownWords) (h1 : ¬s.state.has wifiFwAuthNull)
    (h2 : ¬s.state.has wifiFwAuthState) (h3 : ¬s.state.has wifiFwAssocState) : ¬s.Linking := by
  have hw := of_known (p := fun w => w.has wifiFwAuthNull || w.has wifiFwAuthState ||
    w.has wifiFwAssocState || !linkWords.contains w) hk (by decide)
  simpa [Mlme.Linking, h1, h2, h3] using hw

theorem onBeacon_effect (hk : s.state ∈ knownWords) (hsae : env.sae = false) (b : Beacon)
    (r : Report) : Effect env s (.beacon b r) (s.onBeacon env b r) := by
  have hne : ∀ r', Event.beacon b r ≠ .linkTimer r' := by simp
  simp only [Mlme.onBeacon]
  split
  · split
    · exact .disconnected hne (receiveDisconnect_effect s _ _ _)
    · exact .keep hne (.refl s) rfl
  rename_i hscan
  split
  · exact .keep hne (.refl s) rfl
  rename_i hmine
  split
  · rename_i hnull
    rw [Bool.and_eq_true] at hnull
    have hs := eq_of_authNull hk hnull.1
    split
    · exact .same ⟨rfl, rfl, rfl⟩ rfl fun _ => rfl
    · rename_i hfail
      simp only [Bool.or_eq_true, not_or, Bool.not_eq_true] at hfail
      simp only [Mlme.startClntAuth, hsae, Bool.false_and]
      exact .heard hs (by simp [Mlme.cancelLinkTimer, Mlme.issueAuth, Mlme.setLinkTimer,
        Mlme.send, hs, wifiFwAuthNull, wifiFwAuthState]) rfl rfl
        ⟨by simpa using hmine, by simpa using hscan, hfail.2⟩ rfl
  split
  · split
    · exact .disconnected hne (receiveDisconnect_effect s _ _ _)
    · exact .keep hne (.refl s) rfl
  split
  · split
    · cases r <;> exact .keep hne ⟨rfl, rfl, rfl⟩ rfl
    · exact .keep hne (.refl s) rfl
  · exact .keep hne (.refl s) rfl

/-- In an IBSS the first peer associates the station. -/
theorem addSta_effect {t : Mlme} (hst : Same s t) (ht : t.linkTimer = s.linkTimer)
    (hk : s.state ∈ knownWords) (adhoc : Bool) :
    Effect env s (.addSta adhoc) (if adhoc then t.mlmeextStaAddEventCallback else t) := by
  have hne : ∀ r', Event.addSta adhoc ≠ .linkTimer r' := by simp
  split
  · unfold Mlme.mlmeextStaAddEventCallback
    split
    · rename_i hpeer
      rw [hst.state, Bool.and_eq_true, Bool.not_eq_true'] at hpeer
      have hw := of_known (p := fun w => !(w.role == wifiFwAdhocState) ||
        w.has wifiFwAssocSuccess || w == 0x1) hk (by decide)
      have hs : s.state = 0x1 := by simpa [hpeer.1, hpeer.2] using hw
      refine .peer (.inl hs) ?_ rfl
      show t.state ||| wifiFwAssocSuccess ∈ ibssWords
      rw [hst.state, hs]
      decide
    · exact .keep hne hst ht
  · exact .keep hne hst ht

theorem delSta_effect (client ibssEmpty : Bool) :
    Effect env s (.delSta client ibssEmpty) (step env s (.delSta client ibssEmpty)) := by
  have hne : ∀ r', Event.delSta client ibssEmpty ≠ .linkTimer r' := by simp
  simp only [step, Mlme.mlmeextStaDelEventCallback]
  split
  · split
    · exact .drop (by simp [Mlme.rtwMlmeextDisconnect, Mlme.cancelLinkTimer, wifiFwNullState,
        restWords])
    · exact .keep hne ⟨rfl, rfl, rfl⟩ rfl
  · exact .keep hne ⟨rfl, rfl, rfl⟩ rfl

/-- The association request goes out. -/
theorem startClntAssoc_effect (hs : s.state = 0x202) (hm : Milestone env 2 s e) :
    Effect env s e s.startClntAssoc :=
  .accepted hs (by simp [Mlme.startClntAssoc, Mlme.cancelLinkTimer, Mlme.setLinkTimer, Mlme.send,
    hs, wifiFwAuthNull, wifiFwAuthState, wifiFwAuthSuccess, wifiFwAssocState]) rfl hm rfl

theorem onAuthClient_effect (hk : s.state ∈ knownWords) (hsae : env.sae = false) (f : Auth) :
    Effect env s (.auth f) (s.onAuthClient env f) := by
  have hne : ∀ r', Event.auth f ≠ .linkTimer r' := by simp
  simp only [Mlme.onAuthClient, hsae, Bool.and_false, Bool.false_and]
  split
  · exact .keep hne (.refl s) rfl
  split
  · exact .keep hne (.refl s) rfl
  rename_i hda
  split
  · exact .keep hne (.refl s) rfl
  rename_i hauth
  simp only [Bool.or_eq_true, Bool.not_eq_true', not_or, Bool.not_eq_false,
    Bool.not_eq_true] at hauth
  have hs := eq_of_authState hk hauth.1
  split
  · split
    · exact .same ⟨rfl, rfl, rfl⟩ rfl fun _ => rfl
    · exact .same ⟨rfl, rfl, rfl⟩ rfl fun _ => rfl
  rename_i hstatus
  split
  · rename_i hseq
    split
    · split
      · exact .keep hne (.refl s) rfl
      · split
        · exact .keep hne (.refl s) rfl
        · exact .same ⟨rfl, rfl, rfl⟩ rfl fun _ => rfl
    · rename_i hshared
      exact startClntAssoc_effect hs ⟨by simpa using hda, by simpa using hstatus, hauth.2,
        .inl ⟨by simpa using hseq, by simpa using hshared⟩⟩
  split
  · rename_i hseq
    split
    · rename_i hshared
      exact startClntAssoc_effect hs ⟨by simpa using hda, by simpa using hstatus, hauth.2,
        .inr ⟨by simpa using hseq, by simpa using hshared⟩⟩
    · exact .keep hne (.refl s) rfl
  · exact .keep hne (.refl s) rfl

theorem onAssocRsp_effect (hk : s.state ∈ knownWords) (f : AssocRsp) (r : Report) :
    Effect env s (.assocRsp f r) (s.onAssocRsp env f r) := by
  have hne : ∀ r', Event.assocRsp f r ≠ .linkTimer r' := by simp
  simp only [Mlme.onAssocRsp]
  split
  · exact .keep hne (.refl s) rfl
  rename_i hda
  split
  · exact .keep hne (.refl s) rfl
  rename_i hassoc
  simp only [Bool.or_eq_true, Bool.not_eq_true', not_or, Bool.not_eq_false,
    Bool.not_eq_true] at hassoc
  split
  · exact .keep hne (.refl s) rfl
  rename_i hdone
  have hs := eq_of_associating hk hassoc.1 hdone
  split
  · exact .drop (by simp [wifiFwNullState, restWords])
  rename_i hstatus
  split
  · exact .drop (by simp [wifiFwNullState, restWords])
  · rename_i haid
    simp only [Bool.or_eq_true, decide_eq_true_eq, not_or, not_lt] at haid
    exact .linked hs (by simp [Mlme.cancelLinkTimer, hs, wifiFwAssocState, wifiFwAssocSuccess])
      ⟨by simpa using hda, by simpa using hstatus, hassoc.2, haid.1, haid.2⟩

theorem onDeAuth_effect (f : Leave) (r : Report) :
    Effect env s (.deauth f r) (s.onDeAuth f r) := by
  have hne : ∀ r', Event.deauth f r ≠ .linkTimer r' := by simp
  simp only [Mlme.onDeAuth]
  split
  · exact .keep hne (.refl s) rfl
  split
  · exact .keep hne (.refl s) rfl
  · exact .disconnected hne (receiveDisconnect_effect s _ _ _)

theorem onDisassoc_effect (f : Leave) (r : Report) :
    Effect env s (.disassoc f r) (s.onDisassoc f r) := by
  have hne : ∀ r', Event.disassoc f r ≠ .linkTimer r' := by simp
  simp only [Mlme.onDisassoc]
  split
  · exact .keep hne (.refl s) rfl
  · exact .disconnected hne (receiveDisconnect_effect s _ _ _)

theorem linkTimerHdl_effect {t : Mlme} (hst : Same s t) (hk : s.state ∈ knownWords)
    (hsae : env.sae = false) (r : Report) :
    Effect env s (.linkTimer r) (t.linkTimerHdl env r) := by
  unfold Mlme.linkTimerHdl
  split
  · exact .drop (by simp [wifiFwNullState, restWords])
  split
  · exact .drop (by simp [wifiFwNullState, restWords])
  rename_i hnull
  rw [hst.state] at hnull
  split
  · rename_i hauth
    have hs := eq_of_authState hk (hst.state ▸ hauth)
    simp only [hsae, Bool.false_eq_true, if_false]
    split
    · split
      · exact .drop (by simp [wifiFwNullState, restWords])
      · exact .drop (by simp [wifiFwNullState, restWords])
    · rename_i hlim
      rw [not_lt] at hlim
      exact .reauth hs (hst.state.trans hs) (congrArg (· + 1) hst.reauthCount) hlim
        hst.reassocCount rfl
  rename_i hauth
  rw [hst.state] at hauth
  split
  · rename_i hassoc
    have hs := eq_of_assocState hk (hst.state ▸ hassoc)
    simp only
    split
    · exact .drop (by simp [wifiFwNullState, restWords])
    · rename_i hlim
      rw [not_lt] at hlim
      exact .reassoc hs (hst.state.trans hs) (congrArg (· + 1) hst.reassocCount) hlim rfl
  · rename_i hassoc
    rw [hst.state] at hassoc
    exact .spent hst (not_linking hk hnull hauth hassoc)

theorem setopmodeHdl_effect (hk : s.state ∈ knownWords) (mode : Opmode) :
    Effect env s (.setopmode mode) (s.setopmodeHdl mode) := by
  cases mode with
  | ap => exact .drop (by simp [Mlme.setopmodeHdl, wifiFwApState, restWords])
  | infrastructure =>
    have hw := of_known (p := fun w => restWords.contains (w &&& ~~~0x03 ||| wifiFwStationState) ||
      w == 0x4001 || w &&& ~~~0x03 ||| wifiFwStationState == w) hk (by decide)
    rw [Bool.or_eq_true, Bool.or_eq_true, List.contains_iff_mem, beq_iff_eq, beq_iff_eq] at hw
    rcases hw with (hw | hs) | hw
    · exact .drop hw
    · refine .peer (.inr hs) ?_ rfl
      show s.state &&& ~~~0x03 ||| wifiFwStationState ∈ ibssWords
      rw [hs]
      decide
    · exact .keep (by simp) ⟨hw, rfl, rfl⟩ rfl
  | other => exact .keep (by simp) (.refl s) rfl

/-- What a step does to a station that does not use SAE. -/
theorem step_effect (hk : s.state ∈ knownWords) (hsae : env.sae = false) :
    Effect env s e (step env s e) := by
  cases e with
  | setauth mode =>
    simp only [step, Mlme.setauthHdl]
    split
    · exact .keep (by simp) ⟨rfl, rfl, rfl⟩ rfl
    · exact .keep (by simp) (.refl s) rfl
  | setopmode mode => exact setopmodeHdl_effect hk mode
  | createBss b r => exact createbssHdl_effect b r
  | join b r => exact joinCmdHdl_effect b r
  | beacon b r => exact onBeacon_effect hk hsae b r
  | auth f => exact onAuthClient_effect hk hsae f
  | assocRsp f r => exact onAssocRsp_effect hk f r
  | deauth f r => exact onDeAuth_effect f r
  | disassoc f r => exact onDisassoc_effect f r
  | linkTimer r =>
    simp only [step]
    split
    · exact linkTimerHdl_effect (s := s) (t := s.cancelLinkTimer) ⟨rfl, rfl, rfl⟩ hk hsae r
    · rename_i harm
      exact .same (.refl s) (by simp [expires, harm]) id
  | joinAbort => exact .same ⟨rfl, rfl, rfl⟩ rfl fun _ => rfl
  | joinAbortEnd => exact .keep (by simp) ⟨rfl, rfl, rfl⟩ rfl
  | disconnect => exact .drop (by simp [step, Mlme.disconnectHdl, Mlme.rtwMlmeextDisconnect,
      Mlme.cancelLinkTimer, wifiFwNullState, restWords])
  | extauthStatus success => exact .keep (by simp) ⟨rfl, rfl, rfl⟩ rfl
  | setPmksa =>
    simp only [step, hsae, Bool.false_and]
    exact .keep (by simp) (.refl s) rfl
  | lost reason r => exact .disconnected (by simp) (receiveDisconnect_effect s _ _ _)
  | addSta adhoc =>
    simp only [step]
    split
    · exact addSta_effect (s := s) (t := { s with addSta := s.addSta - 1 }) ⟨rfl, rfl, rfl⟩ rfl hk
        adhoc
    · exact .keep (by simp) (.refl s) rfl
  | delSta client ibssEmpty => exact delSta_effect client ibssEmpty

theorem idle_of_rest {w : FwState} (h : w ∈ restWords) : w ∈ idleWords :=
  List.all_eq_true.mp (show restWords.all fun w => idleWords.contains w by decide) w h |>
    List.contains_iff_mem.mp

theorem known_of_idle {w : FwState} (h : w ∈ idleWords) : w ∈ knownWords := by
  simp only [knownWords, List.mem_append]
  exact .inl (.inl (.inl h))

theorem Effect.known (h : Effect env s e s') (hk : s.state ∈ knownWords) :
    s'.state ∈ knownWords := by
  cases h with
  | drop hrest => exact known_of_idle (idle_of_rest hrest)
  | adhoc hs' => rcases hs' with hs' | hs' <;> rw [hs'] <;> decide
  | peer _ hs' => exact List.mem_append_right _ hs'
  | same hsame | spent hsame | lost hsame => exact hsame.state ▸ hk
  | join hs' | heard _ hs' | accepted _ hs' | linked _ hs' | reauth _ hs' | reassoc _ hs' =>
    rw [hs']
    decide

theorem stage_congr (h : s'.state = s.state) : s'.stage = s.stage := by
  unfold Mlme.stage
  rw [h]

theorem stage_of_idle (h : s.state ∈ idleWords) : s.stage = 0 := by
  simp only [idleWords, List.mem_cons, List.not_mem_nil, or_false] at h
  rcases h with h | h | h | h <;> rw [Mlme.stage, h] <;> rfl

theorem stage_of_authNull (h : s.state = 0x102) : s.stage = 1 := by
  rw [Mlme.stage, h]
  rfl

theorem stage_of_authState (h : s.state = 0x202) : s.stage = 2 := by
  rw [Mlme.stage, h]
  rfl

theorem stage_of_assocState (h : s.state = 0x2402) : s.stage = 3 := by
  rw [Mlme.stage, h]
  rfl

theorem stage_of_linked (h : s.state = 0x4402) : s.stage = 4 := by
  rw [Mlme.stage, h]
  rfl

/-- The station is in no IBSS and comes from none. -/
def Mlme.Infra (s : Mlme) : Prop := s.state ≠ 0x1 ∧ s.state ∉ ibssWords

theorem infra_of_rest (h : s.state ∈ restWords) : s.Infra := by
  simp only [restWords, List.mem_cons, List.not_mem_nil, or_false] at h
  rcases h with h | h | h <;> rw [Mlme.Infra, h] <;> decide

theorem not_infra (hs : s.state = 0x1 ∨ s.state = 0x4001) : ¬s.Infra := by
  rintro ⟨hone, hibss⟩
  rcases hs with hs | hs
  · exact hone hs
  · exact hibss (by simp [hs, ibssWords])

theorem Effect.infra (h : Effect env s e s') (hi : s.Infra) (hno : NoIbss e) : s'.Infra := by
  cases h with
  | drop hrest => exact infra_of_rest hrest
  | adhoc _ hj => exact absurd hno hj
  | peer hs => exact absurd hi (not_infra hs)
  | same hsame | spent hsame | lost hsame =>
    rw [Mlme.Infra, hsame.state]
    exact hi
  | join hs' | heard _ hs' | accepted _ hs' | linked _ hs' | reauth _ hs' | reassoc _ hs' =>
    rw [Mlme.Infra, hs']
    decide

theorem Effect.moves (h : Effect env s e s') (hi : s.Infra) (hno : NoIbss e) :
    s'.stage = 0 ∨ s'.stage = s.stage ∨ s'.stage = 1 ∧ Milestone env 0 s e ∨
      s'.stage = s.stage + 1 ∧ Milestone env s.stage s e := by
  cases h with
  | drop hrest => exact .inl (stage_of_idle (idle_of_rest hrest))
  | adhoc _ hj => exact absurd hno hj
  | peer hs => exact absurd hi (not_infra hs)
  | same hsame | spent hsame | lost hsame => exact .inr (.inl (stage_congr hsame.state))
  | join hs' hm => exact .inr (.inr (.inl ⟨stage_of_authNull hs', hm⟩))
  | heard hs hs' _ _ hm =>
    rw [stage_of_authNull hs]
    exact .inr (.inr (.inr ⟨stage_of_authState hs', hm⟩))
  | accepted hs hs' _ hm =>
    rw [stage_of_authState hs]
    exact .inr (.inr (.inr ⟨stage_of_assocState hs', hm⟩))
  | linked hs hs' hm =>
    rw [stage_of_assocState hs]
    exact .inr (.inr (.inr ⟨stage_of_linked hs', hm⟩))
  | reauth hs hs' | reassoc hs hs' => exact .inr (.inl (stage_congr (hs'.trans hs.symm)))

/-- How often the link timer can still run out before the station gets to an end. -/
def Mlme.budget (s : Mlme) : ℕ :=
  if s.state = 0x102 then 10
  else if s.state = 0x202 then (5 - s.reauthCount) + (5 - s.reassocCount)
  else if s.state = 0x2402 then 5 - s.reassocCount
  else 0

/-- The words of `state` and the counts of a station that does not use SAE. -/
structure Sound (s : Mlme) : Prop where
  known : s.state ∈ knownWords
  reauth : s.state = 0x202 → s.reauthCount ≤ reauthLimit
  reassoc : s.state = 0x202 ∨ s.state = 0x2402 → s.reassocCount ≤ reassocLimit

theorem ne_of_quiet {w : FwState} (h : w ∈ quietWords) :
    w ≠ 0x102 ∧ w ≠ 0x202 ∧ w ≠ 0x2402 := by
  simp only [quietWords, idleWords, ibssWords, List.cons_append, List.nil_append, List.mem_cons,
    List.not_mem_nil, or_false] at h
  rcases h with rfl | rfl | rfl | rfl | rfl | rfl <;> decide

theorem quiet_of_adhoc {w : FwState} (h : w = 0x1 ∨ w = 0x4001) : w ∈ quietWords := by
  rcases h with rfl | rfl <;> decide

theorem quiet_of_idle {w : FwState} (h : w ∈ idleWords) : w ∈ quietWords :=
  List.mem_append_left _ h

theorem sound_of_quiet (hk : s.state ∈ knownWords) (h : s.state ∈ quietWords) : Sound s := by
  obtain ⟨-, hauth, hassoc⟩ := ne_of_quiet h
  exact ⟨hk, fun hw => absurd hw hauth, fun hw => absurd hw (not_or.mpr ⟨hauth, hassoc⟩)⟩

theorem Effect.sound (h : Effect env s e s') (hs : Sound s) : Sound s' := by
  have hk := h.known hs.known
  cases h with
  | drop hrest => exact sound_of_quiet hk (quiet_of_idle (idle_of_rest hrest))
  | adhoc hs' => exact sound_of_quiet hk (quiet_of_adhoc hs')
  | peer _ hs' => exact sound_of_quiet hk (List.mem_append_right _ hs')
  | same hsame | spent hsame | lost hsame =>
    refine ⟨hk, fun hw => ?_, fun hw => ?_⟩
    · exact hsame.reauthCount ▸ hs.reauth (hsame.state ▸ hw)
    · exact hsame.reassocCount ▸ hs.reassoc (hsame.state ▸ hw)
  | join hs' | linked _ hs' =>
    exact ⟨hk, fun hw => by simp [hs'] at hw, fun hw => by simp [hs'] at hw⟩
  | heard _ _ hauth hassoc => exact ⟨hk, fun _ => by simp [hauth], fun _ => by simp [hassoc]⟩
  | accepted hw' hs' hassoc =>
    exact ⟨hk, fun hw => by simp [hs'] at hw, fun _ => hassoc ▸ hs.reassoc (.inl hw')⟩
  | reauth hw' _ _ hlim hassoc => exact ⟨hk, fun _ => hlim, fun _ => hassoc ▸ hs.reassoc (.inl hw')⟩
  | reassoc _ hs' _ hlim => exact ⟨hk, fun hw => by simp [hs'] at hw, fun _ => hlim⟩

theorem budget_congr (h : Same s s') : s'.budget = s.budget := by
  simp only [Mlme.budget, h.state, h.reauthCount, h.reassocCount]

theorem budget_of_quiet (h : s.state ∈ quietWords) : s.budget = 0 := by
  obtain ⟨hnull, hauth, hassoc⟩ := ne_of_quiet h
  rw [Mlme.budget, if_neg hnull, if_neg hauth, if_neg hassoc]

theorem not_linking_of_quiet (h : s.state ∈ quietWords) : ¬s.Linking := by
  simpa [Mlme.Linking, linkWords] using ne_of_quiet h

theorem budget_pos (hs : Sound s) (hl : s.Linking) : 1 ≤ s.budget := by
  simp only [Mlme.Linking, linkWords, List.mem_cons, List.not_mem_nil, or_false] at hl
  have hauth := hs.reauth
  have hassoc := hs.reassoc
  simp only [reauthLimit, reassocLimit] at hauth hassoc
  rcases hl with h | h | h <;> simp [Mlme.budget, h] at * <;> omega

theorem expires_of_milestone {n : ℕ} (h : Milestone env n s e) : expires s e = false := by
  cases e with
  | linkTimer => rcases n with _ | _ | _ | _ | n <;> exact h.elim
  | _ => rfl

/-- What a step takes from the budget: each time the timer runs out costs one, and only a join
command fills it. -/
theorem Effect.budget (h : Effect env s e s') (hs : Sound s) :
    (if expires s e then 1 else 0) + s'.budget ≤ s.budget + (if isJoin e then 10 else 0) := by
  have hcost : (if expires s e then 1 else 0) ≤ s.budget := by
    split
    · rename_i hexp
      cases e with
      | linkTimer r =>
        simp only [expires, Bool.and_eq_true, decide_eq_true_eq] at hexp
        exact budget_pos hs hexp.2
      | _ => exact absurd hexp (by simp [expires])
    · exact Nat.zero_le _
  have hauth := hs.reauth
  have hassoc := hs.reassoc
  simp only [reauthLimit, reassocLimit] at hauth hassoc
  cases h with
  | drop hrest =>
    rw [budget_of_quiet (quiet_of_idle (idle_of_rest hrest))]
    omega
  | adhoc hs' =>
    rw [budget_of_quiet (quiet_of_adhoc hs')]
    omega
  | peer _ hs' =>
    rw [budget_of_quiet (List.mem_append_right _ hs')]
    omega
  | same hsame he =>
    rw [budget_congr hsame, he]
    simp
  | spent hsame hl =>
    have he : expires s e = false := by cases e <;> simp [expires, hl]
    rw [budget_congr hsame, he]
    simp
  | lost hsame ha =>
    have he : expires s e = false := by cases e <;> simp [expires, Aborts] at *
    rw [budget_congr hsame, he]
    simp
  | join hs' hm hj =>
    rw [expires_of_milestone hm, hj]
    simp [Mlme.budget, hs']
  | heard hs1 hs' h1 h2 hm =>
    rw [expires_of_milestone hm]
    simp [Mlme.budget, hs1, hs', h1, h2]
  | accepted hs1 hs' h1 hm =>
    rw [expires_of_milestone hm]
    simp only [Mlme.budget, hs1, hs', h1]
    simp
    omega
  | linked hs1 hs' hm =>
    rw [expires_of_milestone hm]
    simp [Mlme.budget, hs1, hs']
  | reauth hs1 hs' h1 hlim h2 =>
    have hle : (if expires s e then 1 else 0) ≤ 1 := by split <;> omega
    simp only [Mlme.budget, hs1, hs', h1, h2, reauthLimit] at hlim ⊢
    simp
    omega
  | reassoc hs1 hs' h1 hlim =>
    have hle : (if expires s e then 1 else 0) ≤ 1 := by split <;> omega
    simp only [Mlme.budget, hs1, hs', h1, reassocLimit] at hlim ⊢
    simp
    omega

/-- A command that cancels the link timer and goes no further finds the station not on its way. -/
def Orderly (s : Mlme) (e : Event) : Prop := Aborts e → ¬s.Linking

theorem Effect.armed (h : Effect env s e s') (ho : Orderly s e)
    (harm : s.Linking → s.linkTimer.isSome) : s'.Linking → s'.linkTimer.isSome := by
  intro hl
  cases h with
  | drop hrest => exact absurd hl (not_linking_of_quiet (quiet_of_idle (idle_of_rest hrest)))
  | adhoc hs' => exact absurd hl (not_linking_of_quiet (quiet_of_adhoc hs'))
  | peer _ hs' => exact absurd hl (not_linking_of_quiet (List.mem_append_right _ hs'))
  | same hsame _ hkeep =>
    rw [Mlme.Linking, hsame.state] at hl
    exact hkeep (harm hl)
  | spent hsame hnot =>
    rw [Mlme.Linking, hsame.state] at hl
    exact absurd hl hnot
  | lost hsame ha =>
    rw [Mlme.Linking, hsame.state] at hl
    exact absurd hl (ho ha)
  | join _ _ _ harm' | heard _ _ _ _ _ harm' | accepted _ _ _ _ harm' | reauth _ _ _ _ _ harm'
  | reassoc _ _ _ _ harm' => exact harm'
  | linked _ hs' => simp [Mlme.Linking, hs', linkWords] at hl

theorem sound_of_idle (h : s.state ∈ idleWords) : Sound s :=
  sound_of_quiet (known_of_idle h) (quiet_of_idle h)

theorem step_sound (hsae : env.sae = false) (hs : Sound s) (e : Event) : Sound (step env s e) :=
  (step_effect hs.known hsae).sound hs

variable {es : List Event}

/-- An associated station that was never told to join or create an IBSS has joined a usable network, then
heard its beacon, then had its authentication and then its association accepted, and each of these
stages lasted until the next one began. -/
theorem associated_climb (hsae : env.sae = false) (h0 : s.state ∈ restWords)
    (hno : Along (step env) (fun _ e => NoIbss e) s es)
    (h : (run (step env) s es).state.has wifiFwAssocSuccess) :
    Climb (step env) Mlme.stage (Milestone env) s 4 es := by
  have hidle := idle_of_rest h0
  have hclimb : Climb (step env) Mlme.stage (Milestone env) s (run (step env) s es).stage es :=
    climb_run (I := fun t => Sound t ∧ t.Infra) (P := fun _ e => NoIbss e)
      (fun t e ht hj => ⟨step_sound hsae ht.1 e, (step_effect ht.1.known hsae).infra ht.2 hj⟩)
      (fun t e ht hj => (step_effect ht.1.known hsae).moves ht.2 hj)
      ⟨sound_of_idle hidle, infra_of_rest h0⟩ (stage_of_idle hidle) hno
  rwa [Mlme.stage, if_pos h] at hclimb

/-- The link timer of a station on its way runs out ten times at most for each join command, and
it is always running. -/
theorem joining_ends (hsae : env.sae = false) (h0 : s.state ∈ idleWords)
    (ho : Along (step env) Orderly s es) :
    weigh (step env) (fun t e => if expires t e then 1 else 0) s es ≤ 10 * es.countP isJoin ∧
      ((run (step env) s es).Linking → (run (step env) s es).linkTimer.isSome) := by
  constructor
  · have hle := weigh_add_le (I := Sound) (b := Mlme.budget)
      (c := fun t e => if expires t e then 1 else 0) (g := fun _ e => if isJoin e then 10 else 0)
      (fun t e ht _ => step_sound hsae ht e)
      (fun t e ht _ => (step_effect ht.known hsae).budget ht) (sound_of_idle h0) ho
    rw [weigh_countP, budget_of_quiet (quiet_of_idle h0)] at hle
    omega
  · refine (run_invariant (I := fun t => Sound t ∧ (t.Linking → t.linkTimer.isSome)) ?_ ?_ ho).2
    · intro t e ht hot
      exact ⟨step_sound hsae ht.1 e, (step_effect ht.1.known hsae).armed hot ht.2⟩
    · exact ⟨sound_of_idle h0, fun hl => absurd hl (not_linking_of_quiet (quiet_of_idle h0))⟩

/-- The address of the network of the examples. -/
def apAddr : Mac := Mac.broadcast

def openEnv : Env := ⟨Mac.broadcast, false, true⟩

def unlinked : Mlme where
  state := wifiFwNullState
  bssid := apAddr
  authAlgo := dot11AuthAlgrthmOpen
  authSeq := 0
  reauthCount := 0
  reassocCount := 0
  authStatus := 0
  chgTxt := List.replicate 128 0
  aid := 0
  joinAbort := false
  extauthSuccess := false
  linkTimer := none
  sent := []
  joinRes := []
  delSta := []
  addSta := 0

/-- An access point with open authentication, whose first answer is lost. -/
def openJoin : List Event :=
  [.join ⟨apAddr, 100, true, true, false, 100⟩ .queued,
    .beacon ⟨apAddr, false, true, true, true, true, false, true, false⟩ .queued,
    .linkTimer .queued,
    .auth ⟨Mac.broadcast, false, 2, 0, none⟩,
    .assocRsp ⟨Mac.broadcast, 0, 0xc001⟩ .queued]

theorem associated_climb_openJoin :
    Climb (step openEnv) Mlme.stage (Milestone openEnv) unlinked 4 openJoin :=
  associated_climb rfl (by decide) (by simp [openJoin, Along, NoIbss]) (by decide)

/-- A peer of an IBSS associates the station without any of the stages, and it stays associated
when it is set to infrastructure mode. -/
example : (run (step openEnv) unlinked
    [.join ⟨apAddr, 100, true, false, true, 100⟩ .queued,
      .beacon ⟨apAddr, false, true, false, true, true, false, true, false⟩ .queued,
      .addSta true, .setopmode .infrastructure]).state = 0x4002 := by decide

theorem joining_ends_openJoin :
    weigh (step openEnv) (fun t e => if expires t e then 1 else 0) unlinked openJoin ≤ 10 * 1 ∧
      ((run (step openEnv) unlinked openJoin).Linking →
        (run (step openEnv) unlinked openJoin).linkTimer.isSome) :=
  joining_ends rfl (by decide) (by simp [openJoin, Along, Orderly, Aborts])

end Rtl8821cu.ClntJoin
