import Rtl8821cu.LibWalk
import Rtl8821cu.RmTable

/-! The whole loop of `rm_handler` (`core/rtw_rm_fsm.c`): which measurements an event reaches, and
when the loop leaves before its queue is empty. -/
namespace Rtl8821cu.Rm
open Walk

/-- An event taken from the queue, and the measurements that were run with it, in order. -/
structure Delivery where
  ev : RmEvent
  targets : List ℕ

/-- The loop of `rm_bcast_aid_handler`, with the measurements that it runs. -/
def bcastRun (env : Env) (e : RmEvent) : List ℕ → RmPriv → RmPriv × List ℕ
  | [], s => (s, [])
  | id :: ids, s =>
    match s.heap id with
    | none => bcastRun env e ids { s with fault := true }
    | some o =>
      if rmGetAid e.rmid == rmGetAid o.rmid then
        let r := bcastRun env e ids (runObj env s id e.evid)
        (r.1, id :: r.2)
      else bcastRun env e ids s

/-- The loop of `rm_handler` for as many turns as are allowed, with what the rest of the driver
answers in each turn: the state that it leaves behind, and where the events went. -/
def rmHandlerLoop (env : ℕ → Env) : ℕ → ℕ → RmPriv → Option (RmPriv × List Delivery)
  | 0, _, _ => none
  | turns + 1, k, s =>
    match s.evQueue with
    | [] => some (s, [])
    | e :: es =>
      let s := { s with evQueue := es }
      if rmIsIdForAll e.rmid then
        let r := bcastRun (env k) e s.rmQueue s
        (rmHandlerLoop env turns (k + 1) r.1).map fun t => (t.1, ⟨e, r.2⟩ :: t.2)
      else
        match rmGetRmobj s e.rmid with
        | none => some (s, [⟨e, []⟩])
        | some id =>
          (rmHandlerLoop env turns (k + 1) (runObj (env k) s id e.evid)).map fun t =>
            (t.1, ⟨e, [id]⟩ :: t.2)

/-- The measurements that an event is for. -/
def targets (s : RmPriv) (e : RmEvent) : List ℕ :=
  if rmIsIdForAll e.rmid then
    s.rmQueue.filter fun id => (s.heap id).any fun o => rmGetAid e.rmid == rmGetAid o.rmid
  else (rmGetRmobj s e.rmid).toList

/-- Each event goes in turn to the measurements that it is for, until no event is left. -/
inductive Drains (env : ℕ → Env) : ℕ → RmPriv → List Delivery → RmPriv → Prop
  | done {k : ℕ} {s : RmPriv} (h : s.evQueue = []) : Drains env k s [] s
  | turn {k : ℕ} {s t : RmPriv} {e : RmEvent} {es : List RmEvent} {ds : List Delivery}
      (h : s.evQueue = e :: es)
      (rest : Drains env (k + 1) (dispatch (env k) { s with evQueue := es } e) ds t) :
      Drains env k s (⟨e, targets { s with evQueue := es } e⟩ :: ds) t

/-- The queue holds live measurements, each once. -/
structure Listed (s : RmPriv) : Prop where
  nodup : s.rmQueue.Nodup
  live : ∀ id ∈ s.rmQueue, ∃ o, s.heap id = some o ∧ o.linked = true

section Posts

/-- How many further events an event can lead to, one after the other. -/
def rank : RmEvId → ℕ
  | .stateOut => 0
  | .startMeas => 1
  | .surveyDone => 1
  | _ => 2

/-- At most one event is posted, and of a lower rank. -/
def PostsBelow (r : ℕ) (l l' : Local) : Prop :=
  l'.posted = l.posted ∨ ∃ e, l'.posted = l.posted ++ [e] ∧ rank e < r

variable {r r' : ℕ} {l l' l₀ : Local} {env : Env}

theorem PostsBelow.mono (h : PostsBelow r l l') (hle : r ≤ r') : PostsBelow r' l l' := by
  rcases h with h | ⟨e, he, hr⟩
  · exact .inl h
  · exact .inr ⟨e, he, hr.trans_le hle⟩

theorem PostsBelow.congr (h : PostsBelow r l l') (h₀ : l.posted = l₀.posted) :
    PostsBelow r l₀ l' := by
  rwa [PostsBelow, ← h₀]

theorem postsBelow_rmPostEvent (l : Local) (evid : RmEvId) :
    PostsBelow (rank evid + 1) l (rmPostEvent env l evid) := by
  unfold rmPostEvent
  split_ifs
  · exact .inl rfl
  · exact .inl rfl
  · exact .inr ⟨evid, rfl, Nat.lt_succ_self _⟩

theorem postsBelow_rmStateGoto {f : Local → Local} (hf : ∀ l, PostsBelow r l (f l)) (l : Local)
    (st : RmState) : PostsBelow r l (rmStateGoto f l st) := by
  unfold rmStateGoto
  split_ifs
  · exact .inl rfl
  · refine (hf _).congr ?_
    unfold setState rmStateOut
    split <;> rfl

theorem postsBelow_gotoEnd (l : Local) : PostsBelow 1 l (gotoEnd env l) :=
  postsBelow_rmStateGoto (fun l => postsBelow_rmPostEvent l .stateOut) l _

theorem postsBelow_gotoWaitMeas (l : Local) : PostsBelow 0 l (gotoWaitMeas l) :=
  @postsBelow_rmStateGoto 0 waitMeasIn (fun _ => .inl rfl) l _

theorem postsBelow_recvReportIn (l : Local) : PostsBelow 1 l (recvReportIn env l) := by
  unfold recvReportIn
  split_ifs
  · exact postsBelow_gotoEnd l
  · exact ((postsBelow_gotoWaitMeas _).congr rfl).mono (Nat.zero_le 1)
  · exact postsBelow_gotoEnd l
  · exact postsBelow_gotoEnd l

theorem postsBelow_sendReportIn (l : Local) : PostsBelow 1 l (sendReportIn env l) := by
  unfold sendReportIn
  split_ifs
  · exact .inl rfl
  · exact .inl rfl
  · exact postsBelow_gotoEnd l
  · exact postsBelow_gotoEnd l
  · exact postsBelow_gotoEnd l

theorem postsBelow_gotoSendReport (l : Local) : PostsBelow 1 l (gotoSendReport env l) :=
  postsBelow_rmStateGoto postsBelow_sendReportIn l _

theorem postsBelow_doMeasIn (l : Local) : PostsBelow 2 l (doMeasIn env l) := by
  unfold doMeasIn doMeasScan
  split_ifs
  · exact postsBelow_rmPostEvent l .surveyDone
  · exact .inl rfl
  · exact postsBelow_rmPostEvent l .startMeas
  · exact postsBelow_rmPostEvent l .surveyDone
  · exact .inl rfl
  · exact (postsBelow_gotoEnd l).mono one_le_two
  · exact (postsBelow_gotoSendReport l).mono one_le_two
  · exact postsBelow_rmPostEvent l .startMeas

theorem postsBelow_gotoDoMeas (l : Local) : PostsBelow 2 l (gotoDoMeas env l) :=
  postsBelow_rmStateGoto postsBelow_doMeasIn l _

theorem postsBelow_idleIn (l : Local) : PostsBelow 2 l (idleIn env l) := by
  unfold idleIn
  dsimp only
  split_ifs
  · exact ((postsBelow_gotoWaitMeas _).congr rfl).mono (Nat.zero_le 2)
  · exact ((postsBelow_gotoEnd _).congr rfl).mono one_le_two
  · exact (postsBelow_gotoDoMeas _).congr rfl

theorem postsBelow_startMeas (l : Local) : PostsBelow 1 l (startMeas env l) := by
  unfold startMeas
  split_ifs
  · exact .inl rfl
  · exact postsBelow_gotoEnd l
  · exact .inl rfl

theorem postsBelow_surveyDone (l : Local) : PostsBelow 1 l (surveyDone env l) := by
  unfold surveyDone
  split_ifs
  · exact (postsBelow_gotoSendReport _).congr rfl
  · exact postsBelow_gotoSendReport l
  · exact .inl rfl
  · exact postsBelow_gotoEnd l
  · exact .inl rfl

theorem waitBusyDec_posted (l : Local) : (waitBusyDec env l).posted = l.posted := by
  unfold waitBusyDec
  split_ifs <;> rfl

theorem postsBelow_busyTimerExpire (l : Local) : PostsBelow 2 l (busyTimerExpire env l) := by
  have hposted := @waitBusyDec_posted env l
  unfold busyTimerExpire
  split_ifs
  · exact .inl hposted
  · exact (PostsBelow.congr (postsBelow_gotoEnd (rmSetRepMode _ _)) hposted).mono one_le_two
  · exact (postsBelow_rmPostEvent _ .startMeas).congr hposted

/-- Running a measurement posts at most one event, of a lower rank than the one it is run with. -/
theorem postsBelow_rmStateRun (l : Local) (evid : RmEvId) :
    PostsBelow (rank evid) l (rmStateRun env l evid) := by
  have hend : ∀ l₁ : Local, l₁.posted = l.posted → PostsBelow 2 l (gotoEnd env l₁) := fun l₁ h =>
    ((postsBelow_gotoEnd l₁).congr h).mono one_le_two
  unfold rmStateRun
  split
  · unfold rmStateIdle
    cases evid
    case stateIn => exact (postsBelow_idleIn _).congr rfl
    case delayTimerExpire => exact (postsBelow_gotoDoMeas _).congr rfl
    case cancel => exact hend _ rfl
    all_goals exact .inl rfl
  · unfold rmStateDoMeas
    cases evid
    case stateIn => exact postsBelow_doMeasIn l
    case startMeas => exact postsBelow_startMeas l
    case surveyDone => exact postsBelow_surveyDone l
    case measTimerExpire => exact hend _ rfl
    case busyTimerExpire => exact postsBelow_busyTimerExpire l
    case requestTimerExpire => exact hend _ rfl
    case retryTimerExpire => exact postsBelow_rmPostEvent l .startMeas
    case cancel => exact hend _ rfl
    all_goals exact .inl rfl
  · unfold rmStateWaitMeas
    cases evid
    case recvRep =>
      exact (postsBelow_rmStateGoto postsBelow_recvReportIn l _).mono one_le_two
    case requestTimerExpire => exact hend _ rfl
    case cancel => exact hend _ rfl
    all_goals exact .inl rfl
  · unfold rmStateSendReport
    cases evid
    case stateIn => exact (postsBelow_sendReportIn l).mono one_le_two
    case repeatDelayExpire => exact postsBelow_gotoDoMeas l
    case cancel => exact hend _ rfl
    all_goals exact .inl rfl
  · unfold rmStateRecvReport
    cases evid
    case stateIn => exact (postsBelow_recvReportIn l).mono one_le_two
    case cancel => exact hend _ rfl
    all_goals exact .inl rfl
  · unfold rmStateEnd
    cases evid
    case stateIn => exact (postsBelow_rmPostEvent l .stateOut).mono one_le_two
    all_goals exact .inl rfl

end Posts

section Turns

variable {env : Env} {s s' s'' : RmPriv} {id r k k' : ℕ} {o : RmObj}

/-- Measurements were run: at most `k` events of a lower rank were posted behind the others, and no
measurement was added. -/
structure RunsBelow (r k : ℕ) (s s' : RmPriv) : Prop where
  posted : ∃ es, s'.evQueue = s.evQueue ++ es ∧ es.length ≤ k ∧ ∀ e ∈ es, rank e.evid < r
  rmQueue : s'.rmQueue.Sublist s.rmQueue

theorem RunsBelow.refl (r k : ℕ) (s : RmPriv) : RunsBelow r k s s :=
  ⟨⟨[], by simp⟩, List.Sublist.refl _⟩

theorem RunsBelow.trans (h : RunsBelow r k s s') (h' : RunsBelow r k' s' s'') :
    RunsBelow r (k + k') s s'' := by
  obtain ⟨es, hes, hlen, hrank⟩ := h.posted
  obtain ⟨es', hes', hlen', hrank'⟩ := h'.posted
  refine ⟨⟨es ++ es', ?_, ?_, ?_⟩, h'.rmQueue.trans h.rmQueue⟩
  · rw [hes', hes, List.append_assoc]
  · rw [List.length_append]
    exact Nat.add_le_add hlen hlen'
  · intro e he
    rcases List.mem_append.mp he with he | he
    · exact hrank e he
    · exact hrank' e he

theorem RunsBelow.mono (h : RunsBelow r k s s') (hk : k ≤ k') : RunsBelow r k' s s' := by
  obtain ⟨es, hes, hlen, hrank⟩ := h.posted
  exact ⟨⟨es, hes, hlen.trans hk, hrank⟩, h.rmQueue⟩

theorem runObj_heap (ho : s.heap id = some o) (evid : RmEvId) {j : ℕ} (hj : j ≠ id) :
    (runObj env s id evid).heap j = s.heap j := by
  rw [runObj_live env ho]
  split_ifs
  · rw [@rmFreeRmobj_live _ _ _ (by simp [storeLocal]; rfl)]
    simp [storeLocal, hj]
  · simp [storeLocal, hj]

theorem runObj_runsBelow (ho : s.heap id = some o) (evid : RmEvId) :
    RunsBelow (rank evid) 1 s (runObj env s id evid) := by
  have hposts := @postsBelow_rmStateRun env (localOf o (s.clock o.pclock)) evid
  generalize hl : rmStateRun env (localOf o (s.clock o.pclock)) evid = l at hposts
  have hev : ∃ es, (storeLocal s id o l).evQueue = s.evQueue ++ es ∧ es.length ≤ 1 ∧
      ∀ e ∈ es, rank e.evid < rank evid := by
    rcases hposts with h | ⟨e, he, hr⟩
    · exact ⟨[], by simp [storeLocal, h, localOf]⟩
    · exact ⟨[⟨o.rmid, e⟩], by simp [storeLocal, he, localOf, hr]⟩
  rw [runObj_live env ho, hl]
  split_ifs
  · rw [@rmFreeRmobj_live _ _ _ (by simp [storeLocal]; rfl)]
    refine ⟨hev, ?_⟩
    dsimp only [storeLocal]
    split_ifs
    · exact List.erase_sublist
    · exact List.Sublist.refl _
  · exact ⟨hev, List.Sublist.refl _⟩

/-- A measurement that is freed leaves the queue. -/
theorem Listed.runObj (hs : Listed s) (ho : s.heap id = some o) (hlinked : o.linked = true)
    (evid : RmEvId) : Listed (runObj env s id evid) := by
  have hkeeps := keeps_rmStateRun env (localOf o (s.clock o.pclock)) evid
  refine ⟨(runObj_runsBelow ho evid).rmQueue.nodup hs.nodup, fun j hj => ?_⟩
  by_cases hne : j = id
  · subst hne
    rw [runObj_live env ho] at hj ⊢
    generalize rmStateRun env (localOf o (s.clock o.pclock)) evid = l at hj hkeeps ⊢
    have hl : l.obj.linked = true := hkeeps.linked.trans hlinked
    split_ifs at hj ⊢
    · rw [@rmFreeRmobj_live _ _ l.obj (by simp [storeLocal])] at hj
      simp only [hl, if_true] at hj
      exact absurd hj hs.nodup.not_mem_erase
    · exact ⟨l.obj, by simp [storeLocal], hl⟩
  · rw [runObj_heap ho evid hne]
    exact hs.live j ((mem_rmQueue_runObj env ho evid hne).mp hj)

theorem bcastOne_eq (ho : s.heap id = some o) (e : RmEvent) :
    bcastOne env e s id =
      if rmGetAid e.rmid == rmGetAid o.rmid then runObj env s id e.evid else s := by
  rw [bcastOne, ho]

/-- The walk over the queue runs each measurement of the station once. -/
theorem bcastRun_eq (e : RmEvent) {ids : List ℕ} (hnd : ids.Nodup)
    (hlive : ∀ id ∈ ids, ∃ o, s.heap id = some o ∧ o.linked = true) :
    bcastRun env e ids s = (ids.foldl (bcastOne env e) s,
      ids.filter fun id => (s.heap id).any fun o => rmGetAid e.rmid == rmGetAid o.rmid) := by
  induction ids generalizing s with
  | nil => rfl
  | cons id ids ih =>
    obtain ⟨hid, hnd⟩ := List.nodup_cons.mp hnd
    obtain ⟨o, ho, -⟩ := hlive id (by simp)
    have hrest : ∀ j ∈ ids, ∃ o, s.heap j = some o ∧ o.linked = true := fun j hj =>
      hlive j (by simp [hj])
    rw [bcastRun, ho, List.foldl_cons, bcastOne_eq ho, List.filter_cons, ho]
    dsimp only [Option.any_some]
    split_ifs
    · have hkeep : ∀ j ∈ ids, (runObj env s id e.evid).heap j = s.heap j := fun j hj =>
        runObj_heap ho e.evid fun h => hid (h ▸ hj)
      rw [ih hnd fun j hj => by rw [hkeep j hj]; exact hrest j hj]
      congr 2
      exact List.filter_congr fun j hj => by rw [hkeep j hj]
    · exact ih hnd hrest

theorem foldl_bcastOne (hs : Listed s) (e : RmEvent) {ids : List ℕ} (hnd : ids.Nodup)
    (hmem : ∀ id ∈ ids, id ∈ s.rmQueue) :
    RunsBelow (rank e.evid) ids.length s (ids.foldl (bcastOne env e) s) ∧
      Listed (ids.foldl (bcastOne env e) s) := by
  induction ids generalizing s with
  | nil => exact ⟨.refl _ _ s, hs⟩
  | cons id ids ih =>
    obtain ⟨hid, hnd⟩ := List.nodup_cons.mp hnd
    obtain ⟨o, ho, hl⟩ := hs.live id (hmem id (by simp))
    have hrest : ∀ j ∈ ids, j ∈ s.rmQueue := fun j hj => hmem j (by simp [hj])
    rw [List.foldl_cons, bcastOne_eq ho, List.length_cons, Nat.add_comm]
    split_ifs
    · obtain ⟨hruns, hlisted⟩ := ih (hs.runObj ho hl e.evid) hnd fun j hj => by
        rw [mem_rmQueue_runObj env ho e.evid fun h => hid (h ▸ hj)]
        exact hrest j hj
      exact ⟨(runObj_runsBelow ho e.evid).trans hruns, hlisted⟩
    · obtain ⟨hruns, hlisted⟩ := ih hs hnd hrest
      exact ⟨hruns.mono (Nat.le_add_left _ _), hlisted⟩

/-- A turn posts at most one event for each measurement, all of a lower rank. -/
theorem dispatch_runsBelow (hs : Listed s) (e : RmEvent) :
    RunsBelow (rank e.evid) s.rmQueue.length s (dispatch env s e) ∧
      Listed (dispatch env s e) := by
  unfold dispatch
  split_ifs
  · exact foldl_bcastOne hs e hs.nodup fun _ h => h
  · split
    · exact ⟨.refl _ _ s, hs⟩
    · next id hget =>
      obtain ⟨hmem, -⟩ := rmGetRmobj_some hget
      obtain ⟨o, ho, hl⟩ := hs.live id hmem
      exact ⟨(runObj_runsBelow ho e.evid).mono (List.length_pos_of_mem hmem),
        hs.runObj ho hl e.evid⟩

/-- What is left to do where there are at most `n` measurements. -/
def weight (n : ℕ) (evs : List RmEvent) : ℕ := (evs.map fun e => (n + 2) ^ rank e.evid).sum

theorem weight_le {n : ℕ} {evs : List RmEvent} (h : ∀ e ∈ evs, rank e.evid ≤ r) :
    weight n evs ≤ evs.length * (n + 2) ^ r := by
  have := List.sum_le_card_nsmul (evs.map fun e => (n + 2) ^ rank e.evid) ((n + 2) ^ r) (by
    intro x hx
    obtain ⟨e, he, rfl⟩ := List.mem_map.mp hx
    exact Nat.pow_le_pow_right (by omega) (h e he))
  simpa [weight] using this

theorem weight_posted {n : ℕ} {evs : List RmEvent} (hlen : evs.length ≤ n)
    (h : ∀ e ∈ evs, rank e.evid < r) : weight n evs < (n + 2) ^ r := by
  cases r with
  | zero =>
    cases evs with
    | nil => simp [weight]
    | cons e evs => exact absurd (h e (by simp)) (Nat.not_lt_zero _)
  | succ r =>
    calc weight n evs ≤ evs.length * (n + 2) ^ r := weight_le fun e he => Nat.le_of_lt_succ (h e he)
      _ < (n + 2) * (n + 2) ^ r := Nat.mul_lt_mul_of_pos_right (by omega) (by positivity)
      _ = (n + 2) ^ (r + 1) := (Nat.pow_succ').symm

end Turns

section Loop

variable {env : ℕ → Env} {s t : RmPriv} {e : RmEvent} {es : List RmEvent} {ds : List Delivery}
  {k n turns : ℕ}

/-- The state before the next turn, where an event without a measurement is only dropped. -/
def nextTurn (env : ℕ → Env) (p : ℕ × RmPriv) : Option (ℕ × RmPriv) :=
  match p.2.evQueue with
  | [] => none
  | e :: es => some (p.1 + 1, dispatch (env p.1) { p.2 with evQueue := es } e)

/-- No measurement has the id of the event. -/
def Dead (s : RmPriv) (e : RmEvent) : Prop :=
  rmIsIdForAll e.rmid = false ∧ rmGetRmobj s e.rmid = none

instance (s : RmPriv) (e : RmEvent) : Decidable (Dead s e) := inferInstanceAs (Decidable (_ ∧ _))

/-- An event without a live measurement is at the head of the queue, with others behind it. -/
def Lost (s : RmPriv) : Prop := ∃ e es, s.evQueue = e :: es ∧ es ≠ [] ∧ Dead s e

/-- The events of the queue and those that they lead to were all delivered, first in first out. -/
structure Delivered (env : ℕ → Env) (k : ℕ) (s t : RmPriv) (ds : List Delivery) : Prop where
  empty : t.evQueue = []
  order : s.evQueue <+: ds.map Delivery.ev
  drains : Drains env k s ds t

theorem lost_iff (h : s.evQueue = e :: es) : Lost s ↔ es ≠ [] ∧ Dead s e := by
  constructor
  · rintro ⟨e', es', h', hne, hdead⟩
    obtain ⟨rfl, rfl⟩ := List.cons.inj (h.symm.trans h')
    exact ⟨hne, hdead⟩
  · rintro ⟨hne, hdead⟩
    exact ⟨e, es, h, hne, hdead⟩

theorem rmHandlerLoop_nil (h : s.evQueue = []) (turns k : ℕ) :
    rmHandlerLoop env (turns + 1) k s = some (s, []) := by
  rw [rmHandlerLoop, h]

theorem rmHandlerLoop_dead (h : s.evQueue = e :: es) (hdead : Dead s e) (turns k : ℕ) :
    rmHandlerLoop env (turns + 1) k s = some ({ s with evQueue := es }, [⟨e, []⟩]) := by
  have hget : rmGetRmobj { s with evQueue := es } e.rmid = none := hdead.2
  rw [rmHandlerLoop, h]
  dsimp only
  rw [if_neg (by simp [hdead.1]), hget]

theorem rmHandlerLoop_turn (hs : Listed s) (h : s.evQueue = e :: es) (hlive : ¬Dead s e)
    (turns k : ℕ) :
    rmHandlerLoop env (turns + 1) k s =
      (rmHandlerLoop env turns (k + 1) (dispatch (env k) { s with evQueue := es } e)).map fun t =>
        (t.1, ⟨e, targets { s with evQueue := es } e⟩ :: t.2) := by
  rw [rmHandlerLoop, h]
  dsimp only
  unfold dispatch targets
  split_ifs with hall
  · rw [@bcastRun_eq (env k) { s with evQueue := es } e _ hs.nodup hs.live]
    rfl
  · have hget : rmGetRmobj { s with evQueue := es } e.rmid ≠ none := fun hget =>
      hlive ⟨by simpa using hall, hget⟩
    cases hid : rmGetRmobj { s with evQueue := es } e.rmid with
    | none => exact absurd hid hget
    | some id => rfl

theorem dispatch_dead (h : Dead s e) (env : Env) : dispatch env s e = s ∧ targets s e = [] := by
  unfold dispatch targets
  simp [h.1, h.2]

theorem Listed.setEvQueue (hs : Listed s) (es : List RmEvent) :
    Listed { s with evQueue := es } := ⟨hs.nodup, hs.live⟩

theorem weight_dispatch (hs : Listed s) (hn : s.rmQueue.length ≤ n) (env : Env) (e : RmEvent)
    (es : List RmEvent) :
    weight n (dispatch env { s with evQueue := es } e).evQueue < weight n (e :: es) := by
  obtain ⟨new, hnew, hlen, hrank⟩ := (@dispatch_runsBelow env _ (hs.setEvQueue es) e).1.posted
  have hlt := weight_posted (hlen.trans hn) hrank
  rw [hnew]
  simp only [weight, List.map_append, List.sum_append, List.map_cons, List.sum_cons] at hlt ⊢
  omega

/-- The queue of a turn is what was behind the event, and what was posted. -/
theorem Drains.order (h : Drains env k s ds t) (hs : Listed s) :
    s.evQueue <+: ds.map Delivery.ev := by
  induction h with
  | done h => simp [h]
  | @turn k s t e es ds h rest ih =>
    obtain ⟨hruns, hlisted⟩ := @dispatch_runsBelow (env k) _ (hs.setEvQueue es) e
    obtain ⟨new, hnew, -⟩ := hruns.posted
    have := ih hlisted
    rw [hnew] at this
    rw [h, List.map_cons, List.cons_prefix_cons]
    exact ⟨rfl, (List.prefix_append es new).trans this⟩

theorem drains_cons_iff (h : s.evQueue = e :: es) :
    Drains env k s ds t ↔ ∃ rest, ds = ⟨e, targets { s with evQueue := es } e⟩ :: rest ∧
      Drains env (k + 1) (dispatch (env k) { s with evQueue := es } e) rest t := by
  constructor
  · intro hd
    cases hd with
    | done h' => rw [h] at h'; cases h'
    | turn h' rest =>
      obtain ⟨rfl, rfl⟩ := List.cons.inj (h.symm.trans h')
      exact ⟨_, rfl, rest⟩
  · rintro ⟨rest, rfl, hrest⟩
    exact .turn h hrest

/-- The loop ends with an empty queue and everything delivered. -/
def Empties (env : ℕ → Env) (k : ℕ) (s : RmPriv) : Prop :=
  ∃ turns t ds, rmHandlerLoop env turns k s = some (t, ds) ∧ t.evQueue = [] ∧ Drains env k s ds t

theorem empties_dead_iff (h : s.evQueue = e :: es) (hdead : Dead s e) :
    Empties env k s ↔ es = [] := by
  constructor
  · rintro ⟨turns, t, ds, hrun, hempty, -⟩
    cases turns with
    | zero => cases hrun
    | succ turns =>
      rw [rmHandlerLoop_dead h hdead] at hrun
      cases hrun
      exact hempty
  · rintro rfl
    have hpop : Dead { s with evQueue := [] } e := hdead
    obtain ⟨hsame, hnone⟩ := dispatch_dead hpop (env k)
    refine ⟨1, _, _, rmHandlerLoop_dead h hdead 0 k, rfl, (drains_cons_iff h).mpr ⟨[], ?_, ?_⟩⟩
    · rw [hnone]
    · rw [hsame]
      exact .done rfl

theorem empties_turn_iff (hs : Listed s) (h : s.evQueue = e :: es) (hlive : ¬Dead s e) :
    Empties env k s ↔
      Empties env (k + 1) (dispatch (env k) { s with evQueue := es } e) := by
  constructor
  · rintro ⟨turns, t, ds, hrun, hempty, hd⟩
    cases turns with
    | zero => cases hrun
    | succ turns =>
      rw [rmHandlerLoop_turn hs h hlive] at hrun
      obtain ⟨⟨t', rest⟩, hrest, heq⟩ := Option.map_eq_some_iff.mp hrun
      cases heq
      obtain ⟨rest', hcons, hd⟩ := (drains_cons_iff h).mp hd
      obtain rfl := (List.cons.inj hcons).2
      exact ⟨turns, t', rest, hrest, hempty, hd⟩
  · rintro ⟨turns, t, rest, hrest, hempty, hd⟩
    refine ⟨turns + 1, t, _, ?_, hempty, (drains_cons_iff h).mpr ⟨rest, rfl, hd⟩⟩
    rw [rmHandlerLoop_turn hs h hlive, hrest]
    rfl

theorem empties_iff (hs : Listed s) (hn : s.rmQueue.length ≤ n) :
    Empties env k s ↔ ∀ p, Reaches (nextTurn env) (k, s) p → ¬Lost p.2 := by
  induction hw : weight n s.evQueue using Nat.strong_induction_on generalizing k s with
  | _ w ih =>
    cases h : s.evQueue with
    | nil =>
      have hnone : nextTurn env (k, s) = none := by rw [nextTurn, h]
      rw [forall_reaches_of_none hnone]
      refine iff_of_true ⟨1, s, [], rmHandlerLoop_nil h 0 k, h, .done h⟩ ?_
      rintro ⟨e, es, h', -⟩
      rw [h] at h'
      cases h'
    | cons e es =>
      have hsome : nextTurn env (k, s) =
          some (k + 1, dispatch (env k) { s with evQueue := es } e) := by rw [nextTurn, h]
      obtain ⟨hruns, hlisted⟩ := @dispatch_runsBelow (env k) _ (hs.setEvQueue es) e
      have hlt : weight n (dispatch (env k) { s with evQueue := es } e).evQueue < w := by
        rw [← hw, h]
        exact weight_dispatch hs hn (env k) e es
      have hih : Empties env (k + 1) (dispatch (env k) { s with evQueue := es } e) ↔ _ :=
        ih _ hlt hlisted (hruns.rmQueue.length_le.trans hn) rfl
      rw [forall_reaches_of_some hsome, ← hih, lost_iff h]
      by_cases hdead : Dead s e
      · rw [empties_dead_iff h hdead]
        have hpop : Dead { s with evQueue := es } e := hdead
        rw [(dispatch_dead hpop (env k)).1]
        constructor
        · rintro rfl
          exact ⟨fun hlost => hlost.1 rfl, 1, _, [], rmHandlerLoop_nil rfl 0 _, rfl, .done rfl⟩
        · rintro ⟨hlost, -⟩
          by_contra hne
          exact hlost ⟨hne, hdead⟩
      · rw [empties_turn_iff hs h hdead, iff_and_self]
        exact fun _ hlost => hdead hlost.2

/-- One run of `rm_handler` delivers every event and leaves an empty queue just when no event
without a live measurement comes to its turn before another one. -/
theorem rmHandlerLoop_delivers_iff (env : ℕ → Env) (s : RmPriv) (hs : Listed s) :
    (∃ turns t ds, rmHandlerLoop env turns 0 s = some (t, ds) ∧ Delivered env 0 s t ds) ↔
      ∀ p, Reaches (nextTurn env) (0, s) p → ¬Lost p.2 := by
  rw [← empties_iff hs le_rfl]
  constructor
  · rintro ⟨turns, t, ds, hrun, h⟩
    exact ⟨turns, t, ds, hrun, h.empty, h.drains⟩
  · rintro ⟨turns, t, ds, hrun, hempty, hd⟩
    exact ⟨turns, t, ds, hrun, hempty, hd.order hs, hd⟩

/-- One measurement of the station 1 is live. -/
def oneLive (evs : List RmEvent) : RmPriv :=
  { rtwInitRm with
    heap := Function.update rtwInitRm.heap 0
      (some { zeroObj ⟨0, by decide⟩ with rmid := 0x10200, linked := true })
    next := 1
    rmQueue := [0]
    evQueue := evs }

theorem listed_oneLive (evs : List RmEvent) : Listed (oneLive evs) where
  nodup := List.nodup_singleton 0
  live id hid := by
    obtain rfl := List.mem_singleton.mp hid
    exact ⟨_, rfl, rfl⟩

def quietEnv : ℕ → Env := fun _ => ⟨1, true, true, true⟩

theorem oneLive_delivers : ∃ turns t ds,
    rmHandlerLoop quietEnv turns 0 (oneLive [⟨0x10200, .recvRep⟩, ⟨0x10100, .cancel⟩]) =
        some (t, ds) ∧
      Delivered quietEnv 0 (oneLive [⟨0x10200, .recvRep⟩, ⟨0x10100, .cancel⟩]) t ds := by
  refine (rmHandlerLoop_delivers_iff quietEnv _ (listed_oneLive _)).mpr ?_
  have hlive : rmGetRmobj (oneLive [⟨0x10200, .recvRep⟩, ⟨0x10100, .cancel⟩]) 0x10200 =
      some 0 := by
    decide
  have h₀ : nextTurn quietEnv (0, oneLive [⟨0x10200, .recvRep⟩, ⟨0x10100, .cancel⟩]) =
      some (1, _) := rfl
  have h₁ : nextTurn quietEnv (1, dispatch (quietEnv 0)
      { oneLive [⟨0x10200, .recvRep⟩, ⟨0x10100, .cancel⟩] with evQueue := [⟨0x10100, .cancel⟩] }
        ⟨0x10200, .recvRep⟩) = some (2, _) := rfl
  rw [forall_reaches_of_some h₀, forall_reaches_of_some h₁, forall_reaches_of_none rfl]
  refine ⟨?_, ?_, ?_⟩
  · rintro ⟨e, es, h, -, -, hnone⟩
    obtain ⟨rfl, rfl⟩ := List.cons.inj h
    rw [hlive] at hnone
    cases hnone
  · rintro ⟨e, es, h, hne, -⟩
    obtain ⟨rfl, rfl⟩ := List.cons.inj h
    exact hne rfl
  · rintro ⟨e, es, h, -⟩
    cases h

/-- The event of a measurement that is gone makes the loop leave before the next one. -/
theorem oneLive_not_delivers : ¬∃ turns t ds,
    rmHandlerLoop quietEnv turns 0 (oneLive [⟨0x10100, .cancel⟩, ⟨0x10200, .cancel⟩]) =
        some (t, ds) ∧
      Delivered quietEnv 0 (oneLive [⟨0x10100, .cancel⟩, ⟨0x10200, .cancel⟩]) t ds := by
  rintro ⟨turns, t, ds, hrun, h⟩
  cases turns with
  | zero => cases hrun
  | succ turns =>
    have hdead : Dead (oneLive [⟨0x10100, .cancel⟩, ⟨0x10200, .cancel⟩]) ⟨0x10100, .cancel⟩ := by
      decide
    rw [rmHandlerLoop_dead rfl hdead] at hrun
    cases hrun
    cases h.empty

end Loop

end Rtl8821cu.Rm
