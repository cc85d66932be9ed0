import Rtl8821cu.LibRun
import Rtl8821cu.RmFsm

/-! The measurements of an adapter (`core/rtw_rm_fsm.c`): their objects, clock slots and queues,
and who owns a clock slot. -/
namespace Rtl8821cu.Rm
open Run

/-- `struct rm_clock`: `prm` is the object the slot is used for. -/
structure RmClock where
  prm : Option ℕ
  counter : ℕ
  evid : RmEvId

structure RmEvent where
  rmid : ℕ
  evid : RmEvId
  deriving DecidableEq

/-- `struct rm_priv` with the memory of its objects. Objects are numbered in the order of their
allocation, `next` is the number of the next one, `freed` lists those given back, and `fault` tells
whether freed memory was touched. `cmdQueue` holds the `CMD_RM_POST_EVENT` commands on their way to
`rm_post_event_hdl`, `surveys` lists the measurements for which a site survey was ever started,
whether it has ended or not. -/
structure RmPriv where
  heap : ℕ → Option RmObj
  next : ℕ
  clock : Fin rmTimerNum → RmClock
  rmQueue : List ℕ
  evQueue : List RmEvent
  cmdQueue : List RmEvent
  enable : Bool
  surveys : List ℕ
  freed : List ℕ
  fault : Bool

def rtwInitRm : RmPriv where
  heap _ := none
  next := 0
  clock _ := ⟨none, 0, .stateIn⟩
  rmQueue := []
  evQueue := []
  cmdQueue := []
  enable := true
  surveys := []
  freed := []
  fault := false

/-- `rm_post_event`: the event goes through the command thread. -/
def rmPostEventCmd (s : RmPriv) (mem : Bool) (e : RmEvent) : RmPriv :=
  if !s.enable || !mem then s else { s with cmdQueue := s.cmdQueue ++ [e] }

def rmPostEventSync (s : RmPriv) (mem : Bool) (e : RmEvent) : RmPriv :=
  if e.evid == .evMax || e.rmid == 0 || !mem then s else { s with evQueue := s.evQueue ++ [e] }

/-- The loop of `rm_alloc_clock`: the first slot that is not used. -/
def freeSlot (clock : Fin rmTimerNum → RmClock) : Option (Fin rmTimerNum) :=
  (List.finRange rmTimerNum).find? fun i => (clock i).prm.isNone

/-- The slot `rm_alloc_clock` returns: where no slot is free, the last one it looked at. -/
def allocSlot (clock : Fin rmTimerNum → RmClock) : Fin rmTimerNum :=
  (freeSlot clock).getD ⟨rmTimerNum - 1, by decide⟩

def rmAllocClock (clock : Fin rmTimerNum → RmClock) (prm : ℕ) : Fin rmTimerNum → RmClock :=
  match freeSlot clock with
  | some i => Function.update clock i ⟨some prm, 0, .evMax⟩
  | none => clock

/-- An object after `_rtw_memset`, with its clock. -/
def zeroObj (pclock : Fin rmTimerNum) : RmObj where
  rmid := 0
  state := .stIdle
  q := ⟨0, 0, 0, 0, 0, 0, 0, 0⟩
  p := ⟨0, 0, 0, 0, 0, 0, 0, 0, 0, 0⟩
  pclock := pclock
  waitBusy := 0
  pollMode := false
  linked := false

/-- `rm_alloc_rmobj`; `mem` is whether `rtw_malloc` succeeds. `rm_alloc_clock` never returns a null
pointer, so the branch that frees the object again is not taken. -/
def rmAllocRmobj (s : RmPriv) (mem : Bool) : RmPriv × Option ℕ :=
  if !mem then (s, none)
  else
    ({ s with
        heap := Function.update s.heap s.next (some (zeroObj (allocSlot s.clock)))
        clock := rmAllocClock s.clock s.next
        next := s.next + 1 },
      some s.next)

def rmFreeRmobj (s : RmPriv) (id : ℕ) : RmPriv :=
  match s.heap id with
  | none => { s with fault := true }
  | some o =>
    { s with
      heap := Function.update s.heap id none
      clock := Function.update s.clock o.pclock ⟨none, 0, .evMax⟩
      rmQueue := if o.linked then s.rmQueue.erase id else s.rmQueue
      freed := s.freed ++ [id] }

theorem rmFreeRmobj_live {s : RmPriv} {id : ℕ} {o : RmObj} (ho : s.heap id = some o) :
    rmFreeRmobj s id =
      { s with
        heap := Function.update s.heap id none
        clock := Function.update s.clock o.pclock ⟨none, 0, .evMax⟩
        rmQueue := if o.linked then s.rmQueue.erase id else s.rmQueue
        freed := s.freed ++ [id] } := by
  rw [rmFreeRmobj, ho]

/-- What the callers of `rm_enqueue_rmobj` fill in: the association id of the station, whether we
request the measurement, the request, and the mode of the report (`rm_set_rep_mode`). -/
structure Request where
  aid : Fin 65536
  master : Bool
  q : RmMeasReq
  mMode : ℕ

def rmGenRmid (r : Request) : ℕ :=
  if r.q.diagToken == 0 then 0
  else (r.aid : ℕ) <<< 16 ||| r.q.diagToken <<< 8 ||| (if r.master then 1 else 0)

/-- The object of a request as it goes into the queue, in the state that `rm_state_initial`
sets. -/
def RmObj.requested (o : RmObj) (r : Request) : RmObj :=
  { o with
    rmid := rmGenRmid r, q := r.q, p := { o.p with mMode := r.mMode }, linked := true
    state := .stIdle }

/-- `rm_enqueue_rmobj` for an object that its caller has allocated and filled in. -/
def rmEnqueueRmobj (s : RmPriv) (id : ℕ) (toHead : Bool) (r : Request) (mem : Bool) : RmPriv :=
  match s.heap id with
  | none => { s with fault := true }
  | some o =>
    rmPostEventCmd
      { s with
        heap := Function.update s.heap id (some (o.requested r))
        rmQueue := if toHead then id :: s.rmQueue else s.rmQueue ++ [id] }
      mem ⟨rmGenRmid r, .stateIn⟩

/-- The measurement in the hands of `rm_state_run`. -/
def localOf (o : RmObj) (c : RmClock) : Local := ⟨o, c.counter, c.evid, [], false, false⟩

/-- What a state function leaves behind, before the object is freed. -/
def storeLocal (s : RmPriv) (id : ℕ) (o : RmObj) (l : Local) : RmPriv :=
  { s with
    heap := Function.update s.heap id (some l.obj)
    clock := Function.update s.clock o.pclock ⟨(s.clock o.pclock).prm, l.counter, l.evid⟩
    evQueue := s.evQueue ++ l.posted.map (RmEvent.mk o.rmid)
    surveys := if l.survey then o.rmid :: s.surveys else s.surveys }

/-- `rm_state_run` on an object. -/
def runObj (env : Env) (s : RmPriv) (id : ℕ) (evid : RmEvId) : RmPriv :=
  match s.heap id with
  | none => { s with fault := true }
  | some o =>
    let l := rmStateRun env (localOf o (s.clock o.pclock)) evid
    if l.freed then rmFreeRmobj (storeLocal s id o l) id else storeLocal s id o l

theorem runObj_live (env : Env) {s : RmPriv} {id : ℕ} {o : RmObj} (ho : s.heap id = some o)
    (evid : RmEvId) :
    runObj env s id evid =
      if (rmStateRun env (localOf o (s.clock o.pclock)) evid).freed then
        rmFreeRmobj (storeLocal s id o (rmStateRun env (localOf o (s.clock o.pclock)) evid)) id
      else storeLocal s id o (rmStateRun env (localOf o (s.clock o.pclock)) evid) := by
  rw [runObj, ho]

def rmGetRmobj (s : RmPriv) (rmid : ℕ) : Option ℕ :=
  if rmid == 0 then none
  else s.rmQueue.find? fun id => (s.heap id).any fun o => o.rmid == rmid

def rmGetAid (rmid : ℕ) : ℕ := (rmid &&& 0xffff0000) >>> 16

def rmIsIdForAll (rmid : ℕ) : Bool := rmid &&& 2 != 0

/-- A step of the loop of `rm_bcast_aid_handler`. -/
def bcastOne (env : Env) (e : RmEvent) (s : RmPriv) (id : ℕ) : RmPriv :=
  match s.heap id with
  | none => { s with fault := true }
  | some o => if rmGetAid e.rmid == rmGetAid o.rmid then runObj env s id e.evid else s

/-- `rm_bcast_aid_handler`: an object that a state function frees is its own, so the walk goes on
to the objects that were in the queue at the start. -/
def rmBcastAidHandler (env : Env) (s : RmPriv) (e : RmEvent) : RmPriv :=
  s.rmQueue.foldl (bcastOne env e) s

/-- An event reaches the measurements it is for. -/
def dispatch (env : Env) (s : RmPriv) (e : RmEvent) : RmPriv :=
  if rmIsIdForAll e.rmid then rmBcastAidHandler env s e
  else
    match rmGetRmobj s e.rmid with
    | none => s
    | some id => runObj env s id e.evid

/-- One turn of the loop of `rm_handler`. -/
def rmHandler (env : Env) (s : RmPriv) : RmPriv :=
  match s.evQueue with
  | [] => s
  | e :: es => dispatch env { s with evQueue := es } e

/-- `rm_post_event_hdl` up to the call of `rm_handler`, for the first command in flight. -/
def rmPostEventHdl (s : RmPriv) (mem : Bool) : RmPriv :=
  match s.cmdQueue with
  | [] => s
  | e :: es => rmPostEventSync { s with cmdQueue := es } mem e

/-- `ATOMIC_DEC` of a counter. -/
def decSlot (s : RmPriv) (i : Fin rmTimerNum) : RmPriv :=
  { s with
    clock := Function.update s.clock i { s.clock i with counter := (s.clock i).counter - 1 } }

/-- A step of the loop of `rm_timer_callback`. -/
def tickSlot (mem : Bool) (s : RmPriv) (i : Fin rmTimerNum) : RmPriv :=
  match (s.clock i).prm with
  | none => s
  | some id =>
    if (s.clock i).counter == 0 then s
    else if (s.clock i).counter == 1 then
      match s.heap id with
      | none => { decSlot s i with fault := true }
      | some o => rmPostEventCmd (decSlot s i) mem ⟨o.rmid, (s.clock i).evid⟩
    else decSlot s i

def rmTimerCallback (mem : Bool) (s : RmPriv) : RmPriv :=
  (List.finRange rmTimerNum).foldl (tickSlot mem) s

/-- The loop of `rtw_deinit_rm` over the measurements: `rm_dequeue_rm` leaves the object in the
queue. -/
def cancelAll (env : Env) : ℕ → RmPriv → RmPriv
  | 0, s => s
  | n + 1, s =>
    match s.rmQueue with
    | [] => s
    | id :: _ => cancelAll env n (runObj env s id .cancel)

def rtwDeinitRm (env : Env) (s : RmPriv) : RmPriv :=
  cancelAll env (2 * s.rmQueue.length) { s with enable := false, evQueue := [] }

/-- The handlers of reports: `rm_recv_radio_mens_rep`, `rm_recv_link_mens_rep` and
`rm_radio_mens_nb_rep`. -/
inductive ReportKind
  | radio
  | link
  | nb

/-- What a report of the peer writes into the measurement. -/
def RmObj.reported (o : RmObj) (p : RmMeasRep) : ReportKind → RmObj
  | .radio =>
    { o with
      p := { o.p with
        actionCode := p.actionCode, diagToken := p.diagToken, eId := p.eId, mToken := p.mToken
        mMode := p.mMode, mType := p.mType } }
  | .link => { o with p := { o.p with actionCode := p.actionCode, diagToken := p.diagToken } }
  | .nb =>
    { o with
      p := { o.p with actionCode := p.actionCode, diagToken := p.diagToken, eId := p.eId } }

/-- A report of the peer is received. -/
def recvReport (s : RmPriv) (mem : Bool) (rmid : ℕ) (k : ReportKind) (p : RmMeasRep) : RmPriv :=
  match rmGetRmobj s rmid with
  | none => s
  | some id =>
    match s.heap id with
    | none => { s with fault := true }
    | some o =>
      let s := { s with heap := Function.update s.heap id (some (o.reported p k)) }
      match k with
      | .radio => if p.eId != measRspIe then s else rmPostEventCmd s mem ⟨o.rmid, .recvRep⟩
      | _ => rmPostEventCmd s mem ⟨o.rmid, .recvRep⟩

/-- Whether the object is its caller's: allocated and not yet in the queue. -/
def RmPriv.fresh (s : RmPriv) (id : ℕ) : Bool := (s.heap id).any fun o => !o.linked

/-- What happens to the measurements of an adapter. -/
inductive Act
  | alloc (mem : Bool)
  | enqueue (id : ℕ) (toHead : Bool) (r : Request) (mem : Bool)
  | release (id : ℕ)
  | post (e : RmEvent) (mem : Bool)
  | report (rmid : ℕ) (k : ReportKind) (p : RmMeasRep) (mem : Bool)
  | hdl (mem : Bool)
  | handle (env : Env)
  | tick (mem : Bool)
  | deinit (env : Env)

/-- A caller enqueues or releases only an object that it holds. -/
def step (s : RmPriv) : Act → RmPriv
  | .alloc mem => (rmAllocRmobj s mem).1
  | .enqueue id toHead r mem => if s.fresh id then rmEnqueueRmobj s id toHead r mem else s
  | .release id => if s.fresh id then rmFreeRmobj s id else s
  | .post e mem => rmPostEventCmd s mem e
  | .report rmid k p mem => recvReport s mem rmid k p
  | .hdl mem => rmPostEventHdl s mem
  | .handle env => rmHandler env s
  | .tick mem => rmTimerCallback mem s
  | .deinit env => rtwDeinitRm env s

/-- Who owns what: a slot is used for the live object whose clock it is, the queue holds the linked
objects, and an object that is not live any more was freed once. -/
structure Owned (s : RmPriv) : Prop where
  slot : ∀ k id, (s.clock k).prm = some id ↔ ∃ o, s.heap id = some o ∧ o.pclock = k
  queued : ∀ id, id ∈ s.rmQueue ↔ ∃ o, s.heap id = some o ∧ o.linked = true
  nodup : s.rmQueue.Nodup
  bound : ∀ id o, s.heap id = some o → id < s.next
  freed : ∀ id, s.freed.count id = if id < s.next ∧ s.heap id = none then 1 else 0
  safe : s.fault = false

theorem owned_rtwInitRm : Owned rtwInitRm where
  slot := by simp [rtwInitRm]
  queued := by simp [rtwInitRm]
  nodup := by simp [rtwInitRm]
  bound := by simp [rtwInitRm]
  freed := by simp [rtwInitRm]
  safe := rfl

/-- Steps that change neither who is live nor what the objects own. -/
structure SameOwner (s s' : RmPriv) : Prop where
  heap : ∀ id, (s'.heap id).map (fun o => (o.pclock, o.linked)) =
    (s.heap id).map fun o => (o.pclock, o.linked)
  next : s'.next = s.next
  clock : ∀ k, (s'.clock k).prm = (s.clock k).prm
  rmQueue : s'.rmQueue = s.rmQueue
  freed : s'.freed = s.freed
  fault : s'.fault = s.fault

theorem SameOwner.refl (s : RmPriv) : SameOwner s s :=
  ⟨fun _ => rfl, rfl, fun _ => rfl, rfl, rfl, rfl⟩

theorem SameOwner.trans {a b c : RmPriv} (h : SameOwner a b) (h' : SameOwner b c) :
    SameOwner a c :=
  ⟨fun id => (h'.heap id).trans (h.heap id), h'.next.trans h.next,
    fun k => (h'.clock k).trans (h.clock k), h'.rmQueue.trans h.rmQueue, h'.freed.trans h.freed,
    h'.fault.trans h.fault⟩

theorem SameOwner.symm {a b : RmPriv} (h : SameOwner a b) : SameOwner b a :=
  ⟨fun id => (h.heap id).symm, h.next.symm, fun k => (h.clock k).symm, h.rmQueue.symm,
    h.freed.symm, h.fault.symm⟩

theorem SameOwner.live {s s' : RmPriv} (h : SameOwner s s') {id : ℕ} {o : RmObj}
    (ho : s.heap id = some o) :
    ∃ o', s'.heap id = some o' ∧ o'.pclock = o.pclock ∧ o'.linked = o.linked := by
  have hid := h.heap id
  rw [ho] at hid
  obtain ⟨o', ho', heq⟩ := Option.map_eq_some_iff.mp hid
  exact ⟨o', ho', (Prod.mk.inj heq).1, (Prod.mk.inj heq).2⟩

theorem SameOwner.none_iff {s s' : RmPriv} (h : SameOwner s s') (id : ℕ) :
    s'.heap id = none ↔ s.heap id = none := by
  have hid := h.heap id
  cases hs : s.heap id <;> cases hs' : s'.heap id <;> simp_all

theorem SameOwner.owned {s s' : RmPriv} (h : SameOwner s s') (hs : Owned s) : Owned s' where
  slot k id := by
    rw [h.clock k, hs.slot]
    constructor
    · rintro ⟨o, ho, hk⟩
      obtain ⟨o', ho', hc, -⟩ := h.live ho
      exact ⟨o', ho', hc.trans hk⟩
    · rintro ⟨o, ho, hk⟩
      obtain ⟨o', ho', hc, -⟩ := h.symm.live ho
      exact ⟨o', ho', hc.trans hk⟩
  queued id := by
    rw [h.rmQueue, hs.queued]
    constructor
    · rintro ⟨o, ho, hl⟩
      obtain ⟨o', ho', -, hl'⟩ := h.live ho
      exact ⟨o', ho', hl'.trans hl⟩
    · rintro ⟨o, ho, hl⟩
      obtain ⟨o', ho', -, hl'⟩ := h.symm.live ho
      exact ⟨o', ho', hl'.trans hl⟩
  nodup := by
    rw [h.rmQueue]
    exact hs.nodup
  bound id o ho := by
    obtain ⟨o', ho', -⟩ := h.symm.live ho
    rw [h.next]
    exact hs.bound id o' ho'
  freed id := by
    rw [h.freed, hs.freed, h.next]
    simp only [h.none_iff]
  safe := h.fault.trans hs.safe

theorem sameOwner_rmPostEventCmd (s : RmPriv) (mem : Bool) (e : RmEvent) :
    SameOwner s (rmPostEventCmd s mem e) := by
  unfold rmPostEventCmd
  split
  · exact .refl s
  · exact ⟨fun _ => rfl, rfl, fun _ => rfl, rfl, rfl, rfl⟩

theorem sameOwner_rmPostEventHdl (s : RmPriv) (mem : Bool) :
    SameOwner s (rmPostEventHdl s mem) := by
  unfold rmPostEventHdl rmPostEventSync
  split
  · exact .refl s
  · split <;> exact ⟨fun _ => rfl, rfl, fun _ => rfl, rfl, rfl, rfl⟩

theorem sameOwner_storeLocal {s : RmPriv} {id : ℕ} {o : RmObj} {l : Local}
    (ho : s.heap id = some o) (hc : l.obj.pclock = o.pclock) (hl : l.obj.linked = o.linked) :
    SameOwner s (storeLocal s id o l) where
  heap i := by
    by_cases hi : i = id
    · subst hi
      simp [storeLocal, ho, hc, hl]
    · simp [storeLocal, hi]
  next := rfl
  clock k := by
    by_cases hk : k = o.pclock
    · subst hk
      simp [storeLocal]
    · simp [storeLocal, hk]
  rmQueue := rfl
  freed := rfl
  fault := rfl

/-- An object gives back what it owns. -/
theorem owned_rmFreeRmobj {s : RmPriv} (hs : Owned s) {id : ℕ} {o : RmObj}
    (ho : s.heap id = some o) : Owned (rmFreeRmobj s id) := by
  have hown := (hs.slot o.pclock id).mpr ⟨o, ho, rfl⟩
  rw [rmFreeRmobj_live ho]
  refine ⟨fun k i => ?_, fun i => ?_, ?_, fun i o' hi => ?_, fun i => ?_, hs.safe⟩
  · by_cases hk : k = o.pclock
    · subst hk
      simp only [Function.update_self, reduceCtorEq, false_iff, not_exists, not_and]
      rintro o' hi hc
      by_cases hid : i = id
      · simp [hid] at hi
      · simp only [Function.update_of_ne hid] at hi
        have := (hs.slot o.pclock i).mpr ⟨o', hi, hc⟩
        rw [hown] at this
        exact hid (Option.some.inj this).symm
    · simp only [Function.update_of_ne hk, hs.slot]
      by_cases hid : i = id
      · subst hid
        simpa [ho] using fun h => hk h.symm
      · simp only [Function.update_of_ne hid]
  · by_cases hid : i = id
    · subst hid
      simp only [Function.update_self, reduceCtorEq, false_and, exists_false, iff_false]
      split_ifs with hl
      · exact hs.nodup.not_mem_erase
      · intro hmem
        obtain ⟨o', ho', hl'⟩ := (hs.queued i).mp hmem
        rw [ho] at ho'
        obtain rfl := Option.some.inj ho'
        exact hl hl'
    · simp only [Function.update_of_ne hid, ← hs.queued]
      split_ifs
      · exact List.mem_erase_of_ne hid
      · rfl
  · dsimp only
    split_ifs
    · exact hs.nodup.erase id
    · exact hs.nodup
  · by_cases hid : i = id
    · simp [hid] at hi
    · simp only [Function.update_of_ne hid] at hi
      exact hs.bound i o' hi
  · by_cases hid : i = id
    · subst hid
      have hlt := hs.bound i o ho
      simp [List.count_append, hs.freed, ho, hlt]
    · simp [List.count_append, hs.freed, hid, Ne.symm hid]

theorem owned_runObj {s : RmPriv} (hs : Owned s) (env : Env) {id : ℕ} {o : RmObj}
    (ho : s.heap id = some o) (evid : RmEvId) : Owned (runObj env s id evid) := by
  have hk := keeps_rmStateRun env (localOf o (s.clock o.pclock)) evid
  have hstore := (sameOwner_storeLocal ho hk.pclock hk.linked).owned hs
  rw [runObj_live env ho]
  split_ifs
  · obtain ⟨o', ho', -⟩ := (sameOwner_storeLocal ho hk.pclock hk.linked).live ho
    exact owned_rmFreeRmobj hstore ho'
  · exact hstore

theorem freeSlot_some {clock : Fin rmTimerNum → RmClock} {i : Fin rmTimerNum}
    (h : freeSlot clock = some i) : (clock i).prm = none := by
  simpa using List.find?_some h

/-- An object allocated while a slot is free owns that slot. -/
theorem owned_rmAllocRmobj {s : RmPriv} (hs : Owned s) (mem : Bool)
    (hfree : mem = true → (freeSlot s.clock).isSome) : Owned (rmAllocRmobj s mem).1 := by
  cases mem
  · exact hs
  obtain ⟨i, hi⟩ := Option.isSome_iff_exists.mp (hfree rfl)
  have hnone : s.heap s.next = none := by
    rw [Option.eq_none_iff_forall_ne_some]
    intro o ho
    exact lt_irrefl _ (hs.bound _ o ho)
  unfold rmAllocRmobj
  simp only [Bool.not_true, Bool.false_eq_true, if_false, rmAllocClock, allocSlot, hi,
    Option.getD_some]
  refine ⟨fun k id => ?_, fun id => ?_, hs.nodup, fun id o ho => ?_, fun id => ?_, hs.safe⟩
  · by_cases hk : k = i
    · subst hk
      simp only [Function.update_self, Option.some.injEq]
      constructor
      · rintro rfl
        exact ⟨zeroObj k, by simp, rfl⟩
      · rintro ⟨o, ho, hc⟩
        by_contra hid
        rw [Function.update_of_ne (Ne.symm hid)] at ho
        have := (hs.slot k id).mpr ⟨o, ho, hc⟩
        rw [freeSlot_some hi] at this
        cases this
    · simp only [Function.update_of_ne hk, hs.slot]
      by_cases hid : id = s.next
      · subst hid
        simpa [hnone, zeroObj] using fun h => hk h.symm
      · simp only [Function.update_of_ne hid]
  · rw [hs.queued]
    by_cases hid : id = s.next
    · subst hid
      simp [hnone, zeroObj]
    · simp only [Function.update_of_ne hid]
  · by_cases hid : id = s.next
    · simp [hid]
    · simp only [Function.update_of_ne hid] at ho
      exact (hs.bound id o ho).trans (Nat.lt_succ_self _)
  · dsimp only
    rw [hs.freed]
    by_cases hid : id = s.next
    · subst hid
      simp
    · have hlt : id < s.next + 1 ↔ id < s.next := by omega
      simp only [Function.update_of_ne hid, hlt]

/-- Without a free slot the new object gets a slot that another one owns. -/
theorem slot_free_of_owned_rmAllocRmobj {s : RmPriv} (hs : Owned s)
    (h : Owned (rmAllocRmobj s true).1) : (freeSlot s.clock).isSome := by
  by_contra hfull
  rw [Bool.not_eq_true, Option.isSome_eq_false_iff, Option.isNone_iff_eq_none] at hfull
  have hclock : (rmAllocRmobj s true).1.clock = s.clock := by
    simp [rmAllocRmobj, rmAllocClock, hfull]
  have hnew := (h.slot (allocSlot s.clock) s.next).mpr ⟨zeroObj (allocSlot s.clock), by
    simp [rmAllocRmobj], rfl⟩
  rw [hclock, hs.slot] at hnew
  obtain ⟨o, ho, -⟩ := hnew
  exact lt_irrefl _ (hs.bound _ o ho)

theorem owned_rmEnqueueRmobj {s : RmPriv} (hs : Owned s) {id : ℕ} (hfresh : s.fresh id)
    (toHead : Bool) (r : Request) (mem : Bool) : Owned (rmEnqueueRmobj s id toHead r mem) := by
  obtain ⟨o, ho, hl⟩ : ∃ o, s.heap id = some o ∧ o.linked = false := by
    simpa [RmPriv.fresh, Option.any_eq_true] using hfresh
  have hnot : id ∉ s.rmQueue := by
    intro hmem
    obtain ⟨o', ho', hl'⟩ := (hs.queued id).mp hmem
    rw [ho] at ho'
    obtain rfl := Option.some.inj ho'
    simp [hl] at hl'
  rw [rmEnqueueRmobj, ho]
  refine (sameOwner_rmPostEventCmd _ mem _).owned ?_
  refine ⟨fun k i => ?_, fun i => ?_, ?_, fun i o' hi => ?_, fun i => ?_, hs.safe⟩
  · rw [hs.slot]
    by_cases hid : i = id
    · subst hid
      simp [ho, RmObj.requested]
    · simp only [Function.update_of_ne hid]
  · by_cases hid : i = id
    · subst hid
      simp [RmObj.requested]
      cases toHead <;> simp
    · simp only [Function.update_of_ne hid, ← hs.queued]
      cases toHead <;> simp [hid]
  · cases toHead
    · simpa [List.nodup_append] using ⟨hs.nodup, fun a ha h => hnot (h ▸ ha)⟩
    · simpa using ⟨hnot, hs.nodup⟩
  · by_cases hid : i = id
    · subst hid
      exact hs.bound i o ho
    · simp only [Function.update_of_ne hid] at hi
      exact hs.bound i o' hi
  · dsimp only
    rw [hs.freed]
    by_cases hid : i = id
    · subst hid
      simp [ho]
    · simp only [Function.update_of_ne hid]

/-- The other measurements stay in the queue when one is run. -/
theorem mem_rmQueue_runObj (env : Env) {s : RmPriv} {id : ℕ} {o : RmObj}
    (ho : s.heap id = some o) (evid : RmEvId) {j : ℕ} (hj : j ≠ id) :
    j ∈ (runObj env s id evid).rmQueue ↔ j ∈ s.rmQueue := by
  rw [runObj_live env ho]
  split_ifs
  · have hlive : (storeLocal s id o (rmStateRun env (localOf o (s.clock o.pclock)) evid)).heap id =
        some (rmStateRun env (localOf o (s.clock o.pclock)) evid).obj := by
      simp [storeLocal]
    rw [rmFreeRmobj_live hlive]
    dsimp only
    split_ifs
    · exact List.mem_erase_of_ne hj
    · rfl
  · rfl

/-- A walk over queued measurements touches live objects only. -/
theorem owned_bcast (env : Env) (e : RmEvent) {ids : List ℕ} {s : RmPriv} (hs : Owned s)
    (hnd : ids.Nodup) (hmem : ∀ id ∈ ids, id ∈ s.rmQueue) :
    Owned (ids.foldl (bcastOne env e) s) := by
  induction ids generalizing s with
  | nil => exact hs
  | cons id ids ih =>
    obtain ⟨hid, hnd⟩ := List.nodup_cons.mp hnd
    obtain ⟨o, ho, -⟩ := (hs.queued id).mp (hmem id (by simp))
    have hrest : ∀ j ∈ ids, j ∈ s.rmQueue := fun j hj => hmem j (by simp [hj])
    have hone : bcastOne env e s id =
        if rmGetAid e.rmid == rmGetAid o.rmid then runObj env s id e.evid else s := by
      rw [bcastOne, ho]
    rw [List.foldl_cons, hone]
    split_ifs
    · refine ih (owned_runObj hs env ho e.evid) hnd fun j hj => ?_
      have hne : j ≠ id := fun h => hid (h ▸ hj)
      exact (mem_rmQueue_runObj env ho e.evid hne).mpr (hrest j hj)
    · exact ih hs hnd hrest

theorem rmGetRmobj_some {s : RmPriv} {rmid id : ℕ} (h : rmGetRmobj s rmid = some id) :
    id ∈ s.rmQueue ∧ ∃ o, s.heap id = some o ∧ o.rmid = rmid := by
  unfold rmGetRmobj at h
  split_ifs at h
  refine ⟨List.mem_of_find?_eq_some h, ?_⟩
  have := List.find?_some h
  simpa [Option.any_eq_true] using this

theorem owned_dispatch (env : Env) {s : RmPriv} (hs : Owned s) (e : RmEvent) :
    Owned (dispatch env s e) := by
  unfold dispatch
  split_ifs
  · exact owned_bcast env e hs hs.nodup fun _ h => h
  · split
    · exact hs
    · next id hget =>
      obtain ⟨-, o, ho, -⟩ := rmGetRmobj_some hget
      exact owned_runObj hs env ho e.evid

theorem owned_rmHandler (env : Env) {s : RmPriv} (hs : Owned s) : Owned (rmHandler env s) := by
  unfold rmHandler
  split
  · exact hs
  · next e es _ =>
    have hpop : SameOwner s { s with evQueue := es } :=
      ⟨fun _ => rfl, rfl, fun _ => rfl, rfl, rfl, rfl⟩
    exact owned_dispatch env (hpop.owned hs) e

theorem sameOwner_decSlot (s : RmPriv) (i : Fin rmTimerNum) : SameOwner s (decSlot s i) := by
  refine ⟨fun _ => rfl, rfl, fun k => ?_, rfl, rfl, rfl⟩
  by_cases hk : k = i
  · simp [decSlot, hk]
  · simp [decSlot, hk]

theorem sameOwner_tickSlot (mem : Bool) {s : RmPriv} (hs : Owned s) (i : Fin rmTimerNum) :
    SameOwner s (tickSlot mem s i) := by
  unfold tickSlot
  split
  · exact .refl s
  · next id hprm =>
    obtain ⟨o, ho, -⟩ := (hs.slot i id).mp hprm
    split_ifs
    · exact .refl s
    · rw [ho]
      exact (sameOwner_decSlot s i).trans (sameOwner_rmPostEventCmd _ mem _)
    · exact sameOwner_decSlot s i

theorem owned_rmTimerCallback (mem : Bool) {s : RmPriv} (hs : Owned s) :
    Owned (rmTimerCallback mem s) := by
  unfold rmTimerCallback
  induction List.finRange rmTimerNum generalizing s with
  | nil => exact hs
  | cons i is ih => exact ih ((sameOwner_tickSlot mem hs i).owned hs)

theorem sameOwner_reported {s : RmPriv} {id : ℕ} {o : RmObj} (ho : s.heap id = some o)
    (p : RmMeasRep) (k : ReportKind) :
    SameOwner s { s with heap := Function.update s.heap id (some (o.reported p k)) } := by
  refine ⟨fun i => ?_, rfl, fun _ => rfl, rfl, rfl, rfl⟩
  by_cases hi : i = id
  · subst hi
    cases k <;> simp [ho, RmObj.reported]
  · simp [hi]

theorem owned_recvReport {s : RmPriv} (hs : Owned s) (mem : Bool) (rmid : ℕ) (k : ReportKind)
    (p : RmMeasRep) : Owned (recvReport s mem rmid k p) := by
  unfold recvReport
  split
  · exact hs
  · next id hget =>
    obtain ⟨-, o, ho, -⟩ := rmGetRmobj_some hget
    rw [ho]
    refine SameOwner.owned ((sameOwner_reported ho p k).trans ?_) hs
    cases k with
    | radio =>
      dsimp only
      split_ifs
      · exact .refl _
      · exact sameOwner_rmPostEventCmd _ mem _
    | link => exact sameOwner_rmPostEventCmd _ mem _
    | nb => exact sameOwner_rmPostEventCmd _ mem _

/-- Objects may go, and those that stay are as much in the queue as before. -/
structure Shrinks (s s' : RmPriv) : Prop where
  next : s'.next = s.next
  heap : ∀ id o', s'.heap id = some o' → ∃ o, s.heap id = some o ∧ o.linked = o'.linked

theorem Shrinks.trans {a b c : RmPriv} (h : Shrinks a b) (h' : Shrinks b c) : Shrinks a c := by
  refine ⟨h'.next.trans h.next, fun id o'' ho'' => ?_⟩
  obtain ⟨o', ho', hl'⟩ := h'.heap id o'' ho''
  obtain ⟨o, ho, hl⟩ := h.heap id o' ho'
  exact ⟨o, ho, hl.trans hl'⟩

theorem SameOwner.shrinks {s s' : RmPriv} (h : SameOwner s s') : Shrinks s s' := by
  refine ⟨h.next, fun id o' ho' => ?_⟩
  obtain ⟨o, ho, -, hl⟩ := h.symm.live ho'
  exact ⟨o, ho, hl⟩

theorem shrinks_rmFreeRmobj {s : RmPriv} {id : ℕ} {o : RmObj} (ho : s.heap id = some o) :
    Shrinks s (rmFreeRmobj s id) := by
  rw [rmFreeRmobj_live ho]
  refine ⟨rfl, fun i o' hi => ?_⟩
  by_cases hid : i = id
  · simp [hid] at hi
  · simp only [Function.update_of_ne hid] at hi
    exact ⟨o', hi, rfl⟩

theorem shrinks_runObj (env : Env) {s : RmPriv} {id : ℕ} {o : RmObj} (ho : s.heap id = some o)
    (evid : RmEvId) : Shrinks s (runObj env s id evid) := by
  have hk := keeps_rmStateRun env (localOf o (s.clock o.pclock)) evid
  have hstore := sameOwner_storeLocal ho hk.pclock hk.linked
  rw [runObj_live env ho]
  split_ifs
  · obtain ⟨o', ho', -⟩ := hstore.live ho
    exact hstore.shrinks.trans (shrinks_rmFreeRmobj ho')
  · exact hstore.shrinks

theorem gotoEnd_state (env : Env) {l : Local} (h : l.obj.state ≠ .stEnd) :
    (gotoEnd env l).obj.state = .stEnd ∧ (gotoEnd env l).freed = l.freed := by
  have hout : (rmStateOut l).freed = l.freed := by
    unfold rmStateOut
    split
    · next heq => exact absurd heq h
    · rfl
  unfold gotoEnd rmStateGoto endIn rmPostEvent
  split_ifs with h1 h2 h3
  · exact absurd (by simpa using h1) h
  · exact ⟨rfl, hout⟩
  · exact ⟨rfl, hout⟩
  · exact ⟨rfl, hout⟩

theorem rmStateRun_cancel_end (env : Env) {l : Local} (h : l.obj.state = .stEnd) :
    (rmStateRun env l .cancel).freed = true := by
  rw [rmStateRun, h]
  rfl

theorem rmStateRun_cancel_live (env : Env) {l : Local} (h : l.obj.state ≠ .stEnd) :
    (rmStateRun env l .cancel).obj.state = .stEnd ∧
      (rmStateRun env l .cancel).freed = l.freed := by
  unfold rmStateRun
  cases hst : l.obj.state
  case stEnd => exact absurd hst h
  case stDoMeas => exact gotoEnd_state env (l := rmSetRepMode l measRepModRefuse) h
  case stIdle =>
    exact gotoEnd_state env
      (l := { l with obj := { l.obj with p := { l.obj.p with category := categoryRadioMeas } } }) h
  all_goals exact gotoEnd_state env h

theorem runObj_cancel_end (env : Env) {s : RmPriv} (hs : Owned s) {id : ℕ} {ids : List ℕ}
    (hq : s.rmQueue = id :: ids) {o : RmObj} (ho : s.heap id = some o) (hst : o.state = .stEnd) :
    (runObj env s id .cancel).rmQueue = ids := by
  have hcancel := rmStateRun_cancel_end env (l := localOf o (s.clock o.pclock)) hst
  obtain ⟨o', ho', hl⟩ := (hs.queued id).mp (by simp [hq])
  rw [ho] at ho'
  obtain rfl := Option.some.inj ho'
  have hk := keeps_rmStateRun env (localOf o (s.clock o.pclock)) .cancel
  have hlive : (storeLocal s id o (rmStateRun env (localOf o (s.clock o.pclock)) .cancel)).heap id =
      some (rmStateRun env (localOf o (s.clock o.pclock)) .cancel).obj := by
    simp [storeLocal]
  have hlinked : (rmStateRun env (localOf o (s.clock o.pclock)) .cancel).obj.linked = true :=
    hk.linked.trans hl
  rw [runObj_live env ho, if_pos hcancel, rmFreeRmobj_live hlive]
  simp [hlinked, storeLocal, hq]

theorem runObj_cancel_live (env : Env) {s : RmPriv} {id : ℕ} {o : RmObj}
    (ho : s.heap id = some o) (hst : o.state ≠ .stEnd) :
    (runObj env s id .cancel).rmQueue = s.rmQueue ∧
      ∃ o', (runObj env s id .cancel).heap id = some o' ∧ o'.state = .stEnd := by
  have hcancel := rmStateRun_cancel_live env (l := localOf o (s.clock o.pclock)) hst
  have hlive : ¬ (rmStateRun env (localOf o (s.clock o.pclock)) .cancel).freed = true := by
    rw [hcancel.2]
    exact Bool.false_ne_true
  rw [runObj_live env ho, if_neg hlive]
  exact ⟨rfl, _, by simp [storeLocal], hcancel.1⟩

/-- Two turns of the loop of `rtw_deinit_rm` are enough for each measurement. -/
theorem cancelAll_spec (env : Env) (n : ℕ) {s : RmPriv} (hs : Owned s)
    (hn : 2 * s.rmQueue.length ≤ n) :
    Owned (cancelAll env n s) ∧ (cancelAll env n s).rmQueue = [] := by
  induction n using Nat.strong_induction_on generalizing s with
  | _ n ih =>
    cases hq : s.rmQueue with
    | nil => cases n <;> simp [cancelAll, hq, hs]
    | cons id ids =>
      rw [hq, List.length_cons] at hn
      obtain ⟨n, rfl⟩ : ∃ m, n = m + 2 := ⟨n - 2, by omega⟩
      obtain ⟨o, ho, -⟩ := (hs.queued id).mp (by simp [hq])
      have hs1 := owned_runObj hs env ho .cancel
      have hone : cancelAll env (n + 2) s = cancelAll env (n + 1) (runObj env s id .cancel) := by
        rw [cancelAll, hq]
      rw [hone]
      by_cases hst : o.state = .stEnd
      · have hq1 := runObj_cancel_end env hs hq ho hst
        refine ih (n + 1) (by omega) hs1 ?_
        rw [hq1]
        omega
      · obtain ⟨hq1, o1, ho1, hst1⟩ := runObj_cancel_live env ho hst
        rw [hq] at hq1
        have hq2 := runObj_cancel_end env hs1 hq1 ho1 hst1
        have htwo : cancelAll env (n + 1) (runObj env s id .cancel) =
            cancelAll env n (runObj env (runObj env s id .cancel) id .cancel) := by
          rw [cancelAll, hq1]
        rw [htwo]
        refine ih n (by omega) (owned_runObj hs1 env ho1 .cancel) ?_
        rw [hq2]
        omega

theorem shrinks_cancelAll (env : Env) (n : ℕ) {s : RmPriv} (hs : Owned s) :
    Shrinks s (cancelAll env n s) := by
  induction n generalizing s with
  | zero => exact (SameOwner.refl s).shrinks
  | succ n ih =>
    cases hq : s.rmQueue with
    | nil =>
      simp only [cancelAll, hq]
      exact (SameOwner.refl s).shrinks
    | cons id ids =>
      obtain ⟨o, ho, -⟩ := (hs.queued id).mp (by simp [hq])
      simp only [cancelAll, hq]
      exact (shrinks_runObj env ho .cancel).trans (ih (owned_runObj hs env ho .cancel))

theorem rtwDeinitRm_spec (env : Env) {s : RmPriv} (hs : Owned s) :
    Owned (rtwDeinitRm env s) ∧ (rtwDeinitRm env s).rmQueue = [] := by
  have hstop : SameOwner s { s with enable := false, evQueue := [] } :=
    ⟨fun _ => rfl, rfl, fun _ => rfl, rfl, rfl, rfl⟩
  exact cancelAll_spec env _ (hstop.owned hs) le_rfl

/-- `rtw_deinit_rm` frees what was in the queue. -/
theorem rtwDeinitRm_freed (env : Env) {s : RmPriv} (hs : Owned s) {id : ℕ}
    (hid : id ∈ s.rmQueue) : (rtwDeinitRm env s).freed.count id = 1 := by
  have hstop : SameOwner s { s with enable := false, evQueue := [] } :=
    ⟨fun _ => rfl, rfl, fun _ => rfl, rfl, rfl, rfl⟩
  have hshrinks : Shrinks s (rtwDeinitRm env s) :=
    hstop.shrinks.trans (shrinks_cancelAll env _ (hstop.owned hs))
  obtain ⟨hd, hq⟩ := rtwDeinitRm_spec env hs
  obtain ⟨o, ho, hl⟩ := (hs.queued id).mp hid
  have hnone : (rtwDeinitRm env s).heap id = none := by
    rw [Option.eq_none_iff_forall_ne_some]
    intro o' ho'
    obtain ⟨o1, ho1, hl1⟩ := hshrinks.heap id o' ho'
    rw [ho] at ho1
    obtain rfl := Option.some.inj ho1
    have hmem := (hd.queued id).mpr ⟨o', ho', hl1.symm.trans hl⟩
    simp [hq] at hmem
  rw [hd.freed, hshrinks.next, if_pos ⟨hs.bound id o ho, hnone⟩]

/-- An object is allocated only while a clock slot is free. -/
def SlotFree (s : RmPriv) : Act → Prop
  | .alloc mem => mem = true → (freeSlot s.clock).isSome
  | _ => True

theorem owned_step {s : RmPriv} (hs : Owned s) {a : Act} (ha : SlotFree s a) :
    Owned (step s a) := by
  cases a with
  | alloc mem => exact owned_rmAllocRmobj hs mem ha
  | enqueue id toHead r mem =>
    simp only [step]
    split_ifs with hfresh
    · exact owned_rmEnqueueRmobj hs hfresh toHead r mem
    · exact hs
  | release id =>
    simp only [step]
    split_ifs with hfresh
    · obtain ⟨o, ho, -⟩ := Option.any_eq_true _ _ |>.mp hfresh
      exact owned_rmFreeRmobj hs ho
    · exact hs
  | post e mem => exact (sameOwner_rmPostEventCmd s mem e).owned hs
  | report rmid k p mem => exact owned_recvReport hs mem rmid k p
  | hdl mem => exact (sameOwner_rmPostEventHdl s mem).owned hs
  | handle env => exact owned_rmHandler env hs
  | tick mem => exact owned_rmTimerCallback mem hs
  | deinit env => exact (rtwDeinitRm_spec env hs).1

theorem slotFree_of_owned_step {s : RmPriv} (hs : Owned s) {a : Act} (h : Owned (step s a)) :
    SlotFree s a := by
  cases a with
  | alloc mem =>
    rintro rfl
    exact slot_free_of_owned_rmAllocRmobj hs h
  | _ => trivial

/-- The measurements own their resources: different live objects have different clock slots, a slot
is used exactly when a live object owns it, and an object is freed once and not touched again. -/
structure OwnsResources (s : RmPriv) : Prop extends Owned s where
  distinct : ∀ i j oi oj, s.heap i = some oi → s.heap j = some oj → i ≠ j → oi.pclock ≠ oj.pclock
  used : ∀ k, (s.clock k).prm.isSome ↔ ∃ id o, s.heap id = some o ∧ o.pclock = k

theorem ownsResources_iff (s : RmPriv) : OwnsResources s ↔ Owned s := by
  refine ⟨OwnsResources.toOwned, fun hs => ⟨hs, fun i j oi oj hi hj hne heq => hne ?_, ?_⟩⟩
  · have hki := (hs.slot oi.pclock i).mpr ⟨oi, hi, rfl⟩
    have hkj := (hs.slot oi.pclock j).mpr ⟨oj, hj, heq.symm⟩
    rw [hki] at hkj
    exact Option.some.inj hkj
  · intro k
    rw [Option.isSome_iff_exists]
    exact exists_congr fun id => hs.slot k id

/-- The resources are owned in every state of a run exactly if every object was allocated while a
clock slot was free; `rtw_deinit_rm` then frees every measurement in the queue, once. -/
theorem rm_objects_owned_iff (as : List Act) :
    ((∀ k, OwnsResources (run step rtwInitRm (as.take k))) ↔ Along step SlotFree rtwInitRm as) ∧
      (Along step SlotFree rtwInitRm as → ∀ env,
        (rtwDeinitRm env (run step rtwInitRm as)).rmQueue = [] ∧
        ∀ id ∈ (run step rtwInitRm as).rmQueue,
          (rtwDeinitRm env (run step rtwInitRm as)).freed.count id = 1) := by
  constructor
  · simp only [ownsResources_iff]
    exact forall_take_iff_along
      (fun s a _ hs => ⟨slotFree_of_owned_step hs, owned_step hs⟩) owned_rtwInitRm
  · intro h env
    have hs : Owned (run step rtwInitRm as) :=
      run_invariant (fun s a hs ha => owned_step hs ha) owned_rtwInitRm h
    exact ⟨(rtwDeinitRm_spec env hs).2, fun id hid => rtwDeinitRm_freed env hs hid⟩

/-- After `n` allocations there are `n` live objects. -/
theorem run_allocs (n : ℕ) :
    (run step rtwInitRm (List.replicate n (.alloc true))).next = n ∧
      ∀ id < n, (run step rtwInitRm (List.replicate n (.alloc true))).heap id ≠ none := by
  induction n with
  | zero => simp [rtwInitRm]
  | succ n ih =>
    obtain ⟨hnext, hlive⟩ := ih
    rw [List.replicate_succ', run_append, run_cons, run_nil]
    refine ⟨by simp [step, rmAllocRmobj, hnext], fun id hid => ?_⟩
    by_cases heq : id = n
    · simp [step, rmAllocRmobj, hnext, heq]
    · simpa [step, rmAllocRmobj, hnext, heq] using hlive id (by omega)

/-- The allocation after `RM_TIMER_NUM` live objects succeeds, and two objects share a slot. -/
theorem rm_alloc_shares_slot :
    ¬ OwnsResources (run step rtwInitRm (List.replicate (rmTimerNum + 1) (.alloc true))) := by
  intro h
  obtain ⟨-, hlive⟩ := run_allocs (rmTimerNum + 1)
  have hobj : ∀ i : Fin (rmTimerNum + 1), ∃ o,
      (run step rtwInitRm (List.replicate (rmTimerNum + 1) (.alloc true))).heap i = some o :=
    fun i => Option.ne_none_iff_exists'.mp (hlive i i.isLt)
  choose obj hheap using hobj
  obtain ⟨i, j, hne, heq⟩ := Fintype.exists_ne_map_eq_of_card_lt (fun i => (obj i).pclock) (by simp)
  exact h.distinct i j (obj i) (obj j) (hheap i) (hheap j) (fun hij => hne (Fin.ext hij)) heq

end Rtl8821cu.Rm
