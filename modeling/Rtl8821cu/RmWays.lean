import Rtl8821cu.RmForward

/-! No measurement of an adapter gets stuck (`core/rtw_rm_fsm.c`). -/
namespace Rtl8821cu.Rm
open Run

/-- The measurement's first `RM_EV_state_in` is still to come, and no `RM_EV_state_out` behind
it. -/
def Fresh (rmid : ℕ) (evq cmdq : List RmEvent) : Prop :=
  ⟨rmid, .stateIn⟩ ∈ cmdq ∨
    ∃ l1 l2, evq = l1 ++ ⟨rmid, .stateIn⟩ :: l2 ∧ (⟨rmid, .stateOut⟩ : RmEvent) ∉ l2

/-- The clock or a pending event ends the state that the measurement rests in. -/
def Waiting (evq cmdq : List RmEvent) (c : RmClock) (o : RmObj) : Prop :=
  (0 < c.counter ∧ wakes o.q o.state c.evid = true) ∨
    ∃ evid, ⟨o.rmid, evid⟩ ∈ evq ++ cmdq ∧ wakes o.q o.state evid = true

def Way (evq cmdq : List RmEvent) (c : RmClock) (o : RmObj) : Prop :=
  Fresh o.rmid evq cmdq ∨
    ((o.state ≠ .stEnd → (⟨o.rmid, .stateOut⟩ : RmEvent) ∉ evq) ∧ Waiting evq cmdq c o)

section Ways

variable {evq cmdq : List RmEvent} {c c' : RmClock} {o o' : RmObj} {r : ℕ}

theorem Fresh.append_ev (h : Fresh r evq cmdq) {es : List RmEvent}
    (hes : (⟨r, .stateOut⟩ : RmEvent) ∉ es) : Fresh r (evq ++ es) cmdq := by
  rcases h with h | ⟨l1, l2, rfl, hl⟩
  · exact .inl h
  · exact .inr ⟨l1, l2 ++ es, by simp, by simp [hl, hes]⟩

theorem Way.append_ev (h : Way evq cmdq c o) {es : List RmEvent}
    (hes : (⟨o.rmid, .stateOut⟩ : RmEvent) ∉ es) : Way (evq ++ es) cmdq c o := by
  rcases h with h | ⟨hout, hw⟩
  · exact .inl (h.append_ev hes)
  · refine .inr ⟨fun hst => by simp [hout hst, hes], ?_⟩
    rcases hw with hc | ⟨evid, hmem, hw⟩
    · exact .inl hc
    · refine .inr ⟨evid, ?_, hw⟩
      rcases List.mem_append.mp hmem with hm | hm <;> simp [hm]

theorem Way.append_cmd (h : Way evq cmdq c o) (e : RmEvent) : Way evq (cmdq ++ [e]) c o := by
  rcases h with (h | h) | ⟨hout, hc | ⟨evid, hmem, hw⟩⟩
  · exact .inl (.inl (by simp [h]))
  · exact .inl (.inr h)
  · exact .inr ⟨hout, .inl hc⟩
  · refine .inr ⟨hout, .inr ⟨evid, ?_, hw⟩⟩
    rw [← List.append_assoc]
    exact List.mem_append_left _ hmem

theorem Way.congr (h : Way evq cmdq c o) (hr : o'.rmid = o.rmid) (hs : o'.state = o.state)
    (hq : o'.q = o.q) (hc : c'.counter = c.counter) (he : c'.evid = c.evid) :
    Way evq cmdq c' o' := by
  unfold Way Waiting at *
  rw [hr, hs, hq, hc, he]
  exact h

theorem Way.pop_other {e : RmEvent} (h : Way (e :: evq) cmdq c o) (he : e.rmid ≠ o.rmid) :
    Way evq cmdq c o := by
  have hne : ∀ evid, (⟨o.rmid, evid⟩ : RmEvent) ≠ e := by
    rintro evid rfl
    exact he rfl
  rcases h with (h | ⟨l1, l2, heq, hl⟩) | ⟨hout, hw⟩
  · exact .inl (.inl h)
  · cases l1 with
    | nil => exact absurd (List.cons.inj heq).1.symm (hne _)
    | cons _ l1 => exact .inl (.inr ⟨l1, l2, (List.cons.inj heq).2, hl⟩)
  · refine .inr ⟨fun hst hm => hout hst (by simp [hm]), ?_⟩
    rcases hw with hc | ⟨evid, hmem, hw⟩
    · exact .inl hc
    · refine .inr ⟨evid, ?_, hw⟩
      rw [List.cons_append] at hmem
      exact (List.mem_cons.mp hmem).resolve_left (hne evid)

/-- The first command in flight becomes an event of the queue. -/
theorem Way.hdl {e : RmEvent} (h : Way evq (e :: cmdq) c o) (hr : o.rmid ≠ 0)
    (he : e.evid ≠ .stateOut) :
    Way (if e.evid == .evMax || e.rmid == 0 then evq else evq ++ [e]) cmdq c o := by
  have hout : (⟨o.rmid, .stateOut⟩ : RmEvent) ∉ [e] := by
    rw [List.mem_singleton]
    rintro rfl
    exact he rfl
  by_cases hmine : e.rmid = o.rmid ∧ e.evid ≠ .evMax
  · obtain ⟨hid, hmax⟩ := hmine
    have hkeep : ¬ (e.evid == .evMax || e.rmid == 0) = true := by simp [hmax, hid, hr]
    rw [if_neg hkeep]
    rcases h with (h | h) | ⟨hquiet, hw⟩
    · rcases List.mem_cons.mp h with heq | h
      · exact .inl (.inr ⟨evq, [], by rw [heq], by simp⟩)
      · exact .inl (.inl h)
    · exact .inl (Fresh.append_ev (.inr h) hout)
    · refine .inr ⟨fun hst => by simpa [hquiet hst] using hout, ?_⟩
      rcases hw with hc | ⟨evid, hmem, hw⟩
      · exact .inl hc
      · exact .inr ⟨evid, by simpa using hmem, hw⟩
  · have hrest : Way evq cmdq c o := by
      rcases h with (h | h) | ⟨hquiet, hw⟩
      · rcases List.mem_cons.mp h with heq | h
        · exact absurd ⟨by rw [← heq], by rw [← heq]; exact nofun⟩ hmine
        · exact .inl (.inl h)
      · exact .inl (.inr h)
      · refine .inr ⟨hquiet, ?_⟩
        rcases hw with hc | ⟨evid, hmem, hw⟩
        · exact .inl hc
        · refine .inr ⟨evid, ?_, hw⟩
          have hne : (⟨o.rmid, evid⟩ : RmEvent) ≠ e := by
            rintro rfl
            refine hmine ⟨rfl, ?_⟩
            rintro (rfl : evid = _)
            cases hst : o.state <;> simp [hst, wakes] at hw
          simpa [hne] using hmem
    split_ifs
    · exact hrest
    · exact hrest.append_ev hout

/-- A measurement that settled in a state has a way forward. -/
theorem Settled.way {l : Local} (h : Settled l) (hr : l.obj.rmid = r) (hc : c.counter = l.counter)
    (he : c.evid = l.evid)
    (hquiet : l.obj.state ≠ .stEnd → (⟨r, .stateOut⟩ : RmEvent) ∉ evq) :
    Way (evq ++ l.posted.map (RmEvent.mk r)) cmdq c l.obj := by
  refine .inr ⟨fun hst => ?_, ?_⟩
  · rw [hr]
    have hposted : .stateOut ∉ l.posted := fun hm => hst (h.posted hm)
    simpa using ⟨hquiet hst, hposted⟩
  · rcases h.ready with hready | ⟨evid, hm, hw⟩
    · exact .inl (by rw [hc, he]; exact hready)
    · exact .inr ⟨evid, by simp [hr, hm], hw⟩

theorem Settled.posted_quiet {l : Local} (h : Settled l) (hst : l.obj.state ≠ .stEnd) :
    (⟨r, .stateOut⟩ : RmEvent) ∉ l.posted.map (RmEvent.mk r) := by
  simpa using fun hm => hst (h.posted hm)

end Ways

section Runs

variable {env : Env} (hmem : env.mem = true) {evq cmdq : List RmEvent} {c : RmClock} {o : RmObj}
  (hr : o.rmid ≠ 0) {ev : RmEvId} (hpoll : Polls env o ev) (p : Option ℕ)

/-- The measurement is freed by an event, or has a way forward after it. -/
def Forward (env : Env) (evq cmdq : List RmEvent) (c : RmClock) (o : RmObj) (ev : RmEvId)
    (p : Option ℕ) : Prop :=
  (rmStateRun env (localOf o c) ev).freed = true ∨
    Way (evq ++ (rmStateRun env (localOf o c) ev).posted.map (RmEvent.mk o.rmid)) cmdq
      ⟨p, (rmStateRun env (localOf o c) ev).counter, (rmStateRun env (localOf o c) ev).evid⟩
      (rmStateRun env (localOf o c) ev).obj

theorem rmStateRun_end {l : Local} (h : l.obj.state = .stEnd) :
    (rmStateRun env l ev).obj.state = .stEnd := by
  rw [rmStateRun, h]
  have hpost : (rmPostEvent env l .stateOut).obj = l.obj := by
    unfold rmPostEvent
    split_ifs <;> rfl
  cases ev
  case stateIn => exact (congrArg RmObj.state hpost).trans h
  all_goals exact h

/-- A measurement that settles has a way forward unless a `RM_EV_state_out` is waiting for it. -/
theorem Settled.forward (h : Settled (rmStateRun env (localOf o c) ev))
    (hquiet : (rmStateRun env (localOf o c) ev).obj.state ≠ .stEnd →
      (⟨o.rmid, .stateOut⟩ : RmEvent) ∉ evq) : Forward env evq cmdq c o ev p :=
  .inr (h.way (keeps_rmStateRun env (localOf o c) ev).rmid rfl rfl hquiet)

theorem Unmoved.forward (h : Unmoved (localOf o c) (rmStateRun env (localOf o c) ev) ev)
    (hway : Way evq cmdq c o) : Forward env evq cmdq c o ev p := by
  have hk := keeps_rmStateRun env (localOf o c) ev
  have hposted : (rmStateRun env (localOf o c) ev).posted = [] := h.posted
  refine .inr ?_
  rw [hposted, List.map_nil, List.append_nil]
  exact hway.congr hk.rmid h.state hk.q h.counter h.evid

include hmem hr hpoll

/-- An event that was not waiting in front of the measurement's own. -/
theorem Way.forward (h : Way evq cmdq c o) (hne : ev ≠ .stateOut) :
    Forward env evq cmdq c o ev p := by
  have hclean : Clean (localOf o c) := ⟨hr, rfl, by simp [localOf]⟩
  rcases rmStateRun_event hmem hclean hne hpoll with hf | hs | hu
  · exact .inl hf
  · by_cases hend : (rmStateRun env (localOf o c) ev).obj.state = .stEnd
    · exact hs.forward p fun hst => absurd hend hst
    · rcases h with hfresh | ⟨hout, -⟩
      · refine .inr (.inl ?_)
        rw [(keeps_rmStateRun env (localOf o c) ev).rmid]
        exact hfresh.append_ev (hs.posted_quiet hend)
      · exact hs.forward p fun hst => hout fun ho => hst (rmStateRun_end ho)
  · exact hu.forward p h

/-- While its first `RM_EV_state_in` is to come, any event may come before it. -/
theorem Fresh.forward (h : Fresh o.rmid evq cmdq) : Forward env evq cmdq c o ev p := by
  by_cases hne : ev = .stateOut
  · subst hne
    rcases rmStateRun_stateOut env (localOf o c) with hf | ⟨-, hposted⟩
    · exact .inl hf
    · refine .inr (.inl ?_)
      rw [(keeps_rmStateRun env (localOf o c) .stateOut).rmid, hposted]
      simpa [localOf] using h
  · exact Way.forward hmem hr hpoll p (.inl h) hne

/-- The event in front of the queue, which is for the measurement. -/
theorem Way.forward_pop (h : Way (⟨o.rmid, ev⟩ :: evq) cmdq c o) :
    Forward env evq cmdq c o ev p := by
  have hclean : Clean (localOf o c) := ⟨hr, rfl, by simp [localOf]⟩
  rcases h with (h | ⟨l1, l2, heq, hl⟩) | ⟨hout, hw⟩
  · exact Fresh.forward hmem hr hpoll p (.inl h)
  · cases l1 with
    | nil =>
      obtain ⟨hev, rfl⟩ := List.cons.inj heq
      obtain rfl : ev = .stateIn := congrArg RmEvent.evid hev
      exact (rmStateRun_stateIn hmem hclean hpoll).forward p fun _ => hl
    | cons _ l1 => exact Fresh.forward hmem hr hpoll p (.inr ⟨l1, l2, (List.cons.inj heq).2, hl⟩)
  · by_cases hne : ev = .stateOut
    · subst hne
      refine .inl ?_
      have hst : o.state = .stEnd := by
        by_contra hst
        exact hout hst (by simp)
      rw [rmStateRun, show (localOf o c).obj.state = .stEnd from hst]
      rfl
    · rcases rmStateRun_event hmem hclean hne hpoll with hf | hs | hu
      · exact .inl hf
      · refine hs.forward p fun hst hm => ?_
        exact hout (fun ho => hst (rmStateRun_end ho)) (by simp [hm])
      · refine hu.forward p (.inr ⟨fun hst hm => hout hst (by simp [hm]), ?_⟩)
        rcases hw with hc | ⟨evid, hm, hw⟩
        · exact .inl hc
        · refine .inr ⟨evid, ?_, hw⟩
          rw [List.cons_append] at hm
          refine (List.mem_cons.mp hm).resolve_left fun heq => ?_
          obtain rfl : evid = ev := congrArg RmEvent.evid heq
          have hasleep : wakes o.q o.state evid = false := hu.asleep
          rw [hw] at hasleep
          cases hasleep

end Runs

/-- What running an event on a measurement leaves of the table. -/
structure Ran (env : Env) (s s' : RmPriv) (id : ℕ) (o : RmObj) (l : Local) : Prop where
  evQueue : s'.evQueue = s.evQueue ++ l.posted.map (RmEvent.mk o.rmid)
  cmdQueue : s'.cmdQueue = s.cmdQueue
  enable : s'.enable = s.enable
  heap : ∀ j, j ≠ id → s'.heap j = s.heap j
  clock : ∀ k, k ≠ o.pclock → s'.clock k = s.clock k
  queue : ∀ j ∈ s'.rmQueue, j ∈ s.rmQueue
  kept : l.freed = false → s'.heap id = some l.obj ∧
    s'.clock o.pclock = ⟨(s.clock o.pclock).prm, l.counter, l.evid⟩
  gone : l.freed = true → s'.heap id = none ∧ s'.clock o.pclock = ⟨none, 0, .evMax⟩

theorem ran_runObj (env : Env) {s : RmPriv} {id : ℕ} {o : RmObj} (ho : s.heap id = some o)
    (ev : RmEvId) :
    Ran env s (runObj env s id ev) id o (rmStateRun env (localOf o (s.clock o.pclock)) ev) := by
  have hk := keeps_rmStateRun env (localOf o (s.clock o.pclock)) ev
  generalize hl : rmStateRun env (localOf o (s.clock o.pclock)) ev = l at hk
  have hpclock : l.obj.pclock = o.pclock := hk.pclock
  rw [runObj_live env ho, hl]
  cases hf : l.freed
  · rw [if_neg (by simp)]
    refine ⟨rfl, rfl, rfl, fun j hj => ?_, fun k hk => ?_, fun j hj => hj, fun _ => ?_, by simp [hf]⟩
    · simp [storeLocal, hj]
    · simp [storeLocal, hk]
    · simp [storeLocal]
  · rw [if_pos rfl]
    have hlive : (storeLocal s id o l).heap id = some l.obj := by simp [storeLocal]
    rw [rmFreeRmobj_live hlive]
    refine ⟨rfl, rfl, rfl, fun j hj => ?_, fun k hk => ?_, fun j hj => ?_, by simp [hf], fun _ => ?_⟩
    · simp [storeLocal, hj]
    · simp [storeLocal, hpclock, hk]
    · dsimp only at hj
      split_ifs at hj
      · exact List.mem_of_mem_erase hj
      · exact hj
    · simp [storeLocal, hpclock]

/-- What every run keeps, stuck or not: `RM_EV_state_out` is posted for single measurements only,
and the measurements in the queue have their own ids. -/
structure Base (s : RmPriv) : Prop extends Owned s where
  cmds : ∀ e ∈ s.cmdQueue, e.evid ≠ .stateOut
  outs : ∀ e ∈ s.evQueue, e.evid = .stateOut → rmIsIdForAll e.rmid = false
  clocks : ∀ k, (s.clock k).evid ≠ .stateOut
  ids : ∀ id ∈ s.rmQueue, ∀ o, s.heap id = some o → o.rmid ≠ 0 ∧ rmIsIdForAll o.rmid = false
  unique : ∀ i ∈ s.rmQueue, ∀ j ∈ s.rmQueue, ∀ oi oj, s.heap i = some oi → s.heap j = some oj →
    oi.rmid = oj.rmid → i = j

/-- Every measurement in the queue has a way forward. -/
structure Inv (s : RmPriv) : Prop extends Base s where
  enabled : s.rmQueue ≠ [] → s.enable = true
  ways : ∀ id ∈ s.rmQueue, ∀ o, s.heap id = some o →
    Way s.evQueue s.cmdQueue (s.clock o.pclock) o

/-- The objects in the queue after an event are those before it, with their ids. -/
theorem Ran.object {env : Env} {s s' : RmPriv} {id : ℕ} {o : RmObj} {l : Local}
    (h : Ran env s s' id o l) (ho : s.heap id = some o) (hr : l.obj.rmid = o.rmid) {j : ℕ}
    {oj : RmObj} (hj : s'.heap j = some oj) : ∃ oj', s.heap j = some oj' ∧ oj'.rmid = oj.rmid := by
  by_cases hid : j = id
  · subst hid
    refine ⟨o, ho, ?_⟩
    cases hf : l.freed
    · rw [(h.kept hf).1] at hj
      obtain rfl := Option.some.inj hj
      exact hr.symm
    · rw [(h.gone hf).1] at hj
      cases hj
  · rw [h.heap j hid] at hj
    exact ⟨oj, hj, rfl⟩

theorem base_runObj (env : Env) {s : RmPriv} (hs : Base s) {id : ℕ} {o : RmObj}
    (ho : s.heap id = some o) (hq : id ∈ s.rmQueue) (ev : RmEvId) :
    Base (runObj env s id ev) := by
  have hran := ran_runObj env ho ev
  have hk := keeps_rmStateRun env (localOf o (s.clock o.pclock)) ev
  refine ⟨owned_runObj hs.toOwned env ho ev, ?_, ?_, fun k => ?_, ?_, ?_⟩
  · rw [hran.cmdQueue]
    exact hs.cmds
  · rw [hran.evQueue]
    intro e he hout
    rcases List.mem_append.mp he with he | he
    · exact hs.outs e he hout
    · obtain ⟨evid, -, rfl⟩ := List.mem_map.mp he
      exact (hs.ids id hq o ho).2
  · by_cases hkk : k = o.pclock
    · subst hkk
      cases hf : (rmStateRun env (localOf o (s.clock o.pclock)) ev).freed
      · rw [(hran.kept hf).2]
        exact hk.evid (hs.clocks _)
      · rw [(hran.gone hf).2]
        exact nofun
    · rw [hran.clock k hkk]
      exact hs.clocks k
  · intro j hj oj hoj
    obtain ⟨oj', hoj', hrmid⟩ := hran.object ho hk.rmid hoj
    rw [← hrmid]
    exact hs.ids j (hran.queue j hj) oj' hoj'
  · intro i hi j hj oi oj hoi hoj heq
    obtain ⟨oi', hoi', hri⟩ := hran.object ho hk.rmid hoi
    obtain ⟨oj', hoj', hrj⟩ := hran.object ho hk.rmid hoj
    exact hs.unique i (hran.queue i hi) j (hran.queue j hj) oi' oj' hoi' hoj'
      (hri.trans (heq.trans hrj.symm))

/-- One measurement is run: it goes forward, and the others keep their ways. -/
theorem inv_runObj {env : Env} {s : RmPriv} (hs : Base s) (hon : s.rmQueue ≠ [] → s.enable = true)
    {id : ℕ} {o : RmObj} (ho : s.heap id = some o) (hq : id ∈ s.rmQueue) {ev : RmEvId}
    (hself : Forward env s.evQueue s.cmdQueue (s.clock o.pclock) o ev (s.clock o.pclock).prm)
    (hothers : ∀ j ∈ s.rmQueue, j ≠ id → ∀ oj, s.heap j = some oj →
      Way s.evQueue s.cmdQueue (s.clock oj.pclock) oj) : Inv (runObj env s id ev) := by
  have hran := ran_runObj env ho ev
  have hk := keeps_rmStateRun env (localOf o (s.clock o.pclock)) ev
  refine ⟨base_runObj env hs ho hq ev, fun _ => ?_, fun j hj oj hoj => ?_⟩
  · rw [hran.enable]
    exact hon (List.ne_nil_of_mem hq)
  · rw [hran.evQueue, hran.cmdQueue]
    by_cases hid : j = id
    · subst hid
      cases hf : (rmStateRun env (localOf o (s.clock o.pclock)) ev).freed
      · rw [(hran.kept hf).1] at hoj
        obtain rfl := Option.some.inj hoj
        have hpclock : (rmStateRun env (localOf o (s.clock o.pclock)) ev).obj.pclock = o.pclock :=
          hk.pclock
        rw [hpclock, (hran.kept hf).2]
        exact hself.resolve_left (by simp [hf])
      · rw [(hran.gone hf).1] at hoj
        cases hoj
    · rw [hran.heap j hid] at hoj
      have hjq := hran.queue j hj
      have hslot : oj.pclock ≠ o.pclock := fun heq =>
        ((ownsResources_iff s).mpr hs.toOwned).distinct j id oj o hoj ho hid heq
      rw [hran.clock _ hslot]
      refine (hothers j hjq hid oj hoj).append_ev fun hm => ?_
      obtain ⟨evid, -, heq⟩ := List.mem_map.mp hm
      exact hid (hs.unique j hjq id hq oj o hoj ho (congrArg RmEvent.rmid heq).symm)

/-- Whether an event is for the measurement. -/
def Reaches (e : RmEvent) (o : RmObj) : Prop :=
  if rmIsIdForAll e.rmid then rmGetAid e.rmid = rmGetAid o.rmid else e.rmid = o.rmid

theorem inv_bcast {env : Env} (hmem : env.mem = true) {e : RmEvent} (he : e.evid ≠ .stateOut)
    {ids : List ℕ} {s : RmPriv} (hs : Inv s) (hnd : ids.Nodup) (hsub : ∀ id ∈ ids, id ∈ s.rmQueue)
    (hpolls : ∀ id ∈ ids, ∀ o, s.heap id = some o → rmGetAid e.rmid = rmGetAid o.rmid →
      Polls env o e.evid) : Inv (ids.foldl (bcastOne env e) s) := by
  induction ids generalizing s with
  | nil => exact hs
  | cons id ids ih =>
    obtain ⟨hid, hnd⟩ := List.nodup_cons.mp hnd
    have hq := hsub id (by simp)
    obtain ⟨o, ho, -⟩ := (hs.queued id).mp hq
    have hone : bcastOne env e s id =
        if rmGetAid e.rmid == rmGetAid o.rmid then runObj env s id e.evid else s := by
      rw [bcastOne, ho]
    rw [List.foldl_cons, hone]
    split_ifs with haid
    · have hran := ran_runObj env ho e.evid
      have hpoll := hpolls id (by simp) o ho (by simpa using haid)
      have hself := (hs.ways id hq o ho).forward hmem (hs.ids id hq o ho).1 hpoll
        (s.clock o.pclock).prm he
      refine ih (inv_runObj hs.toBase hs.enabled ho hq hself fun j hj _ => hs.ways j hj) hnd ?_ ?_
      · intro j hj
        have hne : j ≠ id := fun h => hid (h ▸ hj)
        exact (mem_rmQueue_runObj env ho e.evid hne).mpr (hsub j (by simp [hj]))
      · intro j hj oj hoj
        have hne : j ≠ id := fun h => hid (h ▸ hj)
        rw [hran.heap j hne] at hoj
        exact hpolls j (by simp [hj]) oj hoj
    · exact ih hs hnd (fun j hj => hsub j (by simp [hj])) fun j hj => hpolls j (by simp [hj])

theorem rmGetRmobj_none {s : RmPriv} {rmid : ℕ} (h : rmGetRmobj s rmid = none) {id : ℕ}
    (hid : id ∈ s.rmQueue) {o : RmObj} (ho : s.heap id = some o) (hr : o.rmid ≠ 0) :
    rmid ≠ o.rmid := by
  rintro rfl
  rw [rmGetRmobj, if_neg (by simpa using hr), List.find?_eq_none] at h
  simpa [ho] using h id hid

theorem inv_rmHandler {env : Env} (hmem : env.mem = true) {s : RmPriv} (hs : Inv s)
    (hpolls : ∀ e es, s.evQueue = e :: es → ∀ id ∈ s.rmQueue, ∀ o, s.heap id = some o →
      Reaches e o → Polls env o e.evid) : Inv (rmHandler env s) := by
  unfold rmHandler
  split
  · exact hs
  · next e es hev =>
    replace hpolls := hpolls e es hev
    have hpop : SameOwner s { s with evQueue := es } :=
      ⟨fun _ => rfl, rfl, fun _ => rfl, rfl, rfl, rfl⟩
    have hbase : Base { s with evQueue := es } :=
      ⟨hpop.owned hs.toOwned, hs.cmds, fun e' he' => hs.outs e' (by simp [hev, he']), hs.clocks,
        hs.ids, hs.unique⟩
    have hother : ∀ j ∈ s.rmQueue, ∀ oj, s.heap j = some oj → e.rmid ≠ oj.rmid →
        Way es s.cmdQueue (s.clock oj.pclock) oj := fun j hj oj hoj hne =>
      Way.pop_other (hev ▸ hs.ways j hj oj hoj) hne
    unfold dispatch
    split_ifs with hall
    · have hne : e.evid ≠ .stateOut := fun hout => by
        have := hs.outs e (by simp [hev]) hout
        rw [this] at hall
        cases hall
      refine inv_bcast hmem hne ⟨hbase, hs.enabled, fun j hj oj hoj => ?_⟩ hs.nodup
        (fun _ h => h) fun id hid o ho haid => hpolls id hid o ho ?_
      · refine hother j hj oj hoj fun heq => ?_
        rw [heq, (hs.ids j hj oj hoj).2] at hall
        cases hall
      · rw [Reaches, if_pos hall]
        exact haid
    · split
      · next hget =>
        refine ⟨hbase, hs.enabled, fun j hj oj hoj => hother j hj oj hoj ?_⟩
        exact rmGetRmobj_none hget hj hoj (hs.ids j hj oj hoj).1
      · next id hget =>
        obtain ⟨hq, o, ho, hr⟩ := rmGetRmobj_some hget
        have hpoll := hpolls id hq o ho (by rw [Reaches, if_neg hall]; exact hr.symm)
        have hway : Way (⟨o.rmid, e.evid⟩ :: es) s.cmdQueue (s.clock o.pclock) o := by
          have := hs.ways id hq o ho
          rw [hev] at this
          rw [hr]
          exact this
        refine inv_runObj hbase hs.enabled ho hq
          (hway.forward_pop hmem (hs.ids id hq o ho).1 hpoll _) fun j hj hne oj hoj => ?_
        refine hother j hj oj hoj fun heq => hne ?_
        exact hs.unique j hj id hq oj o hoj ho (heq.symm.trans hr.symm)

theorem inv_rtwInitRm : Inv rtwInitRm where
  toOwned := owned_rtwInitRm
  cmds := by simp [rtwInitRm]
  outs := by simp [rtwInitRm]
  clocks _ := nofun
  ids := by simp [rtwInitRm]
  unique := by simp [rtwInitRm]
  enabled _ := rfl
  ways := by simp [rtwInitRm]

theorem base_rmPostEventCmd {s : RmPriv} (hs : Base s) (mem : Bool) {e : RmEvent}
    (he : e.evid ≠ .stateOut) : Base (rmPostEventCmd s mem e) := by
  have howned := (sameOwner_rmPostEventCmd s mem e).owned hs.toOwned
  unfold rmPostEventCmd at *
  split_ifs at *
  · exact hs
  · refine ⟨howned, fun e' he' => ?_, hs.outs, hs.clocks, hs.ids, hs.unique⟩
    rcases List.mem_append.mp he' with h | h
    · exact hs.cmds e' h
    · rw [List.mem_singleton.mp h]
      exact he

theorem inv_rmPostEventCmd {s : RmPriv} (hs : Inv s) (mem : Bool) {e : RmEvent}
    (he : e.evid ≠ .stateOut) : Inv (rmPostEventCmd s mem e) := by
  have hbase := base_rmPostEventCmd hs.toBase mem he
  unfold rmPostEventCmd at *
  split_ifs at *
  · exact hs
  · exact ⟨hbase, hs.enabled, fun id hid o ho => (hs.ways id hid o ho).append_cmd e⟩

theorem inv_rmPostEventHdl {s : RmPriv} (hs : Inv s) : Inv (rmPostEventHdl s true) := by
  have howned := (sameOwner_rmPostEventHdl s true).owned hs.toOwned
  unfold rmPostEventHdl at *
  split
  · exact hs
  · next e es hcmd =>
    have he : e.evid ≠ .stateOut := hs.cmds e (by simp [hcmd])
    have hcmds : ∀ e' ∈ es, e'.evid ≠ .stateOut := fun e' he' => hs.cmds e' (by simp [hcmd, he'])
    have hways : ∀ id ∈ s.rmQueue, ∀ o, s.heap id = some o →
        Way (if e.evid == .evMax || e.rmid == 0 then s.evQueue else s.evQueue ++ [e]) es
          (s.clock o.pclock) o := fun id hid o ho =>
      Way.hdl (hcmd ▸ hs.ways id hid o ho) (hs.ids id hid o ho).1 he
    simp only [hcmd, rmPostEventSync, Bool.not_true, Bool.or_false] at howned ⊢
    split_ifs at howned hways ⊢
    · exact ⟨⟨howned, hcmds, hs.outs, hs.clocks, hs.ids, hs.unique⟩, hs.enabled, hways⟩
    · refine ⟨⟨howned, hcmds, fun e' he' hout => ?_, hs.clocks, hs.ids, hs.unique⟩, hs.enabled,
        hways⟩
      rcases List.mem_append.mp he' with h | h
      · exact hs.outs e' h hout
      · rw [List.mem_singleton.mp h] at hout
        exact absurd hout he

/-- What the way forward of an object depends on. -/
structure SameObj (o o' : RmObj) : Prop where
  rmid : o'.rmid = o.rmid
  state : o'.state = o.state
  q : o'.q = o.q
  pclock : o'.pclock = o.pclock

/-- A step that leaves alone the queues, the measurements in the queue and their clocks. -/
theorem Inv.frame {s s' : RmPriv} (hs : Inv s) (howned : Owned s')
    (hq : s'.rmQueue = s.rmQueue) (hev : s'.evQueue = s.evQueue) (hcmd : s'.cmdQueue = s.cmdQueue)
    (hen : s'.enable = s.enable) (hclocks : ∀ k, (s'.clock k).evid ≠ .stateOut)
    (hheap : ∀ id ∈ s.rmQueue, ∀ o', s'.heap id = some o' →
      ∃ o, s.heap id = some o ∧ SameObj o o')
    (hclock : ∀ id ∈ s.rmQueue, ∀ o, s.heap id = some o → s'.clock o.pclock = s.clock o.pclock) :
    Inv s' := by
  refine ⟨⟨howned, by rw [hcmd]; exact hs.cmds, by rw [hev]; exact hs.outs, hclocks, ?_, ?_⟩,
    by rw [hq, hen]; exact hs.enabled, ?_⟩
  · rw [hq]
    intro id hid o' ho'
    obtain ⟨o, ho, hsame⟩ := hheap id hid o' ho'
    rw [hsame.rmid]
    exact hs.ids id hid o ho
  · rw [hq]
    intro i hi j hj oi' oj' hoi' hoj' heq
    obtain ⟨oi, hoi, hsi⟩ := hheap i hi oi' hoi'
    obtain ⟨oj, hoj, hsj⟩ := hheap j hj oj' hoj'
    exact hs.unique i hi j hj oi oj hoi hoj (hsi.rmid.symm.trans (heq.trans hsj.rmid))
  · rw [hq, hev, hcmd]
    intro id hid o' ho'
    obtain ⟨o, ho, hsame⟩ := hheap id hid o' ho'
    rw [hsame.pclock, hclock id hid o ho]
    exact (hs.ways id hid o ho).congr hsame.rmid hsame.state hsame.q rfl rfl

theorem inv_rmAllocRmobj {s : RmPriv} (hs : Inv s) (mem : Bool)
    (hfree : mem = true → (freeSlot s.clock).isSome) : Inv (rmAllocRmobj s mem).1 := by
  have howned := owned_rmAllocRmobj hs.toOwned mem hfree
  cases mem
  · exact hs
  obtain ⟨i, hi⟩ := Option.isSome_iff_exists.mp (hfree rfl)
  have hclock : (rmAllocRmobj s true).1.clock =
      Function.update s.clock i ⟨some s.next, 0, .evMax⟩ := by
    simp [rmAllocRmobj, rmAllocClock, hi]
  refine hs.frame howned rfl rfl rfl rfl (fun k => ?_) (fun id hid o ho => ?_) fun id hid o ho => ?_
  · rw [hclock]
    by_cases hk : k = i
    · simp [hk]
    · simpa [hk] using hs.clocks k
  · have hne : id ≠ s.next := by
      rintro rfl
      obtain ⟨o, ho, -⟩ := (hs.queued _).mp hid
      exact lt_irrefl _ (hs.bound _ o ho)
    refine ⟨o, ?_, rfl, rfl, rfl, rfl⟩
    simpa [rmAllocRmobj, hne] using ho
  · have hslot : o.pclock ≠ i := by
      rintro rfl
      have := (hs.slot o.pclock id).mpr ⟨o, ho, rfl⟩
      rw [freeSlot_some hi] at this
      cases this
    rw [hclock, Function.update_of_ne hslot]

theorem inv_release {s : RmPriv} (hs : Inv s) {id : ℕ} (hfresh : s.fresh id) :
    Inv (rmFreeRmobj s id) := by
  obtain ⟨o, ho, hl⟩ : ∃ o, s.heap id = some o ∧ o.linked = false := by
    simpa [RmPriv.fresh, Option.any_eq_true] using hfresh
  have hne : ∀ j ∈ s.rmQueue, j ≠ id := by
    rintro j hj rfl
    obtain ⟨o', ho', hl'⟩ := (hs.queued j).mp hj
    rw [ho] at ho'
    obtain rfl := Option.some.inj ho'
    simp [hl] at hl'
  have howned := owned_rmFreeRmobj hs.toOwned ho
  rw [rmFreeRmobj_live ho] at howned ⊢
  refine hs.frame howned (by simp [hl]) rfl rfl rfl (fun k => ?_) (fun j hj oj hoj => ?_)
    fun j hj oj hoj => ?_
  · by_cases hk : k = o.pclock
    · simp [hk]
    · simpa [hk] using hs.clocks k
  · simp only [Function.update_of_ne (hne j hj)] at hoj
    exact ⟨oj, hoj, rfl, rfl, rfl, rfl⟩
  · have hslot : oj.pclock ≠ o.pclock := fun heq =>
      ((ownsResources_iff s).mpr hs.toOwned).distinct j id oj o hoj ho (hne j hj) heq
    exact Function.update_of_ne hslot _ _

theorem inv_recvReport {s : RmPriv} (hs : Inv s) (mem : Bool) (rmid : ℕ) (k : ReportKind)
    (p : RmMeasRep) : Inv (recvReport s mem rmid k p) := by
  unfold recvReport
  split
  · exact hs
  · next id hget =>
    obtain ⟨hq, o, ho, -⟩ := rmGetRmobj_some hget
    rw [ho]
    have hsame : SameObj o (o.reported p k) := by cases k <;> exact ⟨rfl, rfl, rfl, rfl⟩
    have hrep := sameOwner_reported ho p k
    have hinv : Inv { s with heap := Function.update s.heap id (some (o.reported p k)) } := by
      refine hs.frame (hrep.owned hs.toOwned) rfl rfl rfl rfl hs.clocks (fun j _ oj hoj => ?_)
        fun _ _ _ _ => rfl
      by_cases hj : j = id
      · subst hj
        simp only [Function.update_self, Option.some.injEq] at hoj
        exact ⟨o, ho, hoj ▸ hsame⟩
      · simp only [Function.update_of_ne hj] at hoj
        exact ⟨oj, hoj, rfl, rfl, rfl, rfl⟩
    cases k with
    | radio =>
      dsimp only
      split_ifs
      · exact hinv
      · exact inv_rmPostEventCmd hinv mem nofun
    | link => exact inv_rmPostEventCmd hinv mem nofun
    | nb => exact inv_rmPostEventCmd hinv mem nofun

theorem rmGenRmid_unicast (r : Request) : rmIsIdForAll (rmGenRmid r) = false := by
  have hbit : (rmGenRmid r).testBit 1 = false := by
    unfold rmGenRmid
    split_ifs
    · rfl
    · have hrole : Nat.testBit 1 1 = false := by decide
      simp [Nat.testBit_or, Nat.testBit_shiftLeft, hrole]
    · simp [Nat.testBit_or, Nat.testBit_shiftLeft]
  have hand : rmGenRmid r &&& 2 = 0 := by
    have := Nat.and_two_pow (rmGenRmid r) 1
    simpa [hbit] using this
  simp [rmIsIdForAll, hand]

theorem inv_rmEnqueueRmobj {s : RmPriv} (hs : Inv s) {id : ℕ} (hfresh : s.fresh id)
    (toHead : Bool) {r : Request} (hon : s.enable = true) (hr : rmGenRmid r ≠ 0)
    (hnew : ∀ j ∈ s.rmQueue, ∀ o, s.heap j = some o → o.rmid ≠ rmGenRmid r) :
    Inv (rmEnqueueRmobj s id toHead r true) := by
  have howned := owned_rmEnqueueRmobj hs.toOwned hfresh toHead r true
  obtain ⟨o, ho, hl⟩ : ∃ o, s.heap id = some o ∧ o.linked = false := by
    simpa [RmPriv.fresh, Option.any_eq_true] using hfresh
  have heq : rmEnqueueRmobj s id toHead r true =
      { s with
        heap := Function.update s.heap id (some (o.requested r))
        rmQueue := if toHead then id :: s.rmQueue else s.rmQueue ++ [id]
        cmdQueue := s.cmdQueue ++ [⟨rmGenRmid r, .stateIn⟩] } := by
    rw [rmEnqueueRmobj, ho]
    simp [rmPostEventCmd, hon]
  have hmem : ∀ j, j ∈ (if toHead then id :: s.rmQueue else s.rmQueue ++ [id]) ↔
      j = id ∨ j ∈ s.rmQueue := by
    intro j
    cases toHead <;> simp [or_comm]
  have hobj : ∀ j oj, (j = id ∨ j ∈ s.rmQueue) →
      Function.update s.heap id (some (o.requested r)) j = some oj →
      (j = id ∧ oj = o.requested r) ∨ (j ≠ id ∧ j ∈ s.rmQueue ∧ s.heap j = some oj) := by
    intro j oj hj hoj
    by_cases hid : j = id
    · subst hid
      simp only [Function.update_self, Option.some.injEq] at hoj
      exact .inl ⟨rfl, hoj.symm⟩
    · rw [Function.update_of_ne hid] at hoj
      exact .inr ⟨hid, hj.resolve_left hid, hoj⟩
  rw [heq] at howned ⊢
  refine ⟨⟨howned, fun e he => ?_, hs.outs, hs.clocks, fun j hj oj hoj => ?_, ?_⟩, fun _ => hon,
    fun j hj oj hoj => ?_⟩
  · rcases List.mem_append.mp he with h | h
    · exact hs.cmds e h
    · rw [List.mem_singleton.mp h]
      simp
  · rcases hobj j oj ((hmem j).mp hj) hoj with ⟨-, rfl⟩ | ⟨-, hjq, hoj⟩
    · exact ⟨hr, rmGenRmid_unicast r⟩
    · exact hs.ids j hjq oj hoj
  · intro a ha b hb oa ob hoa hob hab
    rcases hobj a oa ((hmem a).mp ha) hoa with ⟨rfl, rfl⟩ | ⟨-, haq, hoa⟩
    · rcases hobj b ob ((hmem b).mp hb) hob with ⟨rfl, -⟩ | ⟨-, hbq, hob⟩
      · rfl
      · exact absurd hab.symm (hnew b hbq ob hob)
    · rcases hobj b ob ((hmem b).mp hb) hob with ⟨-, rfl⟩ | ⟨-, hbq, hob⟩
      · exact absurd hab (hnew a haq oa hoa)
      · exact hs.unique a haq b hbq oa ob hoa hob hab
  · rcases hobj j oj ((hmem j).mp hj) hoj with ⟨-, rfl⟩ | ⟨-, hjq, hoj⟩
    · exact .inl (.inl (by simp [RmObj.requested]))
    · exact (hs.ways j hjq oj hoj).append_cmd _

/-- A clock that runs down becomes a pending event. -/
theorem Way.tick {evq cmdq : List RmEvent} {c : RmClock} {o : RmObj} (h : Way evq cmdq c o) :
    Way evq (cmdq ++ [⟨o.rmid, c.evid⟩]) { c with counter := c.counter - 1 } o := by
  rcases h with h | ⟨hout, ⟨-, hw⟩ | ⟨evid, hm, hw⟩⟩
  · exact Way.append_cmd (.inl h) _
  · exact .inr ⟨hout, .inr ⟨c.evid, by simp, hw⟩⟩
  · exact Way.append_cmd (.inr ⟨hout, .inr ⟨evid, hm, hw⟩⟩) _

theorem Way.countdown {evq cmdq : List RmEvent} {c : RmClock} {o : RmObj}
    (h : Way evq cmdq c o) (hc : 1 < c.counter) :
    Way evq cmdq { c with counter := c.counter - 1 } o := by
  rcases h with h | ⟨hout, ⟨-, hw⟩ | hw⟩
  · exact .inl h
  · exact .inr ⟨hout, .inl ⟨Nat.sub_pos_of_lt hc, hw⟩⟩
  · exact .inr ⟨hout, .inr hw⟩

theorem base_decSlot {s : RmPriv} (hs : Base s) (i : Fin rmTimerNum) : Base (decSlot s i) := by
  refine ⟨(sameOwner_decSlot s i).owned hs.toOwned, hs.cmds, hs.outs, fun k => ?_, hs.ids,
    hs.unique⟩
  by_cases hk : k = i
  · simpa [decSlot, hk] using hs.clocks i
  · simpa [decSlot, hk] using hs.clocks k

theorem inv_tickSlot {s : RmPriv} (hs : Inv s) (i : Fin rmTimerNum) : Inv (tickSlot true s i) := by
  unfold tickSlot
  split
  · exact hs
  · next id hprm =>
    obtain ⟨o, ho, -⟩ := (hs.slot i id).mp hprm
    have hmine : ∀ j oj, s.heap j = some oj → oj.pclock = i → oj = o := by
      intro j oj hoj hj
      have hj' := (hs.slot i j).mpr ⟨oj, hoj, hj⟩
      rw [hprm] at hj'
      obtain rfl := Option.some.inj hj'
      rw [ho] at hoj
      exact (Option.some.inj hoj).symm
    have hself : (decSlot s i).clock i = { s.clock i with counter := (s.clock i).counter - 1 } := by
      simp [decSlot]
    have hother : ∀ k, k ≠ i → (decSlot s i).clock k = s.clock k := fun k hk => by
      simp [decSlot, hk]
    split_ifs with h0 h1
    · exact hs
    · rw [ho]
      dsimp only
      by_cases hempty : s.rmQueue = []
      · have hpost : (rmPostEventCmd (decSlot s i) true ⟨o.rmid, (s.clock i).evid⟩).rmQueue = [] :=
          (sameOwner_rmPostEventCmd _ true _).rmQueue.trans hempty
        refine ⟨base_rmPostEventCmd (base_decSlot hs.toBase i) true (hs.clocks i),
          fun h => absurd hpost h, ?_⟩
        simp [hpost]
      · have hon := hs.enabled hempty
        have hbase := base_rmPostEventCmd (base_decSlot hs.toBase i) true
          (e := ⟨o.rmid, (s.clock i).evid⟩) (hs.clocks i)
        have hpost : rmPostEventCmd (decSlot s i) true ⟨o.rmid, (s.clock i).evid⟩ =
            { decSlot s i with cmdQueue := s.cmdQueue ++ [⟨o.rmid, (s.clock i).evid⟩] } := by
          simp [rmPostEventCmd, decSlot, hon]
        rw [hpost] at hbase ⊢
        refine ⟨hbase, fun _ => hon, fun j hj oj hoj => ?_⟩
        have hway := hs.ways j hj oj hoj
        by_cases hk : oj.pclock = i
        · obtain rfl := hmine j oj hoj hk
          rw [hk] at hway ⊢
          dsimp only
          rw [hself]
          exact hway.tick
        · dsimp only
          rw [hother _ hk]
          exact hway.append_cmd _
    · refine ⟨base_decSlot hs.toBase i, hs.enabled, fun j hj oj hoj => ?_⟩
      have hway := hs.ways j hj oj hoj
      by_cases hk : oj.pclock = i
      · rw [hk] at hway ⊢
        rw [hself]
        have hc : 1 < (s.clock i).counter := by
          rw [beq_iff_eq] at h0 h1
          omega
        exact hway.countdown hc
      · rw [hother _ hk]
        exact hway

theorem inv_rmTimerCallback {s : RmPriv} (hs : Inv s) : Inv (rmTimerCallback true s) := by
  unfold rmTimerCallback
  induction List.finRange rmTimerNum generalizing s with
  | nil => exact hs
  | cons i is ih => exact ih (inv_tickSlot hs i)

theorem base_cancelAll (env : Env) (n : ℕ) {s : RmPriv} (hs : Base s) :
    Base (cancelAll env n s) := by
  induction n generalizing s with
  | zero => exact hs
  | succ n ih =>
    cases hq : s.rmQueue with
    | nil =>
      simp only [cancelAll, hq]
      exact hs
    | cons id ids =>
      have hmem : id ∈ s.rmQueue := by simp [hq]
      obtain ⟨o, ho, -⟩ := (hs.queued id).mp hmem
      simp only [cancelAll, hq]
      exact ih (base_runObj env hs ho hmem .cancel)

theorem inv_rtwDeinitRm (env : Env) {s : RmPriv} (hs : Inv s) : Inv (rtwDeinitRm env s) := by
  have hempty := (rtwDeinitRm_spec env hs.toOwned).2
  have hstop : SameOwner s { s with enable := false, evQueue := [] } :=
    ⟨fun _ => rfl, rfl, fun _ => rfl, rfl, rfl, rfl⟩
  have hbase : Base { s with enable := false, evQueue := [] } :=
    ⟨hstop.owned hs.toOwned, hs.cmds, by simp, hs.clocks, hs.ids, hs.unique⟩
  exact ⟨base_cancelAll env _ hbase, fun h => absurd hempty h, by simp [hempty]⟩

/-- What a run must do for its measurements not to get stuck: an object is allocated while a clock
slot is free; a measurement goes into the queue of an enabled table with an id of its own, other
than 0; events can be allocated; `RM_EV_state_out` is posted by the state machine only; and a
channel load or noise histogram is measured on the current channel. -/
def Orderly (s : RmPriv) : Act → Prop
  | .alloc mem => mem = true → (freeSlot s.clock).isSome
  | .enqueue _ _ r mem => s.enable = true ∧ mem = true ∧ rmGenRmid r ≠ 0 ∧
      ∀ id ∈ s.rmQueue, ∀ o, s.heap id = some o → o.rmid ≠ rmGenRmid r
  | .post e _ => e.evid ≠ .stateOut
  | .hdl mem => mem = true
  | .handle env => env.mem = true ∧ ∀ e es, s.evQueue = e :: es → ∀ id ∈ s.rmQueue,
      ∀ o, s.heap id = some o → Reaches e o → Polls env o e.evid
  | .tick mem => mem = true
  | _ => True

theorem inv_step {s : RmPriv} (hs : Inv s) {a : Act} (ha : Orderly s a) : Inv (step s a) := by
  cases a with
  | alloc mem => exact inv_rmAllocRmobj hs mem ha
  | enqueue id toHead r mem =>
    obtain ⟨hon, rfl, hr, hnew⟩ := ha
    simp only [step]
    split_ifs with hfresh
    · exact inv_rmEnqueueRmobj hs hfresh toHead hon hr hnew
    · exact hs
  | release id =>
    simp only [step]
    split_ifs with hfresh
    · exact inv_release hs hfresh
    · exact hs
  | post e mem => exact inv_rmPostEventCmd hs mem ha
  | report rmid k p mem => exact inv_recvReport hs mem rmid k p
  | hdl mem =>
    obtain rfl : mem = true := ha
    exact inv_rmPostEventHdl hs
  | handle env => exact inv_rmHandler ha.1 hs ha.2
  | tick mem =>
    obtain rfl : mem = true := ha
    exact inv_rmTimerCallback hs
  | deinit env => exact inv_rtwDeinitRm env hs

/-- Every measurement in the queue has a pending event or an armed clock. One that waits for a site
survey has its clock armed as well. -/
def NotStuck (s : RmPriv) : Prop :=
  ∀ id ∈ s.rmQueue, ∃ o, s.heap id = some o ∧
    ((∃ e ∈ s.evQueue ++ s.cmdQueue, e.rmid = o.rmid) ∨ 0 < (s.clock o.pclock).counter)

theorem Inv.notStuck {s : RmPriv} (hs : Inv s) : NotStuck s := by
  intro id hid
  obtain ⟨o, ho, -⟩ := (hs.queued id).mp hid
  refine ⟨o, ho, ?_⟩
  rcases hs.ways id hid o ho with (h | ⟨l1, l2, heq, -⟩) | ⟨-, ⟨hc, -⟩ | ⟨evid, hm, -⟩⟩
  · exact .inl ⟨_, List.mem_append_right _ h, rfl⟩
  · exact .inl ⟨⟨o.rmid, .stateIn⟩, by simp [heq], rfl⟩
  · exact .inr hc
  · exact .inl ⟨_, hm, rfl⟩

/-- No measurement gets stuck in a run that is orderly. -/
theorem rm_never_stuck (as : List Act) (h : Along step Orderly rtwInitRm as) :
    NotStuck (run step rtwInitRm as) := by
  have hinv : Inv (run step rtwInitRm as) :=
    run_invariant (fun _ _ hs ha => inv_step hs ha) inv_rtwInitRm h
  exact hinv.notStuck

/-- A request of the peer for the load of channel 6. -/
def loadRequest : Request where
  aid := 1
  master := false
  q := ⟨actRadioMeasReq, 7, 0, 1, 0, chLoadReq, 81, 6⟩
  mMode := 0

def loadRun (curChannel : ℕ) : List Act :=
  [.alloc true, .enqueue 0 false loadRequest true, .hdl true, .handle ⟨curChannel, true, true, true⟩]

/-- The request stays in the queue with nothing to come for it, and no site survey was started. -/
theorem load_request_stuck : ¬ NotStuck (run step rtwInitRm (loadRun 1)) ∧
    (run step rtwInitRm (loadRun 1)).surveys = [] := by
  refine ⟨fun h => ?_, by decide⟩
  obtain ⟨o, ho, hway⟩ := h 0 (by decide)
  have hclock : ∀ k, ((run step rtwInitRm (loadRun 1)).clock k).counter = 0 := by decide
  have hev : (run step rtwInitRm (loadRun 1)).evQueue ++
      (run step rtwInitRm (loadRun 1)).cmdQueue = [] := by decide
  rw [hev, hclock] at hway
  simp at hway

theorem rm_never_stuck_load : NotStuck (run step rtwInitRm (loadRun 6)) := by
  refine rm_never_stuck (loadRun 6) ?_
  refine ⟨fun _ => by decide, ⟨rfl, rfl, by decide, by decide⟩, rfl, ⟨rfl, ?_⟩, trivial⟩
  intro e es hev id hid o ho _ _ _ _
  obtain ⟨rfl, -⟩ := List.cons.inj hev
  obtain rfl : id = 0 := List.mem_singleton.mp hid
  obtain rfl := Option.some.inj ho
  exact .inr ⟨rfl, rfl, rfl⟩

end Rtl8821cu.Rm
