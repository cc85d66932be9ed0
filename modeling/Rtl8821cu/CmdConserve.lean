import Rtl8821cu.CmdQueue

/-! Commands are neither lost nor handled twice: a call tells whether its command was queued, each
command that was is taken off in its turn and ends once, and one that was not is freed. A command
that is too large is what breaks it. -/
namespace Rtl8821cu.Cmd
open History Run

def Act.isSignal : Act → Bool
  | .signalled _ => true
  | _ => false

/-- The command that the thread has in its hands. -/
def Pc.ids : Pc → List ℕ
  | .hdl id _ => [id]
  | .post id _ _ => [id]
  | _ => []

/-- The commands that are queued or in the thread's hands. -/
def CmdPriv.ids (s : CmdPriv) : List ℕ := s.queue.map Prod.fst ++ s.pc.ids

/-- The history of a command that is queued or in the thread's hands. -/
structure Open (h : List Act) : Prop where
  queued : h.count .queued = 1
  taken : h.count .taken ≤ 1
  handled : h.count .handled ≤ 1
  freed : h.count (.freed .obj) + h.count .passed = 0
  signalled : h.countP Act.isSignal = 0

/-- The history of a queued command that the thread is done with: it was taken off once, its
handler ran at most once, it was freed or passed to its callback once, with the buffer of its
parameters freed or given to the handler, and its waiter was signalled once. -/
structure Done (c : CmdObj) (h : List Act) : Prop where
  queued : h.count .queued = 1
  taken : h.count .taken = 1
  handled : h.count .handled ≤ 1
  ends : h.count (.freed .obj) + h.count .passed = 1
  buffers : h.count .passed = 0 → ∀ b, b ≠ .extra →
    h.count (.freed b) = if c.owns b then 1 else 0
  extra : c.owns .extra = true → h.count (.freed .extra) + h.count .handled = 1
  signalled : h.countP Act.isSignal = if c.sctx then 1 else 0

/-- What is promised of the commands that calls were made with. -/
structure Conserved (s : CmdPriv) : Prop where
  called : ∀ id c, s.cmds[id]? = some c →
    (Act.called true ∈ hist id s.log ↔ Act.queued ∈ hist id s.log)
  refused : ∀ id c, s.cmds[id]? = some c → Act.queued ∉ hist id s.log →
    ∀ b, (hist id s.log).count (.freed b) = if c.owns b then 1 else 0
  fifo : order .queued s.log = order .taken s.log ++ s.queue.map Prod.fst
  pending : ∀ id ∈ s.ids, Open (hist id s.log)
  done : ∀ id c, s.cmds[id]? = some c → Act.queued ∈ hist id s.log → id ∉ s.ids →
    Done c (hist id s.log)
  awake : s.pc = .wait → s.queue ≠ [] → 0 < s.sema
  drained : s.pc = .exited → s.ids = []

/-- A command that passes the filter is not too large. -/
def SizeOk (s : CmdPriv) : Ev → Prop
  | .enqueue c => s.rtwCmdFilter c = true → c.cmdsz ≤ maxCmdsz
  | _ => True

/-- What happens to a command that is not queued; the call tells so unless it is too large. -/
def Rejected (c : CmdObj) (h : List Act) : Prop :=
  ∃ res, h = c.free .extra ++ c.rtwFreeCmdObj ++ [.called res] ∧
    (res = true → maxCmdsz < c.cmdsz)

/-- What happens to a command from its dequeue to `post_process`. -/
def Middle (c : CmdObj) (m : List Act) : Prop :=
  m = [.taken] ∧ c.owns .extra = false ∨ m = [.taken] ++ c.free .extra ∨ m = [.taken, .handled]

/-- What happens to a command that the thread finishes. -/
def Finished (c : CmdObj) (h : List Act) : Prop :=
  ∃ m status ends, Middle c m ∧ (ends = [.passed] ∨ ends = c.rtwFreeCmdObj) ∧
    h = [Act.queued, .called true] ++ m ++ c.signal status ++ ends

section Counts

variable (c : CmdObj) {m h : List Act}

@[simp] theorem CmdObj.owns_obj : c.owns .obj = true := rfl

theorem CmdObj.count_free (b : Buf) (a : Act) :
    (c.free b).count a = if a = .freed b ∧ c.owns b = true then 1 else 0 := by
  unfold CmdObj.free
  by_cases hown : c.owns b = true
  · by_cases ha : a = .freed b
    · subst ha
      simp [hown]
    · simp [hown, ha, Ne.symm ha]
  · simp [hown]

theorem CmdObj.count_signal (status : SctxStatus) (a : Act) :
    (c.signal status).count a = if a = .signalled status ∧ c.sctx = true then 1 else 0 := by
  unfold CmdObj.signal
  by_cases hctx : c.sctx = true
  · by_cases ha : a = .signalled status
    · subst ha
      simp [hctx]
    · simp [hctx, ha, Ne.symm ha]
  · simp [hctx]

theorem CmdObj.count_rtwFreeCmdObj (a : Act) :
    c.rtwFreeCmdObj.count a =
      match a with
      | .freed b => if b ≠ .extra ∧ c.owns b = true then 1 else 0
      | _ => 0 := by
  simp only [CmdObj.rtwFreeCmdObj, List.count_append, c.count_free]
  cases a with
  | freed b => cases b <;> simp [CmdObj.owns]
  | _ => simp

theorem CmdObj.countP_free (b : Buf) : (c.free b).countP Act.isSignal = 0 := by
  unfold CmdObj.free
  split <;> rfl

theorem CmdObj.countP_signal (status : SctxStatus) :
    (c.signal status).countP Act.isSignal = if c.sctx then 1 else 0 := by
  unfold CmdObj.signal
  split <;> rfl

theorem CmdObj.countP_rtwFreeCmdObj : c.rtwFreeCmdObj.countP Act.isSignal = 0 := by
  simp [CmdObj.rtwFreeCmdObj, List.countP_append, c.countP_free]

theorem Middle.open (hm : Middle c m) : Open ([.queued, .called true] ++ m) := by
  rcases hm with ⟨rfl, -⟩ | rfl | rfl
  · exact ⟨by decide, by decide, by decide, by decide, by decide⟩
  · refine ⟨?_, ?_, ?_, ?_, ?_⟩
    · simp [c.count_free]
    · simp [c.count_free]
    · simp [c.count_free]
    · simp [c.count_free]
    · simp [c.countP_free, Act.isSignal]
  · exact ⟨by decide, by decide, by decide, by decide, by decide⟩

/-- The counts up to `post_process`. -/
theorem Middle.count (hm : Middle c m) :
    m.count .queued = 0 ∧ m.count .taken = 1 ∧ m.count .handled ≤ 1 ∧ m.count .passed = 0 ∧
      (∀ b, b ≠ .extra → m.count (.freed b) = 0) ∧
      (c.owns .extra = true → m.count (.freed .extra) + m.count .handled = 1) ∧
      m.countP Act.isSignal = 0 := by
  rcases hm with ⟨rfl, hno⟩ | rfl | rfl
  · simp [hno, Act.isSignal]
  · refine ⟨?_, ?_, ?_, ?_, ?_, ?_, ?_⟩
    · simp [c.count_free]
    · simp [c.count_free]
    · simp [c.count_free]
    · simp [c.count_free]
    · intro b hb
      simp [c.count_free, hb]
    · intro hown
      simp [c.count_free, hown]
    · simp [c.countP_free, Act.isSignal]
  · simp [Act.isSignal]

theorem Finished.done (hf : Finished c h) : Done c h := by
  obtain ⟨m, status, ends, hm, hends, rfl⟩ := hf
  obtain ⟨hqueued, htaken, hhandled, hpassed, hfreed, hextra, hsignal⟩ := hm.count
  rcases hends with rfl | rfl
  · refine ⟨?_, ?_, ?_, ?_, ?_, ?_, ?_⟩
    · simp [List.count_append, c.count_signal, hqueued]
    · simp [List.count_append, c.count_signal, htaken]
    · simpa [List.count_append, c.count_signal] using hhandled
    · simp [List.count_append, c.count_signal, hpassed, hfreed]
    · intro hno
      simp [List.count_append, c.count_signal, hpassed] at hno
    · intro hown
      simpa [List.count_append, c.count_signal] using hextra hown
    · simp [List.countP_append, c.countP_signal, hsignal, Act.isSignal]
  · refine ⟨?_, ?_, ?_, ?_, ?_, ?_, ?_⟩
    · simp [List.count_append, c.count_signal, c.count_rtwFreeCmdObj, hqueued]
    · simp [List.count_append, c.count_signal, c.count_rtwFreeCmdObj, htaken]
    · simpa [List.count_append, c.count_signal, c.count_rtwFreeCmdObj] using hhandled
    · simp [List.count_append, c.count_signal, c.count_rtwFreeCmdObj, hpassed, hfreed]
    · intro _ b hb
      simp [List.count_append, c.count_signal, c.count_rtwFreeCmdObj, hfreed b hb, hb]
    · intro hown
      simpa [List.count_append, c.count_signal, c.count_rtwFreeCmdObj] using hextra hown
    · simp [List.countP_append, c.countP_signal, c.countP_rtwFreeCmdObj, hsignal, Act.isSignal]

theorem Rejected.freed (hr : Rejected c h) :
    Act.queued ∉ h ∧ ∀ b, h.count (.freed b) = if c.owns b then 1 else 0 := by
  obtain ⟨res, rfl, -⟩ := hr
  constructor
  · rw [← List.count_eq_zero]
    simp [List.count_append, c.count_free, c.count_rtwFreeCmdObj]
  · intro b
    by_cases hb : b = .extra
    · subst hb
      simp [List.count_append, c.count_free, c.count_rtwFreeCmdObj]
    · simp [List.count_append, c.count_free, c.count_rtwFreeCmdObj, hb]

end Counts

/-- The history of the command in the thread's hands. -/
def Pc.Held (cmds : List CmdObj) (log : List (ℕ × Act)) : Pc → Prop
  | .hdl id c => cmds[id]? = some c ∧ hist id log = [.queued, .called true, .taken]
  | .post id c _ => cmds[id]? = some c ∧ ∃ m, Middle c m ∧ hist id log = [.queued, .called true] ++ m
  | _ => True

/-- The histories of the commands, by where they are. -/
structure Ledger (s : CmdPriv) : Prop where
  fresh : ∀ id, s.cmds.length ≤ id → hist id s.log = []
  nodup : s.ids.Nodup
  known : ∀ e ∈ s.queue, s.cmds[e.1]? = some e.2 ∧ e.2.cmdsz ≤ maxCmdsz
  waiting : ∀ e ∈ s.queue, hist e.1 s.log = [.queued, .called true]
  held : s.pc.Held s.cmds s.log
  rest : ∀ id c, s.cmds[id]? = some c → id ∉ s.ids →
    Rejected c (hist id s.log) ∨ Finished c (hist id s.log)
  fifo : order .queued s.log = order .taken s.log ++ s.queue.map Prod.fst

section Ledger

variable {s t : CmdPriv}

theorem Ledger.lt_of_mem (h : Ledger s) {id : ℕ} (hid : id ∈ s.ids) : id < s.cmds.length := by
  rcases List.mem_append.1 hid with hq | hpc
  · obtain ⟨e, he, rfl⟩ := List.mem_map.1 hq
    exact (List.getElem?_eq_some_iff.1 (h.known e he).1).1
  · have hheld := h.held
    generalize s.pc = pc at hheld hpc
    cases pc with
    | hdl id' c =>
      obtain rfl : id = id' := by simpa [Pc.ids] using hpc
      exact (List.getElem?_eq_some_iff.1 hheld.1).1
    | post id' c res =>
      obtain rfl : id = id' := by simpa [Pc.ids] using hpc
      exact (List.getElem?_eq_some_iff.1 hheld.1).1
    | _ => simp [Pc.ids] at hpc

/-- What has nothing to do with commands: neither queue nor log nor what the thread holds. -/
theorem Ledger.congr (h : Ledger s) (hqueue : t.queue = s.queue) (hcmds : t.cmds = s.cmds)
    (hlog : t.log = s.log) (hpc : t.pc = s.pc ∨ s.pc.ids = [] ∧ t.pc.ids = []) : Ledger t := by
  have hids : t.ids = s.ids := by
    rcases hpc with hpc | ⟨hs, ht⟩
    · rw [CmdPriv.ids, CmdPriv.ids, hqueue, hpc]
    · rw [CmdPriv.ids, CmdPriv.ids, hqueue, hs, ht]
  refine ⟨?_, ?_, ?_, ?_, ?_, ?_, ?_⟩
  · rw [hcmds, hlog]
    exact h.fresh
  · rw [hids]
    exact h.nodup
  · rw [hqueue, hcmds]
    exact h.known
  · rw [hqueue, hlog]
    exact h.waiting
  · rw [hcmds, hlog]
    rcases hpc with hpc | ⟨-, ht⟩
    · rw [hpc]
      exact h.held
    · generalize t.pc = pc at ht
      cases pc <;> trivial
  · rw [hcmds, hids, hlog]
    exact h.rest
  · rw [hlog, hqueue]
    exact h.fifo

theorem Pc.Held.congr {pc : Pc} {cmds cmds' : List CmdObj} {log log' : List (ℕ × Act)}
    (h : pc.Held cmds log) (hcmds : ∀ id ∈ pc.ids, cmds'[id]? = cmds[id]?)
    (hlog : ∀ id ∈ pc.ids, hist id log' = hist id log) : pc.Held cmds' log' := by
  cases pc with
  | hdl id c =>
    rw [Pc.Held, hcmds id (by simp [Pc.ids]), hlog id (by simp [Pc.ids])]
    exact h
  | post id c res =>
    rw [Pc.Held, hcmds id (by simp [Pc.ids]), hlog id (by simp [Pc.ids])]
    exact h
  | _ => trivial

/-- One command of the thread or the queue goes on; the others stay where they are. -/
theorem Ledger.act (h : Ledger s) {id : ℕ} {c : CmdObj} (as : List Act) (hid : id ∈ s.ids)
    (hc : s.cmds[id]? = some c) (hcmds : t.cmds = s.cmds) (hlog : t.log = note s.log id as)
    (hnodup : t.ids.Nodup) (hids : ∀ id', id' ≠ id → id' ∈ s.ids → id' ∈ t.ids)
    (hqueue : ∀ e ∈ t.queue, e ∈ s.queue ∧ e.1 ≠ id) (hheld : t.pc.Held s.cmds (note s.log id as))
    (hend : id ∉ t.ids → Finished c (hist id s.log ++ as))
    (hfifo : order .queued (note s.log id as) =
      order .taken (note s.log id as) ++ t.queue.map Prod.fst) : Ledger t := by
  refine ⟨?_, hnodup, ?_, ?_, ?_, ?_, ?_⟩
  · intro id' hid'
    rw [hcmds] at hid'
    have hlt := h.lt_of_mem hid
    rw [hlog, hist_note_ne _ (by omega)]
    exact h.fresh id' hid'
  · intro e he
    rw [hcmds]
    exact h.known e (hqueue e he).1
  · intro e he
    rw [hlog, hist_note_ne _ (hqueue e he).2]
    exact h.waiting e (hqueue e he).1
  · rw [hcmds, hlog]
    exact hheld
  · intro id' c' hc' hid'
    rw [hcmds] at hc'
    rw [hlog]
    by_cases heq : id' = id
    · subst heq
      obtain rfl := Option.some.inj (hc.symm.trans hc')
      rw [hist_note_self]
      exact Or.inr (hend hid')
    · rw [hist_note_ne _ heq]
      exact h.rest id' c' hc' fun hmem => hid' (hids id' heq hmem)
  · rw [hlog]
    exact hfifo

/-- The next command is taken off and goes to its handler or to `post_process`. -/
theorem Ledger.take (h : Ledger s) {id : ℕ} {c : CmdObj} {queue : List (ℕ × CmdObj)} (as : List Act)
    (hqueue : s.queue = (id, c) :: queue) (hspc : s.pc.ids = []) (htq : t.queue = queue)
    (hcmds : t.cmds = s.cmds) (hlog : t.log = note s.log id ([.taken] ++ as))
    (hpc : t.pc.ids = [id])
    (hheld : s.cmds[id]? = some c → hist id s.log = [.queued, .called true] →
      t.pc.Held s.cmds (note s.log id ([.taken] ++ as)))
    (has : as.count .taken = 0 ∧ as.count .queued = 0) : Ledger t := by
  have hmem : (id, c) ∈ s.queue := by simp [hqueue]
  have hnodup := h.nodup
  rw [CmdPriv.ids, hqueue, hspc, List.append_nil, List.map_cons, List.nodup_cons] at hnodup
  have hidq : ∀ e ∈ queue, e.1 ≠ id := by
    rintro e he rfl
    exact hnodup.1 (List.mem_map.2 ⟨e, he, rfl⟩)
  have htids : t.ids = queue.map Prod.fst ++ [id] := by
    rw [CmdPriv.ids, htq, hpc]
  obtain ⟨hc, -⟩ := h.known _ hmem
  have hhist := h.waiting _ hmem
  have hid : id ∈ s.ids := by simp [CmdPriv.ids, hqueue]
  refine h.act _ hid hc hcmds hlog ?_ ?_ ?_ (hheld hc hhist) ?_ ?_
  · rw [htids]
    exact (List.nodup_append_comm.1 (List.nodup_cons.2 hnodup : ([id] ++ _).Nodup))
  · intro id' hne hid'
    rw [htids]
    rw [CmdPriv.ids, hqueue, hspc, List.append_nil, List.map_cons] at hid'
    simpa [hne] using hid'
  · intro e he
    rw [htq] at he
    rw [hqueue]
    exact ⟨List.mem_cons_of_mem _ he, hidq e he⟩
  · intro hno
    rw [htids] at hno
    simp at hno
  · rw [order_note, order_note, h.fifo, hqueue, htq]
    simp [has]

/-- A command of the extra kind has an entry with a handler. -/
theorem owns_extra_hdl {c : CmdObj} (hown : c.owns .extra = true) :
    wlancmds[c.cmdcode.toNat]? = some ⟨true, false⟩ := by
  have hcode : c.cmdcode = cmdSetDrvExtra := by
    simp only [CmdObj.owns, Bool.and_eq_true, beq_iff_eq] at hown
    exact hown.1
  rw [hcode]
  rfl

theorem Ledger.check (h : Ledger s) {id : ℕ} {c : CmdObj} {queue : List (ℕ × CmdObj)}
    (hqueue : s.queue = (id, c) :: queue) (hspc : s.pc.ids = []) :
    Ledger (({ s with queue := queue } : CmdPriv).note id [.taken] |>.check id c) := by
  have hsize : ¬ maxCmdsz < c.cmdsz := by
    have hle := (h.known (id, c) (by simp [hqueue])).2
    exact BitVec.not_lt.2 hle
  have hpost : ∀ {u : CmdPriv} {res : BitVec 8} (as : List Act), u.queue = queue →
      u.cmds = s.cmds → u.log = note s.log id ([.taken] ++ as) → u.pc = .post id c res →
      Middle c ([.taken] ++ as) → as.count .taken = 0 ∧ as.count .queued = 0 → Ledger u := by
    intro u res as huq hucmds hulog hupc hm has
    refine h.take as hqueue hspc huq hucmds hulog (by rw [hupc]; rfl) (fun hc hhist => ?_) has
    rw [hupc]
    refine ⟨hc, _, hm, ?_⟩
    rw [hist_note_self, hhist]
  unfold CmdPriv.check
  rw [if_neg hsize]
  split
  · rename_i hnone
    refine hpost [] rfl rfl rfl rfl (Or.inl ⟨rfl, ?_⟩) (by simp)
    by_contra hown
    rw [owns_extra_hdl (by simpa using hown)] at hnone
    exact absurd hnone (by simp)
  · rename_i cmd hcmd
    split
    · rename_i hhdl
      refine hpost [] rfl rfl rfl rfl (Or.inl ⟨rfl, ?_⟩) (by simp)
      by_contra hown
      rw [owns_extra_hdl (by simpa using hown)] at hcmd
      obtain rfl := Option.some.inj hcmd
      simp at hhdl
    · split
      · refine hpost (c.free .extra) rfl rfl (note_note _ _ _ _) rfl (Or.inr (Or.inl rfl)) ?_
        simp [c.count_free]
      · refine h.take [] hqueue hspc rfl rfl rfl rfl (fun hc hhist => ?_) (by simp)
        exact ⟨hc, by rw [hist_note_self, hhist]; rfl⟩

/-- The handler of a command runs. -/
theorem Ledger.handle (h : Ledger s) {id : ℕ} {c : CmdObj} (hpc : s.pc = .hdl id c)
    (res : BitVec 8) :
    Ledger ({ s.note id [.handled] with pc := .post id c res } : CmdPriv) := by
  have hheld := h.held
  have hnodup := h.nodup
  rw [hpc] at hheld
  rw [CmdPriv.ids, hpc] at hnodup
  obtain ⟨hc, hhist⟩ := hheld
  have hid : id ∈ s.ids := by simp [CmdPriv.ids, hpc, Pc.ids]
  refine h.act [.handled] hid hc rfl rfl hnodup ?_ ?_ ?_ ?_ ?_
  · intro id' _ hid'
    rw [CmdPriv.ids, hpc] at hid'
    exact hid'
  · intro e he
    refine ⟨he, ?_⟩
    rintro rfl
    exact (List.nodup_append.1 hnodup).2.2 _ (List.mem_map.2 ⟨e, he, rfl⟩) _ (by simp [Pc.ids]) rfl
  · refine ⟨hc, [.taken, .handled], Or.inr (Or.inr rfl), ?_⟩
    rw [hist_note_self, hhist]
    rfl
  · intro hno
    exact absurd (by simp [CmdPriv.ids, Pc.ids]) hno
  · rw [order_note, order_note, h.fifo]
    simp [CmdPriv.note]

/-- A command ends. -/
theorem Ledger.post (h : Ledger s) {id : ℕ} {c : CmdObj} {res : BitVec 8}
    (hpc : s.pc = .post id c res) (status : SctxStatus) {ends : List Act}
    (hends : ends = [.passed] ∨ ends = c.rtwFreeCmdObj) :
    Ledger ({ s.note id (c.signal status ++ ends) with pc := .next } : CmdPriv) := by
  have hheld := h.held
  have hnodup := h.nodup
  rw [hpc] at hheld
  rw [CmdPriv.ids, hpc] at hnodup
  obtain ⟨hc, m, hm, hhist⟩ := hheld
  have hid : id ∈ s.ids := by simp [CmdPriv.ids, hpc, Pc.ids]
  refine h.act (c.signal status ++ ends) hid hc rfl rfl ?_ ?_ ?_ trivial ?_ ?_
  · exact (List.nodup_append.1 hnodup).1.append (by simp [Pc.ids]) (by simp [Pc.ids])
  · intro id' hne hid'
    rw [CmdPriv.ids, hpc] at hid'
    simpa [CmdPriv.ids, Pc.ids, hne, CmdPriv.note] using hid'
  · intro e he
    refine ⟨he, ?_⟩
    rintro rfl
    exact (List.nodup_append.1 hnodup).2.2 _ (List.mem_map.2 ⟨e, he, rfl⟩) _ (by simp [Pc.ids]) rfl
  · intro _
    refine ⟨m, status, ends, hm, hends, ?_⟩
    rw [hhist, List.append_assoc, List.append_assoc, List.append_assoc]
  · have hcount : (c.signal status ++ ends).count .queued = 0 ∧
        (c.signal status ++ ends).count .taken = 0 := by
      rcases hends with rfl | rfl
      · simp [c.count_signal]
      · simp [c.count_signal, c.count_rtwFreeCmdObj]
    rw [order_note, order_note, h.fifo, hcount.1, hcount.2]
    simp [CmdPriv.note]

/-- A command is dropped when the thread ends. -/
theorem Ledger.drain (h : Ledger s) {id : ℕ} {c : CmdObj} {queue : List (ℕ × CmdObj)}
    (hqueue : s.queue = (id, c) :: queue) (hpc : s.pc = .drain) :
    Ledger (({ s with queue := queue } : CmdPriv).note id
      ([.taken] ++ c.free .extra ++ c.signal .cmdDrop ++ c.rtwFreeCmdObj)) := by
  have hmem : (id, c) ∈ s.queue := by simp [hqueue]
  have hspc : s.pc.ids = [] := by
    rw [hpc]
    rfl
  have hnodup := h.nodup
  rw [CmdPriv.ids, hqueue, hspc, List.append_nil, List.map_cons, List.nodup_cons] at hnodup
  obtain ⟨hc, -⟩ := h.known _ hmem
  have hhist := h.waiting _ hmem
  have hids : (({ s with queue := queue } : CmdPriv).note id
      ([.taken] ++ c.free .extra ++ c.signal .cmdDrop ++ c.rtwFreeCmdObj)).ids =
        queue.map Prod.fst := by
    simp [CmdPriv.ids, CmdPriv.note, hspc]
  have hid : id ∈ s.ids := by simp [CmdPriv.ids, hqueue]
  refine h.act _ hid hc rfl rfl ?_ ?_ ?_ ?_ ?_ ?_
  · rw [hids]
    exact hnodup.2
  · intro id' hne hid'
    rw [hids]
    rw [CmdPriv.ids, hqueue, hspc, List.append_nil, List.map_cons] at hid'
    simpa [hne] using hid'
  · intro e he
    refine ⟨by rw [hqueue]; exact List.mem_cons_of_mem _ he, ?_⟩
    rintro rfl
    exact hnodup.1 (List.mem_map.2 ⟨e, he, rfl⟩)
  · simp [CmdPriv.note, hpc, Pc.Held]
  · intro _
    refine ⟨[.taken] ++ c.free .extra, .cmdDrop, c.rtwFreeCmdObj, Or.inr (Or.inl rfl), Or.inr rfl, ?_⟩
    rw [hhist]
    simp
  · rw [order_note, order_note, h.fifo, hqueue]
    simp [c.count_free, c.count_signal, c.count_rtwFreeCmdObj, CmdPriv.note]

/-- A call leaves the commands of the calls before it. -/
theorem call_old (s : CmdPriv) (c : CmdObj) (as : List Act) {id : ℕ} (hid : id < s.cmds.length) :
    (s.cmds ++ [c])[id]? = s.cmds[id]? ∧
      hist id (note s.log s.cmds.length as) = hist id s.log :=
  ⟨List.getElem?_append_left hid, hist_note_ne _ (by omega) _⟩

theorem Ledger.new (h : Ledger s) (c : CmdObj) (as : List Act) :
    (s.cmds ++ [c])[s.cmds.length]? = some c ∧
      hist s.cmds.length (note s.log s.cmds.length as) = as := by
  rw [hist_note_self, h.fresh _ (Nat.le_refl _)]
  simp

/-- What a call keeps: nothing of the commands before it changes. -/
theorem Ledger.call (h : Ledger s) {c : CmdObj} {as : List Act}
    (hcmds : t.cmds = s.cmds ++ [c]) (hlog : t.log = note s.log s.cmds.length as)
    (hpc : t.pc = s.pc)
    (hqueue : t.queue = s.queue ∧ Rejected c as ∨
      t.queue = s.queue ++ [(s.cmds.length, c)] ∧ as = [.queued, .called true] ∧
        c.cmdsz ≤ maxCmdsz) : Ledger t := by
  have hold : ∀ {id}, id < s.cmds.length → (s.cmds ++ [c])[id]? = s.cmds[id]? ∧
      hist id (note s.log s.cmds.length as) = hist id s.log := fun hid => call_old s c as hid
  obtain ⟨hnew, hhist⟩ := h.new c as
  have hsub : ∀ e ∈ s.queue, e.1 < s.cmds.length := fun e he =>
    h.lt_of_mem (by simpa [CmdPriv.ids] using Or.inl ⟨e.2, he⟩)
  have hfresh : s.cmds.length ∉ s.ids := fun hmem => absurd (h.lt_of_mem hmem) (by omega)
  have hids : ∀ id, id ∈ s.ids → id ∈ t.ids := by
    intro id hid
    rcases hqueue with ⟨hq, -⟩ | ⟨hq, -⟩
    · rwa [CmdPriv.ids, hq, hpc]
    · rw [CmdPriv.ids, hq, hpc]
      rw [CmdPriv.ids] at hid
      simp only [List.map_append, List.mem_append] at hid ⊢
      tauto
  have hentry : ∀ e ∈ t.queue, e ∈ s.queue ∨
      e = (s.cmds.length, c) ∧ as = [.queued, .called true] ∧ c.cmdsz ≤ maxCmdsz := by
    intro e he
    rcases hqueue with ⟨hq, -⟩ | ⟨hq, hrest⟩
    · exact Or.inl (hq ▸ he)
    · rw [hq, List.mem_append, List.mem_singleton] at he
      exact he.imp id fun heq => ⟨heq, hrest⟩
  refine ⟨?_, ?_, ?_, ?_, ?_, ?_, ?_⟩
  · intro id hid
    rw [hcmds, List.length_append, List.length_singleton] at hid
    rw [hlog, hist_note_ne _ (by omega)]
    exact h.fresh id (by omega)
  · rcases hqueue with ⟨hq, -⟩ | ⟨hq, -⟩
    · rw [CmdPriv.ids, hq, hpc]
      exact h.nodup
    · have hperm : t.ids.Perm (s.cmds.length :: s.ids) := by
        rw [CmdPriv.ids, hq, hpc, List.map_append, List.append_assoc]
        exact List.perm_middle
      exact hperm.nodup_iff.2 (List.nodup_cons.2 ⟨hfresh, h.nodup⟩)
  · intro e he
    rw [hcmds]
    rcases hentry e he with he | ⟨rfl, -, hsize⟩
    · rw [(hold (hsub e he)).1]
      exact h.known e he
    · exact ⟨hnew, hsize⟩
  · intro e he
    rw [hlog]
    rcases hentry e he with he | ⟨rfl, has, -⟩
    · rw [(hold (hsub e he)).2]
      exact h.waiting e he
    · rw [hhist, has]
  · rw [hcmds, hlog, hpc]
    refine h.held.congr (fun id hid => (hold ?_).1) (fun id hid => (hold ?_).2)
    · exact h.lt_of_mem (List.mem_append_right _ hid)
    · exact h.lt_of_mem (List.mem_append_right _ hid)
  · intro id c' hc' hid
    rw [hcmds] at hc'
    rw [hlog]
    by_cases hlt : id < s.cmds.length
    · rw [(hold hlt).1] at hc'
      rw [(hold hlt).2]
      exact h.rest id c' hc' fun hmem => hid (hids id hmem)
    · have hle := (List.getElem?_eq_some_iff.1 hc').1
      rw [List.length_append, List.length_singleton] at hle
      obtain rfl : id = s.cmds.length := by omega
      obtain rfl := Option.some.inj (hnew.symm.trans hc')
      rcases hqueue with ⟨-, hrej⟩ | ⟨hq, -⟩
      · rw [hhist]
        exact Or.inl hrej
      · exact absurd (by simp [CmdPriv.ids, hq]) hid
  · rw [hlog, order_note, order_note, h.fifo]
    rcases hqueue with ⟨hq, res, rfl, -⟩ | ⟨hq, rfl, -⟩
    · simp [hq, c.count_free, c.count_rtwFreeCmdObj]
    · simp [hq]

theorem Ledger.enqueue (h : Ledger s) (c : CmdObj) : Ledger (s.rtwEnqueueCmd c).1 := by
  unfold CmdPriv.rtwEnqueueCmd
  dsimp only
  split
  · rename_i hrej
    refine h.call rfl rfl rfl (Or.inl ⟨rfl, _, rfl, fun hres => ?_⟩)
    simpa [hres] using hrej
  · rename_i hok
    refine h.call rfl rfl rfl (Or.inr ⟨rfl, rfl, ?_⟩)
    simp only [Bool.or_eq_true, Bool.not_eq_true', decide_eq_true_eq, not_or] at hok
    exact BitVec.not_lt.1 hok.2

theorem Ledger.thread (h : Ledger s) (downOk : Bool) (res : BitVec 8) :
    Ledger (s.rtwCmdThread downOk res) := by
  unfold CmdPriv.rtwCmdThread
  cases hpc : s.pc with
  | start => exact h.congr rfl rfl rfl (Or.inr ⟨by rw [hpc]; rfl, rfl⟩)
  | wait =>
    have hnone : s.pc.ids = [] := by
      rw [hpc]
      rfl
    dsimp only
    split
    · exact h.congr rfl rfl rfl (Or.inr ⟨hnone, rfl⟩)
    split
    · exact h
    split
    · exact h.congr rfl rfl rfl (Or.inr ⟨hnone, rfl⟩)
    split
    · exact h.congr rfl rfl rfl (Or.inl hpc.symm)
    · exact h.congr rfl rfl rfl (Or.inr ⟨hnone, rfl⟩)
  | next =>
    have hnone : s.pc.ids = [] := by
      rw [hpc]
      rfl
    dsimp only
    split
    · exact h.congr rfl rfl rfl (Or.inr ⟨hnone, rfl⟩)
    · cases hqueue : s.queue with
      | nil => exact h.congr hqueue.symm rfl rfl (Or.inr ⟨hnone, rfl⟩)
      | cons e queue =>
        obtain ⟨id, c⟩ := e
        have hcheck := h.check hqueue hnone
        rw [hpc] at hcheck
        exact hcheck
  | hdl id c => exact h.handle hpc res
  | post id c r =>
    refine h.post hpc _ ?_
    split
    · exact Or.inl rfl
    · exact Or.inr rfl
  | leave => exact h.congr rfl rfl rfl (Or.inr ⟨by rw [hpc]; rfl, rfl⟩)
  | drain =>
    cases hqueue : s.queue with
    | nil => exact h.congr hqueue.symm rfl rfl (Or.inr ⟨by rw [hpc]; rfl, rfl⟩)
    | cons e queue =>
      obtain ⟨id, c⟩ := e
      have hdrain := h.drain hqueue hpc
      rw [hpc] at hdrain
      exact hdrain
  | exited => exact h

theorem Ledger.step (h : Ledger s) (ev : Ev) : Ledger (step s ev) := by
  cases ev with
  | enqueue c => exact h.enqueue c
  | thread downOk res => exact h.thread downOk res
  | hwInit completed => exact h.congr rfl rfl rfl (Or.inl rfl)
  | cannotRun stopped => exact h.congr rfl rfl rfl (Or.inl rfl)
  | upSema => exact h.congr rfl rfl rfl (Or.inl rfl)

end Ledger

/-- What the thread's place tells of the queue: nothing is queued before it starts and after it
ends, commands are refused then and in its drain, and it does not sleep over a command. -/
structure Flow (s : CmdPriv) : Prop where
  idle : s.pc = .start ∨ s.pc = .exited → s.queue = []
  stopped : s.pc = .start ∨ s.pc = .drain ∨ s.pc = .exited → s.cmdthdRunning = false
  awake : s.pc = .wait → s.queue.length ≤ s.sema

section Flow

variable {s : CmdPriv}

theorem Flow.enqueue (h : Flow s) (c : CmdObj) : Flow (s.rtwEnqueueCmd c).1 := by
  unfold CmdPriv.rtwEnqueueCmd
  dsimp only
  split
  · exact ⟨h.idle, h.stopped, h.awake⟩
  · rename_i hok
    have hrun : s.cmdthdRunning = true := by
      by_contra hno
      simp [CmdPriv.rtwCmdFilter, hno] at hok
    refine ⟨fun hpc => ?_, h.stopped, fun hpc => ?_⟩
    · have hno := h.stopped (hpc.imp id Or.inr)
      rw [hrun] at hno
      exact absurd hno (by decide)
    · have hle := h.awake hpc
      simpa [CmdPriv.note] using hle

/-- Where the checks of a command lead. -/
theorem check_pc (s : CmdPriv) (id : ℕ) (c : CmdObj) :
    (∃ res, (s.check id c).pc = .post id c res) ∨ (s.check id c).pc = .hdl id c := by
  unfold CmdPriv.check
  split
  · exact Or.inl ⟨_, rfl⟩
  split
  · exact Or.inl ⟨_, rfl⟩
  split
  · exact Or.inl ⟨_, rfl⟩
  split
  · exact Or.inl ⟨_, rfl⟩
  · exact Or.inr rfl

/-- With the thread in its loop there is nothing to show. -/
theorem Flow.of_pc (hstart : s.pc ≠ .start) (hdrain : s.pc ≠ .drain) (hexited : s.pc ≠ .exited)
    (hwait : s.pc ≠ .wait) : Flow s :=
  ⟨fun hpc => absurd hpc (by simp [hstart, hexited]),
    fun hpc => absurd hpc (by simp [hstart, hdrain, hexited]), fun hpc => absurd hpc hwait⟩

theorem Flow.thread (h : Flow s) (downOk : Bool) (res : BitVec 8) :
    Flow (s.rtwCmdThread downOk res) := by
  unfold CmdPriv.rtwCmdThread
  cases hpc : s.pc with
  | start =>
    have hempty := h.idle (Or.inl hpc)
    exact ⟨fun _ => hempty, by simp, fun _ => by simp [hempty]⟩
  | wait =>
    have hle := h.awake hpc
    dsimp only
    split
    · exact Flow.of_pc (by simp) (by simp) (by simp) (by simp)
    split
    · exact h
    split
    · exact Flow.of_pc (by simp) (by simp) (by simp) (by simp)
    split
    · rename_i hempty
      have hnil : s.queue = [] := by simpa using hempty
      exact ⟨fun _ => hnil, by simp, fun _ => by simp [hnil]⟩
    · exact Flow.of_pc (by simp) (by simp) (by simp) (by simp)
  | next =>
    dsimp only
    split
    · exact Flow.of_pc (by simp) (by simp) (by simp) (by simp)
    · cases hqueue : s.queue with
      | nil => exact ⟨fun _ => rfl, by simp, fun _ => by simp⟩
      | cons e queue =>
        obtain ⟨id, c⟩ := e
        dsimp only
        generalize CmdPriv.note _ id [.taken] = t
        rcases check_pc t id c with ⟨r, hpc'⟩ | hpc' <;>
          exact Flow.of_pc (by simp [hpc']) (by simp [hpc']) (by simp [hpc']) (by simp [hpc'])
  | hdl id c => exact Flow.of_pc (by simp) (by simp) (by simp) (by simp)
  | post id c r => exact Flow.of_pc (by simp) (by simp) (by simp) (by simp)
  | leave => exact ⟨by simp, fun _ => rfl, by simp⟩
  | drain =>
    have hstop := h.stopped (Or.inr (Or.inl hpc))
    cases hqueue : s.queue with
    | nil => exact ⟨fun _ => rfl, fun _ => hstop, by simp⟩
    | cons e queue =>
      refine ⟨fun hpc' => ?_, fun _ => hstop, fun hpc' => ?_⟩
      · simp [CmdPriv.note] at hpc'
      · simp [CmdPriv.note] at hpc'
  | exited => exact h

theorem Flow.step (h : Flow s) (ev : Ev) : Flow (step s ev) := by
  cases ev with
  | enqueue c => exact h.enqueue c
  | thread downOk res => exact h.thread downOk res
  | hwInit completed => exact ⟨h.idle, h.stopped, h.awake⟩
  | cannotRun stopped => exact ⟨h.idle, h.stopped, h.awake⟩
  | upSema => exact ⟨h.idle, h.stopped, fun hpc => Nat.le_succ_of_le (h.awake hpc)⟩

end Flow

/-- Every call told whether its command was queued. -/
def CalledOk (s : CmdPriv) : Prop :=
  ∀ id c, s.cmds[id]? = some c →
    (Act.called true ∈ hist id s.log ↔ Act.queued ∈ hist id s.log)

section Results

variable {s : CmdPriv}

theorem Ledger.open (h : Ledger s) {id : ℕ} (hid : id ∈ s.ids) : Open (hist id s.log) := by
  rcases List.mem_append.1 hid with hq | hpc
  · obtain ⟨e, he, rfl⟩ := List.mem_map.1 hq
    rw [h.waiting e he]
    exact ⟨by decide, by decide, by decide, by decide, by decide⟩
  · have hheld := h.held
    generalize s.pc = pc at hheld hpc
    cases pc with
    | hdl id' c =>
      obtain rfl : id = id' := by simpa [Pc.ids] using hpc
      rw [hheld.2]
      exact ⟨by decide, by decide, by decide, by decide, by decide⟩
    | post id' c res =>
      obtain rfl : id = id' := by simpa [Pc.ids] using hpc
      obtain ⟨-, m, hm, hhist⟩ := hheld
      rw [hhist]
      exact hm.open
    | _ => simp [Pc.ids] at hpc

theorem Ledger.conserved (h : Ledger s) (hflow : Flow s) (hcalled : CalledOk s) : Conserved s where
  called := hcalled
  refused id c hc hno := by
    have hid : id ∉ s.ids := by
      intro hmem
      refine hno (List.count_pos_iff.1 ?_)
      rw [(h.open hmem).queued]
      exact Nat.one_pos
    rcases h.rest id c hc hid with hrej | hfin
    · exact hrej.freed.2
    · refine absurd (List.count_pos_iff.1 ?_) hno
      rw [hfin.done.queued]
      exact Nat.one_pos
  fifo := h.fifo
  pending id hid := h.open hid
  done id c hc hqueued hid := by
    rcases h.rest id c hc hid with hrej | hfin
    · exact absurd hqueued hrej.freed.1
    · exact hfin.done
  awake hpc hne := Nat.lt_of_lt_of_le (List.length_pos_iff.2 hne) (hflow.awake hpc)
  drained hpc := by
    rw [CmdPriv.ids, hflow.idle (Or.inr hpc), hpc]
    rfl

/-- A step of the thread neither queues nor calls. -/
theorem thread_log (s : CmdPriv) (downOk : Bool) (res : BitVec 8) :
    (s.rtwCmdThread downOk res).cmds = s.cmds ∧
      ∃ id as, (s.rtwCmdThread downOk res).log = note s.log id as ∧ Act.queued ∉ as ∧
        Act.called true ∉ as := by
  have hsame : ∀ {t : CmdPriv}, t.cmds = s.cmds → t.log = s.log → t.cmds = s.cmds ∧
      ∃ id as, t.log = note s.log id as ∧ Act.queued ∉ as ∧ Act.called true ∉ as :=
    fun hcmds hlog => ⟨hcmds, 0, [], by simpa [note] using hlog, by simp, by simp⟩
  have hcount : ∀ {as : List Act}, as.count .queued = 0 → as.count (.called true) = 0 →
      Act.queued ∉ as ∧ Act.called true ∉ as :=
    fun hq hc => ⟨List.count_eq_zero.1 hq, List.count_eq_zero.1 hc⟩
  unfold CmdPriv.rtwCmdThread
  cases hpc : s.pc with
  | start => exact hsame rfl rfl
  | wait =>
    dsimp only
    split
    · exact hsame rfl rfl
    split
    · exact hsame rfl rfl
    split
    · exact hsame rfl rfl
    split <;> exact hsame rfl rfl
  | next =>
    dsimp only
    split
    · exact hsame rfl rfl
    · cases hqueue : s.queue with
      | nil => exact hsame rfl rfl
      | cons e queue =>
        obtain ⟨id, c⟩ := e
        dsimp only
        unfold CmdPriv.check
        split
        · exact ⟨rfl, id, [.taken], rfl, by simp, by simp⟩
        split
        · exact ⟨rfl, id, [.taken], rfl, by simp, by simp⟩
        split
        · exact ⟨rfl, id, [.taken], rfl, by simp, by simp⟩
        split
        · refine ⟨rfl, id, [Act.taken] ++ c.free .extra, note_note _ _ _ _, hcount ?_ ?_⟩
          · simp [c.count_free]
          · simp [c.count_free]
        · exact ⟨rfl, id, [.taken], rfl, by simp, by simp⟩
  | hdl id c => exact ⟨rfl, id, [.handled], rfl, by simp, by simp⟩
  | post id c r =>
    dsimp only
    generalize (if (r == h2cSuccess) = true then SctxStatus.done else .cmdError) = status
    refine ⟨rfl, id, _, rfl, hcount ?_ ?_⟩
    · cases CmdPriv.hasCallback c.cmdcode <;> simp [c.count_signal, c.count_rtwFreeCmdObj]
    · cases CmdPriv.hasCallback c.cmdcode <;> simp [c.count_signal, c.count_rtwFreeCmdObj]
  | leave => exact hsame rfl rfl
  | drain =>
    cases hqueue : s.queue with
    | nil => exact hsame rfl rfl
    | cons e queue =>
      obtain ⟨id, c⟩ := e
      refine ⟨rfl, id, _, rfl, hcount ?_ ?_⟩
      · simp [c.count_free, c.count_signal, c.count_rtwFreeCmdObj]
      · simp [c.count_free, c.count_signal, c.count_rtwFreeCmdObj]
  | exited => exact hsame rfl rfl

theorem mem_hist_note {log : List (ℕ × Act)} {id id' : ℕ} {as : List Act} {a : Act} (ha : a ∉ as) :
    a ∈ hist id' (note log id as) ↔ a ∈ hist id' log := by
  by_cases heq : id' = id
  · subst heq
    rw [hist_note_self, List.mem_append]
    simp [ha]
  · rw [hist_note_ne _ heq]

theorem CalledOk.thread (h : CalledOk s) (downOk : Bool) (res : BitVec 8) :
    CalledOk (s.rtwCmdThread downOk res) := by
  obtain ⟨hcmds, id, as, hlog, hq, hc⟩ := thread_log s downOk res
  intro id' c hc'
  rw [hcmds] at hc'
  rw [hlog, mem_hist_note hq, mem_hist_note hc]
  exact h id' c hc'

/-- A call tells whether its command was queued, unless the command is too large and passes the
filter. -/
theorem Ledger.called_iff (h : Ledger s) (hcalled : CalledOk s) (c : CmdObj) :
    CalledOk (s.rtwEnqueueCmd c).1 ↔ (s.rtwCmdFilter c = true → c.cmdsz ≤ maxCmdsz) := by
  obtain ⟨as, hcmds, hlog, hlast⟩ : ∃ as, (s.rtwEnqueueCmd c).1.cmds = s.cmds ++ [c] ∧
      (s.rtwEnqueueCmd c).1.log = note s.log s.cmds.length as ∧
      ((Act.called true ∈ as ↔ Act.queued ∈ as) ↔
        (s.rtwCmdFilter c = true → c.cmdsz ≤ maxCmdsz)) := by
    have hmem : ∀ (a : Act) (res : Bool), (∀ b, a ≠ .freed b) →
        (a ∈ c.free .extra ++ c.rtwFreeCmdObj ++ [.called res] ↔ a = .called res) := by
      intro a res ha
      have hno : a ∉ c.free .extra ++ c.rtwFreeCmdObj := by
        rw [← List.count_eq_zero, List.count_append, c.count_free, c.count_rtwFreeCmdObj]
        cases a with
        | freed b => exact absurd rfl (ha b)
        | _ => simp
      rw [List.mem_append, List.mem_singleton]
      simp only [hno, false_or]
    unfold CmdPriv.rtwEnqueueCmd
    dsimp only
    split
    · rename_i hrej
      change (!s.rtwCmdFilter c || decide (maxCmdsz < c.cmdsz)) = true at hrej
      refine ⟨c.free .extra ++ c.rtwFreeCmdObj ++ [.called (s.rtwCmdFilter c)], rfl, rfl, ?_⟩
      rw [hmem _ _ (by simp), hmem _ _ (by simp)]
      cases hres : s.rtwCmdFilter c with
      | false => simp
      | true => simpa [hres] using hrej
    · rename_i hok
      refine ⟨[.queued, .called true], rfl, rfl, ?_⟩
      simp only [Bool.or_eq_true, Bool.not_eq_true', decide_eq_true_eq, not_or] at hok
      simpa using fun _ => BitVec.not_lt.1 hok.2
  obtain ⟨hnew, hhist⟩ := h.new c as
  constructor
  · intro hall
    have hlast' := hall s.cmds.length c (by rw [hcmds]; exact hnew)
    rw [hlog, hhist] at hlast'
    exact hlast.1 hlast'
  · intro hok id c' hc'
    rw [hcmds] at hc'
    rw [hlog]
    by_cases hlt : id < s.cmds.length
    · obtain ⟨hc, hh⟩ := call_old s c as hlt
      rw [hc] at hc'
      rw [hh]
      exact hcalled id c' hc'
    · have hle := (List.getElem?_eq_some_iff.1 hc').1
      rw [List.length_append, List.length_singleton] at hle
      obtain rfl : id = s.cmds.length := by omega
      rw [hhist]
      exact hlast.2 hok

end Results

/-- `_rtw_init_cmd_priv`: nothing is queued, and the thread has not started. -/
def rtwInitCmdPriv (hwInitCompleted cannotRun : Bool) : CmdPriv where
  queue := []
  sema := 0
  cmdthdRunning := false
  hwInitCompleted := hwInitCompleted
  cannotRun := cannotRun
  pc := .start
  cmds := []
  log := []

/-- The commands are conserved in every state of a run exactly if none that passes the filter is
too large. -/
theorem cmds_conserved_iff (hwInitCompleted cannotRun : Bool) (es : List Ev) :
    (∀ k, Conserved (run step (rtwInitCmdPriv hwInitCompleted cannotRun) (es.take k))) ↔
      Along step SizeOk (rtwInitCmdPriv hwInitCompleted cannotRun) es := by
  have h0 : Ledger (rtwInitCmdPriv hwInitCompleted cannotRun) :=
    ⟨fun _ _ => rfl, by simp [CmdPriv.ids, rtwInitCmdPriv, Pc.ids], by simp [rtwInitCmdPriv],
      by simp [rtwInitCmdPriv], trivial, by simp [rtwInitCmdPriv], rfl⟩
  have hflow0 : Flow (rtwInitCmdPriv hwInitCompleted cannotRun) :=
    ⟨fun _ => rfl, fun _ => rfl, fun _ => Nat.le_refl _⟩
  have hcalled0 : CalledOk (rtwInitCmdPriv hwInitCompleted cannotRun) := by
    intro id c hc
    simp [rtwInitCmdPriv] at hc
  have hledger : ∀ es', Ledger (run step (rtwInitCmdPriv hwInitCompleted cannotRun) es') ∧
      Flow (run step (rtwInitCmdPriv hwInitCompleted cannotRun) es') := fun es' =>
    run_invariant (P := fun _ _ => True) (I := fun s => Ledger s ∧ Flow s)
      (fun s ev h _ => ⟨h.1.step ev, h.2.step ev⟩) ⟨h0, hflow0⟩ (along_of_forall fun _ _ _ => trivial)
  rw [← forall_take_iff_along (I := fun s => Ledger s ∧ CalledOk s) ?_ ⟨h0, hcalled0⟩]
  · refine forall_congr' fun k => ?_
    obtain ⟨hl, hf⟩ := hledger (es.take k)
    exact ⟨fun h => ⟨hl, h.called⟩, fun h => hl.conserved hf h.2⟩
  · rintro s ev - ⟨hl, hcalled⟩
    have hstep := hl.step ev
    cases ev with
    | enqueue c =>
      have hiff := hl.called_iff hcalled c
      exact ⟨fun h => hiff.1 h.2, fun h => ⟨hstep, hiff.2 h⟩⟩
    | thread downOk res =>
      exact ⟨fun _ => trivial, fun _ => ⟨hstep, hcalled.thread downOk res⟩⟩
    | hwInit completed => exact ⟨fun _ => trivial, fun _ => ⟨hstep, hcalled⟩⟩
    | cannotRun stopped => exact ⟨fun _ => trivial, fun _ => ⟨hstep, hcalled⟩⟩
    | upSema => exact ⟨fun _ => trivial, fun _ => ⟨hstep, hcalled⟩⟩

/-- A command of 1537 bytes is freed, and the call tells its caller that it was queued. -/
theorem enqueue_tells_success :
    ¬ Conserved (run step (rtwInitCmdPriv true false)
      [.thread true 0, .enqueue ⟨0, 1537, true, false, 0, true, false, false⟩]) := by
  intro h
  have hcalled := h.called 0 ⟨0, 1537, true, false, 0, true, false, false⟩ rfl
  exact absurd hcalled (by decide)

end Rtl8821cu.Cmd
