import Rtl8821cu.MeshMpaths

/-! The frames that wait for a mesh path: where each of them is, and the lengths of the queues. -/
namespace Rtl8821cu.Mesh
open Keyed Run

variable {F : Type} {s s' s'' : MeshInfo F} {cfg : Cfg} {t : Tbl} {dst : Mac} {p : Mpath F}
  {f : Mpath F → Mpath F} {lost lost' : List F}

@[simp] theorem setQueue_frameQueue (p : Mpath F) (q : List F) (n : ℕ) :
    (p.setQueue q n).frameQueue = q := rfl

@[simp] theorem setQueue_frameQueueLen (p : Mpath F) (q : List F) (n : ℕ) :
    (p.setQueue q n).frameQueueLen = n := rfl

/-- The places a frame can be in. -/
def MeshInfo.places (s : MeshInfo F) : List F :=
  (s.paths .mesh).flatMap Mpath.frameQueue ++ (s.paths .mpp).flatMap Mpath.frameQueue ++
    s.mpathTxQueue ++ s.freed ++ s.posted

/-- The length of a path's queue is right, and within bounds. -/
def Mpath.QueueOk (p : Mpath F) : Prop :=
  p.frameQueueLen = p.frameQueue.length ∧ p.frameQueue.length ≤ frameQueueMax

/-- The lengths of all queues are right. -/
structure QueuesOk (s : MeshInfo F) : Prop where
  uniq : s.Uniq
  paths : ∀ t, ∀ p ∈ s.paths t, p.QueueOk
  tx : s.mpathTxQueueLen = s.mpathTxQueue.length

/-- The lengths after a change of one mesh path. -/
theorem QueuesOk.modify (hs : QueuesOk s) (hdst : ∀ p, (f p).dst = p.dst)
    (hf : ∀ p ∈ s.paths t, p.dst = dst → (f p).QueueOk) : QueuesOk (s.modify t dst f) := by
  refine ⟨(modify_keys hdst).uniq hs.uniq, fun t' => ?_, hs.tx⟩
  refine forall_setPaths (P := fun _ l => ∀ p ∈ l, p.QueueOk) ?_ (fun t' _ => hs.paths t') t'
  intro p hp
  obtain ⟨q, hq, rfl⟩ := List.mem_map.1 hp
  by_cases hqdst : q.dst = dst
  · rw [if_pos hqdst]
    exact hf q hq hqdst
  · rw [if_neg hqdst]
    exact hs.paths t q hq

theorem QueuesOk.found (hs : QueuesOk s) (h : s.find t dst = some p) : p.QueueOk :=
  hs.paths t p (mem_of_find h).1

/-- The entry with an address is the one that is found. -/
theorem eq_of_find (hs : s.Uniq) (h : s.find t dst = some p) {q : Mpath F} (hq : q ∈ s.paths t)
    (hdst : q.dst = dst) : q = p :=
  List.inj_on_of_nodup_map (hs t) hq (mem_of_find h).1 (by rw [hdst, (mem_of_find h).2])

/-- The path that `rtw_mesh_path_add` gives is in the table. -/
theorem find_of_meshPathAdd {now : Jiffies} {allocOk insertOk : Bool} {d : Mac}
    (h : s.meshPathAdd cfg now dst allocOk insertOk = (s', .ok d)) : s'.find .mesh d ≠ none := by
  rcases meshPathAdd_cases cfg s now dst allocOk insertOk with
    ⟨-, e, h'⟩ | ⟨-, -, r, h', hr⟩ | ⟨-, -, h'⟩
  · rw [h'] at h
    cases h
  · rw [h', Prod.mk.injEq] at h
    obtain ⟨rfl, hsome⟩ := hr d h.2
    rw [← h.1]
    exact hsome
  · rw [h', Prod.mk.injEq, Except.ok.injEq] at h
    obtain ⟨rfl, rfl⟩ := h
    rw [MeshInfo.find, setPaths_self, Ne, find_eq_none]
    intro hall
    exact hall _ (List.mem_cons_self ..) rfl

section Count

variable [DecidableEq F]

/-- How often a frame is on the paths of a table. -/
def MeshInfo.onPaths (s : MeshInfo F) (t : Tbl) (x : F) : ℕ :=
  ((s.paths t).flatMap Mpath.frameQueue).count x

/-- How many more times a frame is somewhere than it has come. -/
def MeshInfo.balance (s : MeshInfo F) (x : F) : ℤ :=
  s.onPaths .mesh x + s.onPaths .mpp x + s.mpathTxQueue.count x + s.freed.count x +
    s.posted.count x - s.arrived.count x

theorem balance_eq_zero_iff : (∀ x, s.balance x = 0) ↔ s.places.Perm s.arrived := by
  rw [List.perm_iff_count]
  refine forall_congr' fun x => ?_
  simp only [MeshInfo.balance, MeshInfo.places, MeshInfo.onPaths, List.count_append]
  omega

/-- One entry of a table is changed. -/
theorem onPaths_modify (hs : s.Uniq) (h : s.find t dst = some p) (x : F) :
    (s.modify t dst f).onPaths t x + p.frameQueue.count x =
      s.onPaths t x + (f p).frameQueue.count x := by
  obtain ⟨l₁, l₂, hl, hp, h₁, h₂⟩ := find_split (hs t) h
  unfold MeshInfo.onPaths MeshInfo.modify
  rw [setPaths_self, hl, modify_split hp h₁ h₂]
  simp only [List.flatMap_append, List.flatMap_cons, List.count_append]
  omega

theorem onPaths_remove (hs : s.Uniq) (h : s.find t dst = some p) (x : F) :
    (s.remove t dst).onPaths t x + p.frameQueue.count x = s.onPaths t x := by
  obtain ⟨l₁, l₂, hl, hp, h₁, h₂⟩ := find_split (hs t) h
  unfold MeshInfo.onPaths MeshInfo.remove
  rw [setPaths_self, hl, remove_split hp h₁ h₂]
  simp only [List.flatMap_append, List.flatMap_cons, List.count_append]
  omega

end Count

/-- From `s` to `s'` the queues stay right and all frames stay somewhere, but for the `lost` ones,
and none is given to the transmission. -/
structure Ledger [DecidableEq F] (s s' : MeshInfo F) (lost : List F) : Prop where
  ok : QueuesOk s'
  balance : ∀ x, s'.balance x = s.balance x - lost.count x
  posted : s'.posted = s.posted

section Ledgers

variable [DecidableEq F]

theorem Ledger.refl (hs : QueuesOk s) : Ledger s s [] := ⟨hs, by simp, rfl⟩

theorem Ledger.trans (h : Ledger s s' lost) (h' : Ledger s' s'' lost') :
    Ledger s s'' (lost ++ lost') := by
  refine ⟨h'.ok, fun x => ?_, h'.posted.trans h.posted⟩
  rw [h'.balance, h.balance, List.count_append]
  push_cast
  ring

/-- A change that leaves the queues alone. -/
theorem modify_ledger (hs : QueuesOk s) (hf : ∀ p, (f p).dst = p.dst ∧
    (f p).frameQueue = p.frameQueue ∧ (f p).frameQueueLen = p.frameQueueLen) :
    Ledger s (s.modify t dst f) [] := by
  refine ⟨hs.modify (fun p => (hf p).1) fun p hp _ => ?_, fun x => ?_, rfl⟩
  · unfold Mpath.QueueOk
    rw [(hf p).2.1, (hf p).2.2]
    exact hs.paths t p hp
  · have hon (t' : Tbl) : (s.modify t dst f).onPaths t' x = s.onPaths t' x := by
      unfold MeshInfo.onPaths
      refine forall_setPaths (P := fun t' l => (l.flatMap Mpath.frameQueue).count x =
        ((s.paths t').flatMap Mpath.frameQueue).count x) ?_ (fun _ _ => rfl) t'
      rw [List.flatMap_def, map_modify _ fun p _ => (hf p).2.1, ← List.flatMap_def]
    simp only [MeshInfo.balance, hon, List.count_nil, Nat.cast_zero, sub_zero]
    rfl

/-- The accounts of paths and gates do not count. -/
theorem Ledger.accounts (h : Ledger s s' lost) (n : ℤ) (gates : List Mac) (k : ℤ) (m : Option Mac)
    (b : Bool) :
    Ledger s { s' with
      mpaths := n
      knownGates := gates
      numGates := k
      maxAddrGate := m
      maxAddrGateIsLargerThanSelf := b } lost :=
  ⟨{ h.ok with }, h.balance, h.posted⟩

theorem meshGateDel_ledger (hs : QueuesOk s) (t : Tbl) (p : Mpath F) :
    Ledger s (s.meshGateDel cfg t p) [] := by
  have hmodify : Ledger s (s.modify t p.dst fun p => { p with isGate := false }) [] :=
    modify_ledger hs fun _ => ⟨rfl, rfl, rfl⟩
  unfold MeshInfo.meshGateDel
  dsimp only
  split
  · exact Ledger.refl hs
  · split
    · exact hmodify.accounts _ _ _ _ _
    · split <;> exact hmodify.accounts _ _ _ _ _

theorem pathGateDel_ledger (hs : QueuesOk s) (dst : Mac) : Ledger s (s.pathGateDel cfg dst) [] := by
  unfold MeshInfo.pathGateDel
  split
  · exact Ledger.refl hs
  · exact meshGateDel_ledger hs .mesh _

theorem meshPathAddGate_ledger (hs : QueuesOk s) (now : Jiffies) (dst : Mac) :
    Ledger s (s.meshPathAddGate cfg now dst) [] := by
  unfold MeshInfo.meshPathAddGate
  split
  · exact Ledger.refl hs
  · dsimp only
    have htime : Ledger s (s.modify .mesh dst (MeshInfo.setGateTimeout cfg now)) [] :=
      modify_ledger hs fun _ => ⟨rfl, rfl, rfl⟩
    have hgate : Ledger s ((s.modify .mesh dst (MeshInfo.setGateTimeout cfg now)).modify .mesh dst
        fun p => { p with isGate := true }) [] :=
      htime.trans (modify_ledger htime.ok fun _ => ⟨rfl, rfl, rfl⟩)
    split
    · exact htime
    · split <;> exact hgate.accounts _ _ _ _ _

theorem gateExpire_ledger (hs : QueuesOk s) (now : Jiffies) (t : Tbl) (dst : Mac) :
    Ledger s (s.gateExpire cfg now t dst) [] := by
  unfold MeshInfo.gateExpire
  split
  · exact Ledger.refl hs
  · split
    · split
      · exact meshGateDel_ledger hs t _
      · exact modify_ledger hs fun _ => ⟨rfl, rfl, rfl⟩
    · exact Ledger.refl hs

/-- A new path has no frames. -/
theorem newPath_ledger (hs : QueuesOk s) {p : Mpath F} (hp : s.find t p.dst = none)
    (hq : p.frameQueue = []) (hlen : p.frameQueueLen = 0) :
    Ledger s (s.setPaths t (p :: s.paths t)) [] := by
  refine ⟨⟨fun t' => ?_, fun t' => ?_, hs.tx⟩, fun x => ?_, rfl⟩
  · exact forall_setPaths (P := fun _ l => Keyed.Unique Mpath.dst l) ((hs.uniq t).cons hp)
      (fun t' _ => hs.uniq t') t'
  · refine forall_setPaths (P := fun _ l => ∀ p ∈ l, p.QueueOk) ?_ (fun t' _ => hs.paths t') t'
    intro q hmem
    rcases List.mem_cons.1 hmem with rfl | hmem
    · exact ⟨by rw [hq, hlen]; rfl, by rw [hq]; simp⟩
    · exact hs.paths t q hmem
  · have hon (t' : Tbl) : (s.setPaths t (p :: s.paths t)).onPaths t' x = s.onPaths t' x := by
      unfold MeshInfo.onPaths
      exact forall_setPaths (P := fun t' l => (l.flatMap Mpath.frameQueue).count x =
        ((s.paths t').flatMap Mpath.frameQueue).count x) (by simp [hq]) (fun _ _ => rfl) t'
    simp only [MeshInfo.balance, hon, List.count_nil, Nat.cast_zero, sub_zero]
    rfl

theorem meshPathAdd_ledger (hs : QueuesOk s) (now : Jiffies) (dst : Mac)
    (allocOk insertOk : Bool) : Ledger s (s.meshPathAdd cfg now dst allocOk insertOk).1 [] := by
  have hcount : Ledger s { s with mpaths := s.mpaths + 1 } [] :=
    (Ledger.refl hs).accounts _ _ _ _ _
  rcases meshPathAdd_cases cfg s now dst allocOk insertOk with
    ⟨-, e, h⟩ | ⟨-, -, r, h, -⟩ | ⟨-, ⟨-, -, hnone⟩, h⟩
  · rw [h]
    exact Ledger.refl hs
  · rw [h]
    exact hcount
  · rw [h]
    exact hcount.trans (newPath_ledger hcount.ok hnone rfl rfl)

theorem mppPathAdd_ledger (hs : QueuesOk s) (now : Jiffies) (dst mpp : Mac)
    (allocOk insertOk : Bool) : Ledger s (s.mppPathAdd cfg now dst mpp allocOk insertOk) [] := by
  unfold MeshInfo.mppPathAdd
  repeat' split
  any_goals exact Ledger.refl hs
  rename_i hfind _
  have hnone : s.find .mpp dst = none := by simpa using hfind
  exact newPath_ledger hs hnone rfl rfl

/-- Frames that were taken off somewhere are freed. -/
theorem Ledger.free (h : Ledger s s' lost) :
    Ledger s { s' with freed := s'.freed ++ lost } [] := by
  refine ⟨{ h.ok with }, fun x => ?_, h.posted⟩
  have hbalance := h.balance x
  simp only [MeshInfo.balance, MeshInfo.onPaths, List.count_append, List.count_nil] at hbalance ⊢
  omega

/-- Frames that were taken off somewhere go to the transmit queue. -/
theorem Ledger.transmit (h : Ledger s s' lost) :
    Ledger s { s' with
      mpathTxQueue := s'.mpathTxQueue ++ lost
      mpathTxQueueLen := s'.mpathTxQueueLen + lost.length } [] := by
  refine ⟨⟨h.ok.uniq, h.ok.paths, ?_⟩, fun x => ?_, h.posted⟩
  · rw [List.length_append, ← h.ok.tx]
  · have hbalance := h.balance x
    simp only [MeshInfo.balance, MeshInfo.onPaths, List.count_append, List.count_nil] at hbalance ⊢
    omega

theorem balance_modify (hs : QueuesOk s) (h : s.find .mesh dst = some p) (x : F) :
    (s.modify .mesh dst f).balance x =
      s.balance x - p.frameQueue.count x + (f p).frameQueue.count x := by
  have hon := onPaths_modify (f := f) hs.uniq h x
  have hother : (s.modify .mesh dst f).onPaths .mpp x = s.onPaths .mpp x := by
    rw [MeshInfo.onPaths, modify_other (by decide)]
    rfl
  have hrest : (s.modify .mesh dst f).balance x = (s.modify .mesh dst f).onPaths .mesh x +
      (s.modify .mesh dst f).onPaths .mpp x + s.mpathTxQueue.count x + s.freed.count x +
        s.posted.count x - s.arrived.count x := rfl
  rw [hrest, hother, MeshInfo.balance]
  omega

/-- Frames are taken off a path or put on it. -/
theorem Ledger.change (h : Ledger s s' lost) (hp : s'.find .mesh dst = some p)
    (hdst : ∀ p, (f p).dst = p.dst) (hok : (f p).QueueOk)
    (hperm : ((f p).frameQueue ++ lost').Perm (p.frameQueue ++ lost)) :
    Ledger s (s'.modify .mesh dst f) lost' := by
  refine ⟨h.ok.modify hdst fun q hq hqdst => ?_, fun x => ?_, h.posted⟩
  · rwa [eq_of_find h.ok.uniq hp hq hqdst]
  · have hcount := hperm.count_eq x
    rw [List.count_append, List.count_append] at hcount
    rw [balance_modify h.ok hp, h.balance]
    omega

/-- All frames are taken off a path. -/
theorem take_ledger (hs : QueuesOk s) (h : s.find .mesh dst = some p) :
    Ledger s (s.modify .mesh dst fun p => p.setQueue [] 0) p.frameQueue :=
  (Ledger.refl hs).change h (fun _ => rfl) ⟨rfl, Nat.zero_le _⟩ (by simp)

theorem meshPathFlushPending_ledger (hs : QueuesOk s) (dst : Mac) :
    Ledger s (s.meshPathFlushPending dst) [] := by
  unfold MeshInfo.meshPathFlushPending
  split
  · exact Ledger.refl hs
  · rename_i p hfind
    exact (take_ledger hs hfind).free

theorem meshPathTxPending_ledger (hs : QueuesOk s) (dst : Mac) :
    Ledger s (s.meshPathTxPending dst) [] := by
  unfold MeshInfo.meshPathTxPending
  split
  · exact Ledger.refl hs
  · rename_i p hfind
    split
    · rw [(hs.found hfind).1]
      exact (take_ledger hs hfind).transmit
    · exact Ledger.refl hs

/-- The frames of a deleted path are freed. -/
theorem tablePathDel_ledger (hs : QueuesOk s) (t : Tbl) (dst : Mac) :
    Ledger s (s.tablePathDel cfg t dst) [] := by
  unfold MeshInfo.tablePathDel
  split
  · exact Ledger.refl hs
  · rename_i p hfind
    have hremove : Ledger s (s.remove t dst) p.frameQueue := by
      refine ⟨⟨fun t' => ?_, fun t' => ?_, hs.tx⟩, fun x => ?_, rfl⟩
      · exact forall_setPaths (P := fun _ l => Keyed.Unique Mpath.dst l) ((hs.uniq t).remove dst)
          (fun t' _ => hs.uniq t') t'
      · exact forall_setPaths (P := fun _ l => ∀ p ∈ l, p.QueueOk)
          (fun q hq => hs.paths t q (List.mem_of_mem_filter hq)) (fun t' _ => hs.paths t') t'
      · have hon := onPaths_remove hs.uniq hfind x
        have hother (t' : Tbl) (ht : t' ≠ t) :
            (s.remove t dst).onPaths t' x = s.onPaths t' x := by
          rw [MeshInfo.onPaths, MeshInfo.remove, setPaths_ne s _ ht]
          rfl
        have hrest : (s.remove t dst).balance x = (s.remove t dst).onPaths .mesh x +
            (s.remove t dst).onPaths .mpp x + s.mpathTxQueue.count x + s.freed.count x +
              s.posted.count x - s.arrived.count x := rfl
        rw [hrest, MeshInfo.balance]
        cases t with
        | mesh =>
          rw [hother .mpp (by decide)]
          omega
        | mpp =>
          rw [hother .mesh (by decide)]
          omega
    have hgate : Ledger (s.remove t dst) ((s.remove t dst).meshGateDel cfg t p) [] :=
      meshGateDel_ledger hremove.ok t p
    have hfree := hremove.trans hgate
    rw [List.append_nil] at hfree
    exact hfree.free.accounts _ _ _ _ _

theorem tableFlush_ledger (hs : QueuesOk s) (t : Tbl) (c : Mpath F → Bool) :
    Ledger s (s.tableFlush cfg t c) [] := by
  refine List.foldlRecOn (motive := fun s' => Ledger s s' []) _ _ (Ledger.refl hs)
    fun s' hs' p _ => ?_
  split
  · exact hs'.trans (tablePathDel_ledger hs'.ok t p.dst)
  · exact hs'

theorem meshPathTblExpire_ledger (hs : QueuesOk s) (now : Jiffies) (t : Tbl) :
    Ledger s (s.meshPathTblExpire cfg now t) [] := by
  refine List.foldlRecOn (motive := fun s' => Ledger s s' []) _ _ (Ledger.refl hs)
    fun s' hs' p _ => ?_
  have hdel : Ledger s (if MeshInfo.outdated cfg now p then s'.tablePathDel cfg t p.dst else s')
      [] := by
    split
    · exact hs'.trans (tablePathDel_ledger hs'.ok t p.dst)
    · exact hs'
  exact hdel.trans (gateExpire_ledger hdel.ok now t p.dst)

theorem lookupMark_ledger (hs : QueuesOk s) (now : Jiffies) (dst : Mac) :
    Ledger s (s.lookupMark now dst) [] := by
  refine modify_ledger hs fun p => ?_
  split <;> exact ⟨rfl, rfl, rfl⟩

/-- A frame has come that is nowhere yet. -/
theorem arrive_ledger (hs : QueuesOk s) (now : Jiffies) (dst : Mac) (x : F) :
    Ledger s (s.arrive now dst x) [x] := by
  have hmark := lookupMark_ledger hs now dst
  refine ⟨{ hmark.ok with }, fun y => ?_, hmark.posted⟩
  have hbalance := hmark.balance y
  simp only [MeshInfo.balance, MeshInfo.arrive, MeshInfo.onPaths, List.count_append,
    List.count_nil] at hbalance ⊢
  omega

/-- A frame that was nowhere yet is put on a path. -/
theorem queueFrame_ledger {x : F} (h : Ledger s s' [x]) (hfind : s'.find .mesh dst ≠ none) :
    Ledger s (s'.queueFrame dst x) [] := by
  obtain ⟨p, hp⟩ := Option.ne_none_iff_exists'.1 hfind
  obtain ⟨hlen, hmax⟩ := h.ok.found hp
  unfold MeshInfo.queueFrame
  rw [hp]
  dsimp only
  split
  · rename_i hfull
    refine Ledger.free (h.change hp (fun _ => rfl) ?_ ?_)
    · have hlength : (p.frameQueue.tail ++ [x]).length = p.frameQueueLen - 1 + 1 := by
        simp [hlen]
      refine ⟨hlength.symm, ?_⟩
      show (p.frameQueue.tail ++ [x]).length ≤ _
      rw [hlength, hlen]
      unfold frameQueueMax at *
      omega
    · have hsplit := List.take_append_drop 1 p.frameQueue
      rw [List.drop_one] at hsplit
      refine List.perm_append_comm.trans ?_
      rw [setQueue_frameQueue, ← List.append_assoc, hsplit]
  · rename_i hroom
    refine h.change hp (fun _ => rfl) ?_ (by simp)
    have hlength : (p.frameQueue ++ [x]).length = p.frameQueueLen + 1 := by
      simp [hlen]
    refine ⟨hlength.symm, ?_⟩
    show (p.frameQueue ++ [x]).length ≤ _
    omega

theorem meshNexthopResolve_ledger (hs : QueuesOk s) (now : Jiffies) (x : F) (dst : Mac)
    (allocOk insertOk : Bool) :
    Ledger s (s.meshNexthopResolve cfg now x dst allocOk insertOk) [] := by
  have harrive := arrive_ledger hs now dst x
  have hfind := find_of_sameKeys (arrive_same s now dst x).sameKeys .mesh dst
  have hadd : Ledger s ((s.arrive now dst x).meshPathAdd cfg now dst allocOk insertOk).1 [x] :=
    harrive.trans (meshPathAdd_ledger harrive.ok now dst allocOk insertOk)
  rcases meshNexthopResolve_cases cfg s now x dst allocOk insertOk with
    ⟨-, -, h⟩ | ⟨hsome, h⟩ | ⟨-, ⟨s', e, hs', h⟩ | ⟨s', d, hs', h⟩⟩
  · rw [h]
    exact lookupMark_ledger hs now dst
  · rw [h]
    exact queueFrame_ledger harrive (mt hfind.1 hsome)
  · rw [hs'] at hadd
    rw [h]
    exact hadd.free
  · rw [hs'] at hadd
    rw [h]
    exact queueFrame_ledger hadd (find_of_meshPathAdd hs')

theorem txQueueFlush_ledger (hs : QueuesOk s) : Ledger s s.mpathTxQueueFlush [] := by
  refine ⟨⟨hs.uniq, hs.paths, rfl⟩, fun x => ?_, rfl⟩
  simp only [MeshInfo.balance, MeshInfo.mpathTxQueueFlush, MeshInfo.onPaths, List.count_append,
    List.count_nil]
  omega

end Ledgers

section Move

/-- The loop of `rtw_mesh_path_move_to_queue` fills the queue of the gate. -/
theorem moveLoop_eq (failq q : List F) (hq : q.length ≤ frameQueueMax) :
    MeshInfo.moveLoop failq failq.length q q.length =
      ((failq.drop (frameQueueMax - q.length), (failq.drop (frameQueueMax - q.length)).length),
        (q ++ failq.take (frameQueueMax - q.length),
          (q ++ failq.take (frameQueueMax - q.length)).length)) := by
  induction failq generalizing q with
  | nil => simp [MeshInfo.moveLoop]
  | cons x failq ih =>
    rw [MeshInfo.moveLoop]
    split
    · rename_i hfull
      rw [show frameQueueMax - q.length = 0 by omega]
      simp
    · rename_i hroom
      have hnext := ih (q ++ [x]) (by rw [List.length_append, List.length_singleton]; omega)
      have hk : frameQueueMax - q.length = frameQueueMax - (q ++ [x]).length + 1 := by
        rw [List.length_append, List.length_singleton]
        omega
      rw [List.length_append, List.length_singleton] at hnext
      rw [List.length_cons, Nat.add_sub_cancel, hnext, hk]
      simp

/-- The frames that `rtw_mesh_path_move_to_queue` leaves nowhere: when they are not to be kept on the
path they come from, those that the gate has no room for. -/
def lostFrames (s : MeshInfo F) (gate src : Mac) (copy : Bool) : List F :=
  match s.find .mesh gate, s.find .mesh src with
  | some g, some p =>
    if gate = src ∨ g.route.nextHop = none ∨ copy = true then []
    else p.frameQueue.drop (frameQueueMax - g.frameQueue.length)
  | _, _ => []

theorem lostFrames_copy (s : MeshInfo F) (gate src : Mac) : lostFrames s gate src true = [] := by
  unfold lostFrames
  split
  · simp
  · rfl

variable [DecidableEq F]

theorem meshPathMoveToQueue_ledger (hs : QueuesOk s) (gate src : Mac) (copy : Bool) :
    Ledger s (s.meshPathMoveToQueue gate src copy) (lostFrames s gate src copy) := by
  unfold MeshInfo.meshPathMoveToQueue lostFrames
  rcases hgate : s.find .mesh gate with _ | g
  · exact Ledger.refl hs
  rcases hsrc : s.find .mesh src with _ | p
  · exact Ledger.refl hs
  dsimp only
  by_cases hsame : gate = src
  · rw [if_pos hsame, if_pos (Or.inl hsame)]
    exact Ledger.refl hs
  by_cases hhop : g.route.nextHop = none
  · rw [if_neg hsame, if_pos hhop, if_pos (Or.inr (Or.inl hhop))]
    exact Ledger.refl hs
  obtain ⟨hglen, hgmax⟩ := hs.found hgate
  obtain ⟨hplen, hpmax⟩ := hs.found hsrc
  rw [if_neg hsame, if_neg hhop, hglen, hplen, moveLoop_eq _ _ hgmax]
  dsimp only
  have hempty := take_ledger hs hsrc
  have hgate' : (s.modify .mesh src fun p => p.setQueue [] 0).find .mesh gate = some g := by
    refine (find_modify_ne ?_ hsame).trans hgate
    exact fun _ => rfl
  have hsrc' : (s.modify .mesh src fun p => p.setQueue [] 0).find .mesh src =
      some (p.setQueue [] 0) := find_modify (fun _ => rfl) hsrc
  generalize s.modify .mesh src (fun p => p.setQueue [] 0) = s₁ at hempty hgate' hsrc' ⊢
  obtain ⟨k, hk⟩ : ∃ k, k = frameQueueMax - g.frameQueue.length := ⟨_, rfl⟩
  rw [← hk]
  have hmoved : Ledger s (s₁.modify .mesh gate fun g' =>
      g'.setQueue (g.frameQueue ++ p.frameQueue.take k) (g.frameQueue ++ p.frameQueue.take k).length)
      (p.frameQueue.drop k) := by
    refine hempty.change hgate' (fun _ => rfl) ⟨rfl, ?_⟩ (by simp)
    show (g.frameQueue ++ p.frameQueue.take k).length ≤ _
    rw [List.length_append, List.length_take]
    omega
  cases copy with
  | false =>
    rw [if_neg (show ¬(gate = src ∨ g.route.nextHop = none ∨ false = true) by simp [hsame, hhop])]
    exact hmoved
  | true =>
    rw [if_pos (show gate = src ∨ g.route.nextHop = none ∨ true = true by simp)]
    refine hmoved.change (p := p.setQueue [] 0) ?_ (fun _ => rfl) ⟨?_, ?_⟩ (by simp)
    · refine (find_modify_ne ?_ (Ne.symm hsame)).trans hsrc'
      exact fun _ => rfl
    · simp
    · show (p.frameQueue.drop k ++ []).length ≤ _
      rw [List.append_nil, List.length_drop]
      omega

/-- From the second gate on nothing is lost. -/
theorem sendLoop_copy_ledger (gates : List Mac) (hs : QueuesOk s) (src : Mac) :
    Ledger s (MeshInfo.sendLoop gates s src true) [] := by
  induction gates generalizing s src with
  | nil => exact Ledger.refl hs
  | cons gate gates ih =>
    rw [MeshInfo.sendLoop]
    split
    · have hmove := meshPathMoveToQueue_ledger hs gate src true
      rw [lostFrames_copy] at hmove
      exact hmove.trans (ih hmove.ok gate)
    · exact ih hs src

/-- What `rtw_mesh_path_send_to_gates` loses: the frames that the first active gate has no room
for. -/
def sendLost (s : MeshInfo F) (gates : List Mac) (src : Mac) : List F :=
  match gates.find? s.gateActive with
  | none => []
  | some gate => lostFrames s gate src false

theorem sendLoop_ledger (gates : List Mac) (hs : QueuesOk s) (src : Mac) :
    Ledger s (MeshInfo.sendLoop gates s src false) (sendLost s gates src) := by
  induction gates with
  | nil => exact Ledger.refl hs
  | cons gate gates ih =>
    unfold sendLost at *
    rw [MeshInfo.sendLoop, List.find?_cons]
    by_cases hactive : s.gateActive gate
    · rw [if_pos hactive, hactive]
      have hmove := meshPathMoveToQueue_ledger hs gate src false
      have hsend := hmove.trans (sendLoop_copy_ledger gates hmove.ok gate)
      rwa [List.append_nil] at hsend
    · rw [if_neg hactive, Bool.eq_false_of_not_eq_true hactive]
      exact ih

theorem meshPathSendToGates_ledger (hs : QueuesOk s) (h : s.find .mesh dst ≠ none) :
    Ledger s (s.meshPathSendToGates dst) (sendLost s s.knownGates dst) := by
  obtain ⟨p, hp⟩ := Option.ne_none_iff_exists'.1 h
  unfold MeshInfo.meshPathSendToGates
  rw [hp]
  refine List.foldlRecOn (motive := fun s' => Ledger s s' (sendLost s s.knownGates dst)) _ _
    (sendLoop_ledger s.knownGates hs dst) fun s' hs' gate _ => ?_
  have htx := hs'.trans (meshPathTxPending_ledger hs'.ok gate)
  rwa [List.append_nil] at htx

end Move

/-- The first active gate, if frames can be moved to it, has room for all frames of the path. -/
def GateRoom (s : MeshInfo F) : Op F → Prop
  | .sendToGates dst => ∀ gate g p, s.knownGates.find? s.gateActive = some gate →
    s.find .mesh gate = some g → s.find .mesh dst = some p → gate ≠ dst → g.route.nextHop ≠ none →
      g.frameQueue.length + p.frameQueue.length ≤ frameQueueMax
  | _ => True

theorem sendLost_eq_nil_iff (hs : QueuesOk s) (h : s.find .mesh dst ≠ none) :
    sendLost s s.knownGates dst = [] ↔ GateRoom s (.sendToGates dst) := by
  obtain ⟨p, hp⟩ := Option.ne_none_iff_exists'.1 h
  unfold sendLost GateRoom
  rcases hfirst : s.knownGates.find? s.gateActive with _ | gate
  · simp
  rcases hgate : s.find .mesh gate with _ | g
  · refine iff_of_true (by simp [lostFrames, hgate]) fun gate' g p hgate' hg => ?_
    rw [Option.some.injEq] at hgate'
    rw [← hgate', hgate] at hg
    cases hg
  have hmax := (hs.found hgate).2
  have hlost : lostFrames s gate dst false = [] ↔ (gate ≠ dst → g.route.nextHop ≠ none →
      g.frameQueue.length + p.frameQueue.length ≤ frameQueueMax) := by
    have heq : lostFrames s gate dst false =
        if gate = dst ∨ g.route.nextHop = none ∨ false = true then []
        else p.frameQueue.drop (frameQueueMax - g.frameQueue.length) := by
      rw [lostFrames, hgate, hp]
    by_cases hskip : gate = dst ∨ g.route.nextHop = none
    · rw [heq, if_pos (by simpa using hskip)]
      refine iff_of_true rfl fun hne hhop => ?_
      exact absurd hskip (not_or.2 ⟨hne, hhop⟩)
    · rw [heq, if_neg (by simpa using hskip), List.drop_eq_nil_iff]
      obtain ⟨hne, hhop⟩ := not_or.1 hskip
      constructor
      · intro hroom _ _
        omega
      · intro hroom
        have := hroom hne hhop
        omega
  rw [hlost]
  constructor
  · intro hroom gate' g' p' hgate' hg' hp'
    rw [Option.some.injEq] at hgate'
    subst hgate'
    rw [hgate, Option.some.injEq] at hg'
    rw [hp, Option.some.injEq] at hp'
    subst hg' hp'
    exact hroom
  · intro hroom
    exact hroom gate g p rfl hgate hp

/-- Every frame that came without a next hop is in exactly one place as often as it came, and the
lengths of all queues are right and within bounds. -/
structure PendingOk (s : MeshInfo F) : Prop where
  conserved : s.places.Perm s.arrived
  paths : ∀ t, ∀ p ∈ s.paths t,
    p.frameQueueLen = p.frameQueue.length ∧ p.frameQueue.length ≤ frameQueueMax
  tx : s.mpathTxQueueLen = s.mpathTxQueue.length

section Run

variable [DecidableEq F]

/-- A step other than the tasklet keeps all frames but those that `rtw_mesh_path_send_to_gates`
loses. -/
theorem step_ledger (cfg : Cfg) (hs : QueuesOk s) {op : Op F} (hop : op ≠ .txTasklet) :
    ∃ lost, Ledger s (step cfg s op) lost ∧ (lost = [] ↔ GateRoom s op) := by
  have hkeep {s' : MeshInfo F} (h : Ledger s s' []) :
      ∃ lost, Ledger s s' lost ∧ (lost = [] ↔ True) := ⟨[], h, by simp⟩
  cases op with
  | pathAdd now dst a i => exact hkeep (meshPathAdd_ledger hs now dst a i)
  | mppPathAdd now dst mpp a i => exact hkeep (mppPathAdd_ledger hs now dst mpp a i)
  | pathDel addr =>
    have hmpp : Ledger s (s.mppFlushByProxy cfg addr) [] := tableFlush_ledger hs .mpp _
    exact hkeep (hmpp.trans (tablePathDel_ledger hmpp.ok .mesh addr))
  | flushByNexthop sta => exact hkeep (tableFlush_ledger hs .mesh _)
  | flushByIface =>
    have hmesh : Ledger s (s.tableFlush cfg .mesh fun _ => true) [] :=
      tableFlush_ledger hs .mesh _
    exact hkeep (hmesh.trans (tableFlush_ledger hmesh.ok .mpp _))
  | expire now =>
    have hmesh : Ledger s (s.meshPathTblExpire cfg now .mesh) [] :=
      meshPathTblExpire_ledger hs now .mesh
    exact hkeep (hmesh.trans (meshPathTblExpire_ledger hmesh.ok now .mpp))
  | addGate now dst => exact hkeep (meshPathAddGate_ledger hs now dst)
  | gateDel dst => exact hkeep (pathGateDel_ledger hs dst)
  | select dst route => exact hkeep (modify_ledger hs fun _ => ⟨rfl, rfl, rfl⟩)
  | nexthopResolve now x dst a i => exact hkeep (meshNexthopResolve_ledger hs now x dst a i)
  | txPending dst => exact hkeep (meshPathTxPending_ledger hs dst)
  | sendToGates dst =>
    rcases hfind : s.find .mesh dst with _ | p
    · refine ⟨[], ?_, ?_⟩
      · rw [step, MeshInfo.meshPathSendToGates, hfind]
        exact Ledger.refl hs
      · simp [GateRoom, hfind]
    · have hsome : s.find .mesh dst ≠ none := by simp [hfind]
      exact ⟨_, meshPathSendToGates_ledger hs hsome, sendLost_eq_nil_iff hs hsome⟩
  | flushPending dst => exact hkeep (meshPathFlushPending_ledger hs dst)
  | txTasklet => exact absurd rfl hop
  | txQueueFlush => exact hkeep (txQueueFlush_ledger hs)

theorem mpathTxTaskletHdl_ok (hs : QueuesOk s) :
    QueuesOk s.mpathTxTaskletHdl ∧ ∀ x, s.mpathTxTaskletHdl.balance x = s.balance x := by
  unfold MeshInfo.mpathTxTaskletHdl
  split
  · exact ⟨hs, fun _ => rfl⟩
  · refine ⟨⟨hs.uniq, hs.paths, rfl⟩, fun x => ?_⟩
    simp only [MeshInfo.balance, MeshInfo.onPaths, List.count_append, List.count_nil]
    omega

theorem pendingOk_iff (hs : s.Uniq) :
    PendingOk s ↔ QueuesOk s ∧ ∀ x, s.balance x = 0 := by
  rw [balance_eq_zero_iff]
  constructor
  · intro h
    exact ⟨⟨hs, h.paths, h.tx⟩, h.conserved⟩
  · rintro ⟨hok, hperm⟩
    exact ⟨hperm, hok.paths, hok.tx⟩

/-- A step keeps all frames exactly if the gate it moves frames to has room. -/
theorem step_pendingOk_iff (cfg : Cfg) (huniq : s.Uniq) (hs : PendingOk s) (op : Op F) :
    PendingOk (step cfg s op) ↔ GateRoom s op := by
  obtain ⟨hok, hzero⟩ := (pendingOk_iff huniq).1 hs
  rw [pendingOk_iff (step_uniq cfg huniq op)]
  by_cases hop : op = .txTasklet
  · subst hop
    obtain ⟨hok', hbalance⟩ := mpathTxTaskletHdl_ok hok
    refine iff_of_true ⟨hok', fun x => ?_⟩ trivial
    exact (hbalance x).trans (hzero x)
  · obtain ⟨lost, hledger, hlost⟩ := step_ledger cfg hok hop
    rw [← hlost, and_iff_right hledger.ok, List.eq_nil_iff_forall_not_mem]
    refine forall_congr' fun x => ?_
    rw [hledger.balance, hzero, ← List.count_eq_zero]
    omega

theorem step_posted (cfg : Cfg) (hs : QueuesOk s) {op : Op F} (hop : op ≠ .txTasklet) :
    QueuesOk (step cfg s op) ∧ (step cfg s op).posted = s.posted := by
  obtain ⟨lost, hledger, -⟩ := step_ledger cfg hs hop
  exact ⟨hledger.ok, hledger.posted⟩

end Run

theorem init_queuesOk : QueuesOk (init F) :=
  ⟨fun _ => List.nodup_nil, fun _ p hp => by simp [init] at hp, rfl⟩

/-- In every state of a run each frame that waits for its next hop is in exactly one place and the
queue lengths are right, exactly if the first active gate has room each time that frames are sent to
the gates. Without the tasklet no frame is given to the transmission. -/
theorem pending_frames_iff (cfg : Cfg) (ops : List (Op F)) :
    ((∀ k, PendingOk (run (step cfg) (init F) (ops.take k))) ↔
      Along (step cfg) GateRoom (init F) ops) ∧
    ((∀ op ∈ ops, op ≠ .txTasklet) → (run (step cfg) (init F) ops).posted = []) := by
  classical
  constructor
  · have hstep : ∀ s, ∀ op ∈ ops, (s.Uniq ∧ PendingOk s) →
        ((step cfg s op).Uniq ∧ PendingOk (step cfg s op) ↔ GateRoom s op) := by
      intro s op _ hs
      rw [and_iff_right (step_uniq cfg hs.1 op)]
      exact step_pendingOk_iff cfg hs.1 hs.2 op
    have hinit : (init F).Uniq ∧ PendingOk (init F) :=
      ⟨init_queuesOk.uniq, List.Perm.refl _, init_queuesOk.paths, rfl⟩
    rw [← forall_take_iff_along hstep hinit]
    refine forall_congr' fun k => (and_iff_right ?_).symm
    exact run_invariant (P := fun _ _ => True) (fun _ op hs _ => step_uniq cfg hs op)
      hinit.1 (along_of_forall fun _ _ _ => trivial)
  · intro hops
    have hstep : ∀ (s : MeshInfo F) op, (QueuesOk s ∧ s.posted = []) → op ≠ .txTasklet →
        QueuesOk (step cfg s op) ∧ (step cfg s op).posted = [] := by
      intro s op hs hop
      obtain ⟨hok, hposted⟩ := step_posted cfg hs.1 hop
      exact ⟨hok, hposted.trans hs.2⟩
    have halong : Along (step cfg) (fun _ op => op ≠ Op.txTasklet) (init F) ops :=
      along_of_forall fun _ op hop => hops op hop
    exact (run_invariant (I := fun s => QueuesOk s ∧ s.posted = []) hstep
      ⟨init_queuesOk, rfl⟩ halong).2

/-- A gate whose queue is full becomes active before the frame of another path is sent to it. -/
def fullGateRun : List (Op ℕ) :=
  (List.range 10).map (fun x => .nexthopResolve 0 x (.ending 2) true true) ++
    [.addGate 0 (.ending 2),
      .select (.ending 2) ⟨some ⟨0, by decide⟩, true, false, false, 0, 0, 0, false⟩,
      .nexthopResolve 0 10 (.ending 3) true true,
      .sendToGates (.ending 3)]

/-- The frame that the gate has no room for is nowhere. -/
theorem full_gate_loses_frame :
    ∃ k, ¬PendingOk (run (step stationCfg) (init ℕ) (fullGateRun.take k)) := by
  refine ⟨14, fun h => ?_⟩
  have hlength := h.conserved.length_eq
  revert hlength
  decide

end Rtl8821cu.Mesh
