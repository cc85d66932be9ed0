import Rtl8821cu.MeshPathtbl

/-! What the routines of the mesh path table leave as it was, and what the deletion of paths does to
the tables and to the path count. -/
namespace Rtl8821cu.Mesh
open Keyed

variable {F : Type} {s s' s'' : MeshInfo F} {t t' : Tbl} {dst : Mac} {f : Mpath F → Mpath F}
  {cfg : Cfg}

section Tables

@[simp] theorem setPaths_self (s : MeshInfo F) (t : Tbl) (l : List (Mpath F)) :
    (s.setPaths t l).paths t = l := by
  simp [MeshInfo.setPaths]

theorem setPaths_ne (s : MeshInfo F) (l : List (Mpath F)) (h : t' ≠ t) :
    (s.setPaths t l).paths t' = s.paths t' := by
  simp [MeshInfo.setPaths, h]

/-- A property of all tables after a change of one of them. -/
theorem forall_setPaths {P : Tbl → List (Mpath F) → Prop} {l : List (Mpath F)} (h : P t l)
    (hs : ∀ t', t' ≠ t → P t' (s.paths t')) (t' : Tbl) : P t' ((s.setPaths t l).paths t') := by
  by_cases ht : t' = t
  · subst ht
    rwa [setPaths_self]
  · rw [setPaths_ne s l ht]
    exact hs t' ht

end Tables

/-- The addresses of a table. -/
def MeshInfo.keys (s : MeshInfo F) (t : Tbl) : List Mac := (s.paths t).map Mpath.dst

/-- The tables have the same addresses, and the path count is the same. -/
structure SameKeys (s s' : MeshInfo F) : Prop where
  keys : ∀ t, s'.keys t = s.keys t
  mpaths : s'.mpaths = s.mpaths

/-- The tables have the same addresses with the same gates among them, and the accounts of paths
and gates are the same. -/
structure SameTable (s s' : MeshInfo F) : Prop where
  entries : ∀ t, (s'.paths t).map (fun p => (p.dst, p.isGate)) =
    (s.paths t).map fun p => (p.dst, p.isGate)
  mpaths : s'.mpaths = s.mpaths
  knownGates : s'.knownGates = s.knownGates
  numGates : s'.numGates = s.numGates
  maxAddrGate : s'.maxAddrGate = s.maxAddrGate
  larger : s'.maxAddrGateIsLargerThanSelf = s.maxAddrGateIsLargerThanSelf

section Same

theorem SameKeys.refl (s : MeshInfo F) : SameKeys s s := ⟨fun _ => rfl, rfl⟩

theorem SameKeys.trans (h : SameKeys s s') (h' : SameKeys s' s'') : SameKeys s s'' :=
  ⟨fun t => (h'.keys t).trans (h.keys t), h'.mpaths.trans h.mpaths⟩

theorem SameTable.refl (s : MeshInfo F) : SameTable s s :=
  ⟨fun _ => rfl, rfl, rfl, rfl, rfl, rfl⟩

theorem SameTable.trans (h : SameTable s s') (h' : SameTable s' s'') : SameTable s s'' :=
  ⟨fun t => (h'.entries t).trans (h.entries t), h'.mpaths.trans h.mpaths,
    h'.knownGates.trans h.knownGates, h'.numGates.trans h.numGates,
    h'.maxAddrGate.trans h.maxAddrGate, h'.larger.trans h.larger⟩

theorem SameTable.sameKeys (h : SameTable s s') : SameKeys s s' := by
  refine ⟨fun t => ?_, h.mpaths⟩
  have := congrArg (List.map Prod.fst) (h.entries t)
  simpa [MeshInfo.keys, Function.comp_def] using this

theorem find_of_sameKeys (h : SameKeys s s') (t : Tbl) (dst : Mac) :
    s'.find t dst = none ↔ s.find t dst = none := by
  have hkeys (s : MeshInfo F) : s.find t dst = none ↔ dst ∉ s.keys t := by
    unfold MeshInfo.find MeshInfo.keys
    rw [find_eq_none]
    simp
  rw [hkeys, hkeys, h.keys]

theorem modify_keys (hf : ∀ p, (f p).dst = p.dst) : SameKeys s (s.modify t dst f) :=
  ⟨fun t' => forall_setPaths (P := fun t' l => l.map Mpath.dst = s.keys t')
    (map_modify _ fun p _ => hf p) (fun _ _ => rfl) t', rfl⟩

theorem modify_same (hf : ∀ p, (f p).dst = p.dst ∧ (f p).isGate = p.isGate) :
    SameTable s (s.modify t dst f) :=
  ⟨fun t' => forall_setPaths
    (P := fun t' l => l.map (fun p => (p.dst, p.isGate)) =
      (s.paths t').map fun p => (p.dst, p.isGate))
    (map_modify _ fun p _ => by rw [(hf p).1, (hf p).2]) (fun _ _ => rfl) t',
    rfl, rfl, rfl, rfl, rfl⟩

/-- The frames outside the paths do not count. -/
theorem SameTable.frames (h : SameTable s s') (q : List F) (n : ℕ) (freed posted arrived : List F) :
    SameTable s { s' with
      mpathTxQueue := q
      mpathTxQueueLen := n
      freed := freed
      posted := posted
      arrived := arrived } :=
  ⟨h.entries, h.mpaths, h.knownGates, h.numGates, h.maxAddrGate, h.larger⟩

/-- The accounts of gates do not count. -/
theorem SameKeys.gates (h : SameKeys s s') (gates : List Mac) (n : ℤ) (m : Option Mac) (b : Bool) :
    SameKeys s { s' with
      knownGates := gates
      numGates := n
      maxAddrGate := m
      maxAddrGateIsLargerThanSelf := b } :=
  ⟨h.keys, h.mpaths⟩

theorem meshPathFlushPending_same (s : MeshInfo F) (dst : Mac) :
    SameTable s (s.meshPathFlushPending dst) := by
  unfold MeshInfo.meshPathFlushPending
  split
  · exact SameTable.refl s
  · apply SameTable.frames
    exact modify_same fun p => ⟨rfl, rfl⟩

theorem lookupMark_same (s : MeshInfo F) (now : Jiffies) (dst : Mac) :
    SameTable s (s.lookupMark now dst) := by
  refine modify_same fun p => ?_
  split <;> exact ⟨rfl, rfl⟩

theorem queueFrame_same (s : MeshInfo F) (dst : Mac) (x : F) :
    SameTable s (s.queueFrame dst x) := by
  unfold MeshInfo.queueFrame
  split
  · exact SameTable.refl s
  · split
    · apply SameTable.frames
      exact modify_same fun p => ⟨rfl, rfl⟩
    · exact modify_same fun p => ⟨rfl, rfl⟩

theorem meshPathTxPending_same (s : MeshInfo F) (dst : Mac) :
    SameTable s (s.meshPathTxPending dst) := by
  unfold MeshInfo.meshPathTxPending
  split
  · exact SameTable.refl s
  · split
    · apply SameTable.frames
      exact modify_same fun p => ⟨rfl, rfl⟩
    · exact SameTable.refl s

theorem meshPathMoveToQueue_same (s : MeshInfo F) (gate src : Mac) (copy : Bool) :
    SameTable s (s.meshPathMoveToQueue gate src copy) := by
  unfold MeshInfo.meshPathMoveToQueue
  split
  · split
    · exact SameTable.refl s
    · split
      · exact SameTable.refl s
      · dsimp only
        have hempty : SameTable s (s.modify .mesh src fun p => p.setQueue [] 0) :=
          modify_same fun p => ⟨rfl, rfl⟩
        split
        · apply hempty.trans
          exact modify_same fun p => ⟨rfl, rfl⟩
        · apply (hempty.trans _).trans
          · exact modify_same fun p => ⟨rfl, rfl⟩
          · exact modify_same fun p => ⟨rfl, rfl⟩
  · exact SameTable.refl s

theorem sendLoop_same (gates : List Mac) (s : MeshInfo F) (src : Mac) (copy : Bool) :
    SameTable s (MeshInfo.sendLoop gates s src copy) := by
  induction gates generalizing s src copy with
  | nil => exact SameTable.refl s
  | cons gate gates ih =>
    rw [MeshInfo.sendLoop]
    split
    · exact (meshPathMoveToQueue_same s gate src copy).trans (ih _ _ _)
    · exact ih s src copy

theorem meshPathSendToGates_same (s : MeshInfo F) (dst : Mac) :
    SameTable s (s.meshPathSendToGates dst) := by
  unfold MeshInfo.meshPathSendToGates
  split
  · exact SameTable.refl s
  · exact List.foldlRecOn _ _ (sendLoop_same _ s dst false)
      fun s' hs' gate _ => hs'.trans (meshPathTxPending_same s' gate)

theorem mpathTxTaskletHdl_same (s : MeshInfo F) : SameTable s s.mpathTxTaskletHdl := by
  unfold MeshInfo.mpathTxTaskletHdl
  split
  · exact SameTable.refl s
  · apply SameTable.frames
    exact SameTable.refl s

theorem meshGateDel_keys (cfg : Cfg) (s : MeshInfo F) (t : Tbl) (p : Mpath F) :
    SameKeys s (s.meshGateDel cfg t p) := by
  have hmodify : SameKeys s (s.modify t p.dst fun p => { p with isGate := false }) :=
    modify_keys fun p => rfl
  unfold MeshInfo.meshGateDel
  dsimp only
  split
  · exact SameKeys.refl s
  · split
    · exact hmodify.gates _ _ _ _
    · split <;> exact hmodify.gates _ _ _ _

theorem meshPathAddGate_keys (cfg : Cfg) (s : MeshInfo F) (now : Jiffies) (dst : Mac) :
    SameKeys s (s.meshPathAddGate cfg now dst) := by
  unfold MeshInfo.meshPathAddGate
  split
  · exact SameKeys.refl s
  · dsimp only
    have htime : SameKeys s (s.modify .mesh dst (MeshInfo.setGateTimeout cfg now)) :=
      modify_keys fun p => rfl
    split
    · exact htime
    · split
      · apply SameKeys.gates
        apply htime.trans
        exact modify_keys fun p => rfl
      · apply SameKeys.gates
        apply htime.trans
        exact modify_keys fun p => rfl

theorem gateExpire_keys (cfg : Cfg) (s : MeshInfo F) (now : Jiffies) (t : Tbl) (dst : Mac) :
    SameKeys s (s.gateExpire cfg now t dst) := by
  unfold MeshInfo.gateExpire
  split
  · exact SameKeys.refl s
  · split
    · split
      · exact meshGateDel_keys cfg s t _
      · exact modify_keys fun p => rfl
    · exact SameKeys.refl s

end Same

/-- The addresses for which `rtw_mesh_path_add` does not count a path. -/
def Rejected (cfg : Cfg) (s : MeshInfo F) (dst : Mac) : Prop :=
  dst = cfg.macAddr ∨ dst.isMcast ∨ s.mpaths = maxMpaths

/-- `rtw_mesh_path_add` turns the address down, counts a path without making one, or makes one. -/
theorem meshPathAdd_cases (cfg : Cfg) (s : MeshInfo F) (now : Jiffies) (dst : Mac)
    (allocOk insertOk : Bool) :
    (Rejected cfg s dst ∧
      ∃ e, s.meshPathAdd cfg now dst allocOk insertOk = (s, .error e)) ∨
    (¬Rejected cfg s dst ∧ ¬(allocOk ∧ insertOk ∧ s.find .mesh dst = none) ∧
      ∃ r, s.meshPathAdd cfg now dst allocOk insertOk = ({ s with mpaths := s.mpaths + 1 }, r) ∧
        ∀ d, r = .ok d → d = dst ∧ s.find .mesh dst ≠ none) ∨
    ¬Rejected cfg s dst ∧ (allocOk ∧ insertOk ∧ s.find .mesh dst = none) ∧
      s.meshPathAdd cfg now dst allocOk insertOk =
        (({ s with mpaths := s.mpaths + 1 } : MeshInfo F).setPaths .mesh
          (meshPathNew F now dst Mac.zero :: s.paths .mesh), .ok dst) := by
  have hfind : ({ s with mpaths := s.mpaths + 1 } : MeshInfo F).find .mesh dst =
      s.find .mesh dst := rfl
  unfold Rejected MeshInfo.meshPathAdd
  by_cases hself : dst = cfg.macAddr
  · exact Or.inl ⟨Or.inl hself, _, if_pos hself⟩
  by_cases hmcast : dst.isMcast
  · exact Or.inl ⟨Or.inr (Or.inl hmcast), _, by rw [if_neg hself, if_pos hmcast]⟩
  by_cases hmax : s.mpaths = maxMpaths
  · exact Or.inl ⟨Or.inr (Or.inr hmax), _, by rw [if_neg hself, if_neg hmcast, if_pos hmax]⟩
  refine Or.inr ?_
  have hnot : ¬(dst = cfg.macAddr ∨ dst.isMcast ∨ s.mpaths = maxMpaths) := by
    rintro (h | h | h)
    exacts [hself h, hmcast h, hmax h]
  rw [if_neg hself, if_neg hmcast, if_neg hmax]
  dsimp only
  rw [hfind]
  rcases allocOk with _ | _
  · exact Or.inl ⟨hnot, by simp, _, rfl, by simp⟩
  rcases hentry : s.find .mesh dst with _ | p
  · rcases insertOk with _ | _
    · exact Or.inl ⟨hnot, by simp, _, rfl, by simp⟩
    · exact Or.inr ⟨hnot, by simp, rfl⟩
  · refine Or.inl ⟨hnot, by simp, _, rfl, fun d hd => ?_⟩
    simp only [Except.ok.injEq] at hd
    exact ⟨hd.symm, by simp⟩

/-- A state of `rtw_mesh_nexthop_resolve`: the frame has come and no next hop was found. -/
def MeshInfo.arrive (s : MeshInfo F) (now : Jiffies) (dst : Mac) (x : F) : MeshInfo F :=
  { s.lookupMark now dst with arrived := (s.lookupMark now dst).arrived ++ [x] }

theorem arrive_same (s : MeshInfo F) (now : Jiffies) (dst : Mac) (x : F) :
    SameTable s (s.arrive now dst x) :=
  (lookupMark_same s now dst).frames _ _ _ _ _

/-- `rtw_mesh_nexthop_resolve` finds the next hop, queues the frame on the path that is there, or
asks for a new path. -/
theorem meshNexthopResolve_cases (cfg : Cfg) (s : MeshInfo F) (now : Jiffies) (x : F) (dst : Mac)
    (allocOk insertOk : Bool) :
    ((s.lookupMark now dst).hasNexthop dst ∧ s.find .mesh dst ≠ none ∧
      s.meshNexthopResolve cfg now x dst allocOk insertOk = s.lookupMark now dst) ∨
    (s.find .mesh dst ≠ none ∧
      s.meshNexthopResolve cfg now x dst allocOk insertOk =
        (s.arrive now dst x).queueFrame dst x) ∨
    s.find .mesh dst = none ∧
      ((∃ s' e, (s.arrive now dst x).meshPathAdd cfg now dst allocOk insertOk = (s', .error e) ∧
        s.meshNexthopResolve cfg now x dst allocOk insertOk =
          { s' with freed := s'.freed ++ [x] }) ∨
      ∃ s' d, (s.arrive now dst x).meshPathAdd cfg now dst allocOk insertOk = (s', .ok d) ∧
        s.meshNexthopResolve cfg now x dst allocOk insertOk = s'.queueFrame d x) := by
  have hfind := find_of_sameKeys (lookupMark_same s now dst).sameKeys .mesh dst
  have harrive : (s.arrive now dst x).find .mesh dst = (s.lookupMark now dst).find .mesh dst := rfl
  rw [MeshInfo.meshNexthopResolve_eq cfg s now x dst allocOk insertOk (t := s.arrive now dst x) rfl,
    harrive]
  rcases hentry : (s.lookupMark now dst).find .mesh dst with _ | p
  · have hhop : ¬(s.lookupMark now dst).hasNexthop dst := by
      simp [MeshInfo.hasNexthop, hentry]
    rw [if_neg hhop, if_neg (by simp)]
    refine Or.inr (Or.inr ⟨hfind.1 hentry, ?_⟩)
    rcases (s.arrive now dst x).meshPathAdd cfg now dst allocOk insertOk with ⟨s', e | d⟩
    · exact Or.inl ⟨s', e, rfl, rfl⟩
    · exact Or.inr ⟨s', d, rfl, rfl⟩
  · have hsome : s.find .mesh dst ≠ none := by
      rw [Ne, ← hfind, hentry]
      simp
    by_cases hhop : (s.lookupMark now dst).hasNexthop dst
    · exact Or.inl ⟨hhop, hsome, if_pos hhop⟩
    · exact Or.inr (Or.inl ⟨hsome, by rw [if_neg hhop, if_pos (by simp)]⟩)

section Delete

theorem modify_other (h : t' ≠ t) : (s.modify t dst f).paths t' = s.paths t' :=
  setPaths_ne s _ h

theorem modify_absent (h : s.find t dst = none) : (s.modify t dst f).paths = s.paths := by
  simp only [MeshInfo.modify, MeshInfo.setPaths, modify_of_not_mem (find_eq_none.1 h),
    Function.update_eq_self]

theorem find_modify {p : Mpath F} (hf : ∀ p, (f p).dst = p.dst) (h : s.find t dst = some p) :
    (s.modify t dst f).find t dst = some (f p) := by
  rw [MeshInfo.find, MeshInfo.modify, setPaths_self]
  exact find_modify_self hf h

theorem find_modify_ne {dst' : Mac} (hf : ∀ p, (f p).dst = p.dst) (h : dst' ≠ dst) :
    (s.modify t dst f).find t dst' = s.find t dst' := by
  rw [MeshInfo.find, MeshInfo.modify, setPaths_self]
  exact find_modify_of_ne hf h

theorem meshGateDel_paths (cfg : Cfg) (s : MeshInfo F) (t : Tbl) (p : Mpath F) :
    (s.meshGateDel cfg t p).paths =
      if p.isGate then (s.modify t p.dst fun p => { p with isGate := false }).paths
      else s.paths := by
  unfold MeshInfo.meshGateDel
  by_cases hgate : p.isGate
  · simp only [hgate, Bool.not_true, Bool.false_eq_true, if_false, if_true]
    split
    · rfl
    · split <;> rfl
  · simp [hgate]

theorem meshGateDel_other (cfg : Cfg) (s : MeshInfo F) (p : Mpath F) (h : t' ≠ t) :
    (s.meshGateDel cfg t p).paths t' = s.paths t' := by
  rw [meshGateDel_paths]
  split
  · exact modify_other h
  · rfl

theorem gateExpire_other (cfg : Cfg) (s : MeshInfo F) (now : Jiffies) (dst : Mac) (h : t' ≠ t) :
    (s.gateExpire cfg now t dst).paths t' = s.paths t' := by
  unfold MeshInfo.gateExpire
  split
  · rfl
  · split
    · split
      · exact meshGateDel_other cfg s _ h
      · exact modify_other h
    · rfl

/-- A deleted path leaves its table, and nothing else changes in the tables. -/
theorem tablePathDel_paths (cfg : Cfg) (s : MeshInfo F) (t : Tbl) (dst : Mac) :
    (s.tablePathDel cfg t dst).paths = (s.remove t dst).paths := by
  unfold MeshInfo.tablePathDel
  split
  · rename_i hfind
    simp only [MeshInfo.remove, MeshInfo.setPaths, remove_of_not_mem (find_eq_none.1 hfind),
      Function.update_eq_self]
  · rename_i p hfind
    have hdst : p.dst = dst := (mem_of_find hfind).2
    have habsent : (s.remove t dst).find t p.dst = none := by
      rw [hdst, MeshInfo.find, MeshInfo.remove, setPaths_self]
      exact find_remove _ _
    show ((s.remove t dst).meshGateDel cfg t p).paths = _
    rw [meshGateDel_paths]
    split
    · exact modify_absent habsent
    · rfl

theorem tablePathDel_self (cfg : Cfg) (s : MeshInfo F) (t : Tbl) (dst : Mac) :
    (s.tablePathDel cfg t dst).paths t = Keyed.remove Mpath.dst (s.paths t) dst := by
  rw [tablePathDel_paths, MeshInfo.remove, setPaths_self]

theorem tablePathDel_other (cfg : Cfg) (s : MeshInfo F) (dst : Mac) (h : t' ≠ t) :
    (s.tablePathDel cfg t dst).paths t' = s.paths t' := by
  rw [tablePathDel_paths, MeshInfo.remove, setPaths_ne s _ h]

theorem tablePathDel_mpaths (cfg : Cfg) (s : MeshInfo F) (t : Tbl) (dst : Mac) :
    (s.tablePathDel cfg t dst).mpaths = s.mpaths - if (s.find t dst).isSome then 1 else 0 := by
  unfold MeshInfo.tablePathDel
  split
  · rename_i hfind
    simp [hfind]
  · rename_i p hfind
    have hsame := (meshGateDel_keys cfg (s.remove t dst) t p).mpaths
    simp only [MeshInfo.meshPathFreeRcu, hsame, hfind]
    rfl

end Delete

end Rtl8821cu.Mesh
