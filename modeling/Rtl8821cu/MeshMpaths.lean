import Rtl8821cu.MeshTable

/-! The path count of the mesh (`mpaths`): when it is the number of entries of the mesh path table. -/
namespace Rtl8821cu.Mesh
open Keyed Run

variable {F : Type} {s s' : MeshInfo F} {cfg : Cfg}

/-- No table has two entries for one address. -/
def MeshInfo.Uniq (s : MeshInfo F) : Prop := ∀ t, Unique Mpath.dst (s.paths t)

/-- By how much the path count is too large. -/
def MeshInfo.excess (s : MeshInfo F) : ℤ := s.mpaths - (s.paths .mesh).length

section Tables

theorem SameKeys.uniq (h : SameKeys s s') (hs : s.Uniq) : s'.Uniq := by
  intro t
  have hkeys := h.keys t
  have := hs t
  unfold Keyed.Unique MeshInfo.keys at *
  rwa [hkeys]

theorem SameKeys.excess (h : SameKeys s s') : s'.excess = s.excess := by
  have hlen := congrArg List.length (h.keys .mesh)
  simp only [MeshInfo.keys, List.length_map] at hlen
  rw [MeshInfo.excess, MeshInfo.excess, h.mpaths, hlen]

theorem tablePathDel_uniq (hs : s.Uniq) (t : Tbl) (dst : Mac) :
    (s.tablePathDel cfg t dst).Uniq := by
  intro t'
  rw [tablePathDel_paths]
  exact forall_setPaths (P := fun _ l => Unique Mpath.dst l) ((hs t).remove dst)
    (fun t' _ => hs t') t'

/-- The deletion of a mesh path keeps the count right. -/
theorem tablePathDel_mesh_excess (hs : s.Uniq) (dst : Mac) :
    (s.tablePathDel cfg .mesh dst).excess = s.excess := by
  unfold MeshInfo.excess
  rw [tablePathDel_mpaths, tablePathDel_self]
  rcases hfind : s.find .mesh dst with _ | p
  · rw [remove_of_not_mem (find_eq_none.1 hfind)]
    simp
  · have hlen := length_remove (hs .mesh) hfind
    simp only [Option.isSome_some, if_true]
    omega

/-- The deletion of a proxy path takes one mesh path off the count. -/
theorem tablePathDel_mpp_excess (s : MeshInfo F) (dst : Mac) :
    (s.tablePathDel cfg .mpp dst).excess =
      s.excess - if (s.find .mpp dst).isSome then 1 else 0 := by
  unfold MeshInfo.excess
  rw [tablePathDel_mpaths, tablePathDel_other cfg s dst (by decide)]
  omega

end Tables

section Walk

variable (c : Mpath F → Bool) (g : MeshInfo F → Mpath F → MeshInfo F)

/-- One step of a walk over a table that deletes the paths of which `c` holds. -/
def walkStep (cfg : Cfg) (t : Tbl) (s : MeshInfo F) (p : Mpath F) : MeshInfo F :=
  g (if c p then s.tablePathDel cfg t p.dst else s) p

variable {c g}

theorem walk_other {t t' : Tbl} (hother : ∀ s p, (g s p).paths t' = s.paths t')
    (h : t' ≠ t) (l : List (Mpath F)) :
    (l.foldl (walkStep c g cfg t) s).paths t' = s.paths t' := by
  induction l generalizing s with
  | nil => rfl
  | cons p l ih =>
    rw [List.foldl_cons, ih, walkStep, hother]
    split
    · exact tablePathDel_other cfg s p.dst h
    · rfl

variable (hg : ∀ s p, SameKeys s (g s p))
include hg

theorem walkStep_uniq (t : Tbl) (hs : s.Uniq) (p : Mpath F) : (walkStep c g cfg t s p).Uniq := by
  apply (hg _ p).uniq
  split
  · exact tablePathDel_uniq hs t p.dst
  · exact hs

theorem walk_uniq (t : Tbl) (l : List (Mpath F)) (hs : s.Uniq) :
    (l.foldl (walkStep c g cfg t) s).Uniq :=
  List.foldlRecOn l _ hs fun _ hs' p _ => walkStep_uniq hg t hs' p

theorem walk_mesh_excess (l : List (Mpath F)) (hs : s.Uniq) :
    (l.foldl (walkStep c g cfg .mesh) s).excess = s.excess := by
  induction l generalizing s with
  | nil => rfl
  | cons p l ih =>
    rw [List.foldl_cons, ih (walkStep_uniq hg _ hs p), walkStep, (hg _ p).excess]
    split
    · exact tablePathDel_mesh_excess hs p.dst
    · rfl

/-- Each proxy path that a walk deletes takes one mesh path off the count. -/
theorem walk_mpp_excess (l : List (Mpath F)) (hl : Unique Mpath.dst l)
    (hs : ∀ p ∈ l, s.find .mpp p.dst ≠ none) :
    (l.foldl (walkStep c g cfg .mpp) s).excess = s.excess - l.countP c := by
  induction l generalizing s with
  | nil => simp
  | cons p l ih =>
    obtain ⟨hp, hl'⟩ := List.nodup_cons.1 hl
    have hrest : ∀ q ∈ l, (walkStep c g cfg .mpp s p).find .mpp q.dst ≠ none := by
      intro q hq
      have hne : q.dst ≠ p.dst := fun he => hp (List.mem_map.2 ⟨q, hq, he⟩)
      rw [walkStep, Ne, find_of_sameKeys (hg _ p)]
      split
      · rw [MeshInfo.find, tablePathDel_self, find_remove_of_ne hne]
        exact hs q (by simp [hq])
      · exact hs q (by simp [hq])
    have hfound := Option.isSome_iff_ne_none.2 (hs p (by simp))
    rw [List.foldl_cons, ih hl' hrest, walkStep, (hg _ p).excess, List.countP_cons]
    split
    · rw [tablePathDel_mpp_excess, if_pos hfound]
      push_cast
      omega
    · push_cast
      omega

end Walk

section Routines

/-- A walk over the proxy table, when its paths are found in it. -/
theorem mpp_found (hs : s.Uniq) : ∀ p ∈ s.paths .mpp, s.find .mpp p.dst ≠ none := by
  intro p hp
  rw [MeshInfo.find, find_of_mem (hs .mpp) hp]
  simp

theorem tableFlush_uniq (hs : s.Uniq) (t : Tbl) (c : Mpath F → Bool) :
    (s.tableFlush cfg t c).Uniq :=
  walk_uniq (g := fun s _ => s) (fun s _ => SameKeys.refl s) t _ hs

theorem tableFlush_mesh_excess (hs : s.Uniq) (c : Mpath F → Bool) :
    (s.tableFlush cfg .mesh c).excess = s.excess :=
  walk_mesh_excess (g := fun s _ => s) (fun s _ => SameKeys.refl s) _ hs

theorem tableFlush_mpp_excess (hs : s.Uniq) (c : Mpath F → Bool) :
    (s.tableFlush cfg .mpp c).excess = s.excess - (s.paths .mpp).countP c :=
  walk_mpp_excess (g := fun s _ => s) (fun s _ => SameKeys.refl s) _ (hs .mpp) (mpp_found hs)

theorem tableFlush_other {t t' : Tbl} (s : MeshInfo F) (c : Mpath F → Bool) (h : t' ≠ t) :
    (s.tableFlush cfg t c).paths t' = s.paths t' :=
  walk_other (g := fun s _ => s) (fun _ _ => rfl) h _

variable (now : Jiffies)

theorem meshPathTblExpire_uniq (hs : s.Uniq) (t : Tbl) : (s.meshPathTblExpire cfg now t).Uniq :=
  walk_uniq (g := fun s p => s.gateExpire cfg now t p.dst)
    (fun s p => gateExpire_keys cfg s now t p.dst) t _ hs

theorem meshPathTblExpire_mesh_excess (hs : s.Uniq) :
    (s.meshPathTblExpire cfg now .mesh).excess = s.excess :=
  walk_mesh_excess (g := fun s p => s.gateExpire cfg now .mesh p.dst)
    (fun s p => gateExpire_keys cfg s now .mesh p.dst) _ hs

theorem meshPathTblExpire_mpp_excess (hs : s.Uniq) :
    (s.meshPathTblExpire cfg now .mpp).excess =
      s.excess - (s.paths .mpp).countP (MeshInfo.outdated cfg now) :=
  walk_mpp_excess (g := fun s p => s.gateExpire cfg now .mpp p.dst)
    (fun s p => gateExpire_keys cfg s now .mpp p.dst) _ (hs .mpp) (mpp_found hs)

theorem meshPathTblExpire_other {t t' : Tbl} (s : MeshInfo F) (h : t' ≠ t) :
    (s.meshPathTblExpire cfg now t).paths t' = s.paths t' :=
  walk_other (g := fun s p => s.gateExpire cfg now t p.dst)
    (fun s p => gateExpire_other cfg s now p.dst h) h _

end Routines

/-- `rtw_mesh_path_add` turns the address down, or makes a path for it. -/
def Added (cfg : Cfg) (s : MeshInfo F) (dst : Mac) (allocOk insertOk : Bool) : Prop :=
  Rejected cfg s dst ∨ allocOk ∧ insertOk ∧ s.find .mesh dst = none

section Add

variable (now : Jiffies) (dst : Mac) (allocOk insertOk : Bool)

theorem meshPathAdd_uniq (hs : s.Uniq) :
    (s.meshPathAdd cfg now dst allocOk insertOk).1.Uniq := by
  rcases meshPathAdd_cases cfg s now dst allocOk insertOk with
    ⟨-, e, h⟩ | ⟨-, -, r, h, -⟩ | ⟨-, ⟨-, -, hnone⟩, h⟩
  · rw [h]
    exact hs
  · rw [h]
    exact hs
  · rw [h]
    exact forall_setPaths (P := fun _ l => Keyed.Unique Mpath.dst l)
      ((hs .mesh).cons (a := meshPathNew F now dst Mac.zero) hnone) fun t' _ => hs t'

/-- The count grows with the table exactly if the path is made. -/
theorem meshPathAdd_excess (s : MeshInfo F) :
    ∃ d : ℤ, (s.meshPathAdd cfg now dst allocOk insertOk).1.excess = s.excess + d ∧
      (d = 0 ↔ Added cfg s dst allocOk insertOk) := by
  unfold Added
  rcases meshPathAdd_cases cfg s now dst allocOk insertOk with
    ⟨hrej, e, h⟩ | ⟨hrej, hnot, r, h, -⟩ | ⟨-, hadd, h⟩
  · refine ⟨0, ?_, by simp [hrej]⟩
    rw [h, add_zero]
  · refine ⟨1, ?_, by simp only [hrej, hnot, or_self, one_ne_zero]⟩
    rw [h]
    simp only [MeshInfo.excess]
    ring
  · refine ⟨0, ?_, by simp only [hadd, and_self, or_true]⟩
    rw [h]
    simp only [MeshInfo.excess, MeshInfo.setPaths, Function.update_self, List.length_cons,
      Nat.cast_add, Nat.cast_one]
    ring

theorem mppPathAdd_uniq (hs : s.Uniq) (mpp : Mac) :
    (s.mppPathAdd cfg now dst mpp allocOk insertOk).Uniq := by
  unfold MeshInfo.mppPathAdd
  repeat' split
  any_goals exact hs
  rename_i hfind _
  have hnone : s.find .mpp dst = none := by simpa using hfind
  exact forall_setPaths (P := fun _ l => Keyed.Unique Mpath.dst l)
    ((hs .mpp).cons (a := meshPathNew F now dst mpp) hnone) fun t' _ => hs t'

theorem mppPathAdd_excess (s : MeshInfo F) (mpp : Mac) :
    (s.mppPathAdd cfg now dst mpp allocOk insertOk).excess = s.excess := by
  unfold MeshInfo.mppPathAdd
  repeat' split
  all_goals rfl

theorem SameTable.added (h : SameTable s s') :
    Added cfg s' dst allocOk insertOk ↔ Added cfg s dst allocOk insertOk := by
  unfold Added Rejected
  rw [h.mpaths, find_of_sameKeys h.sameKeys]

theorem meshNexthopResolve_uniq (hs : s.Uniq) (x : F) :
    (s.meshNexthopResolve cfg now x dst allocOk insertOk).Uniq := by
  have harrive := (arrive_same s now dst x).sameKeys.uniq hs
  have hadd : ((s.arrive now dst x).meshPathAdd cfg now dst allocOk insertOk).1.Uniq :=
    meshPathAdd_uniq now dst allocOk insertOk harrive
  rcases meshNexthopResolve_cases cfg s now x dst allocOk insertOk with
    ⟨-, -, h⟩ | ⟨-, h⟩ | ⟨-, ⟨s', e, hs', h⟩ | ⟨s', d, hs', h⟩⟩
  · rw [h]
    exact (lookupMark_same s now dst).sameKeys.uniq hs
  · rw [h]
    exact (queueFrame_same _ dst x).sameKeys.uniq harrive
  · rw [hs'] at hadd
    rw [h]
    exact hadd
  · rw [hs'] at hadd
    rw [h]
    exact (queueFrame_same s' d x).sameKeys.uniq hadd

theorem meshNexthopResolve_excess (s : MeshInfo F) (x : F) :
    ∃ d : ℤ, (s.meshNexthopResolve cfg now x dst allocOk insertOk).excess = s.excess + d ∧
      (d = 0 ↔ (s.find .mesh dst = none → Added cfg s dst allocOk insertOk)) := by
  have harrive := (arrive_same s now dst x).sameKeys.excess
  obtain ⟨d, hd, hzero⟩ :
      ∃ d : ℤ, ((s.arrive now dst x).meshPathAdd cfg now dst allocOk insertOk).1.excess =
        (s.arrive now dst x).excess + d ∧
          (d = 0 ↔ Added cfg (s.arrive now dst x) dst allocOk insertOk) :=
    meshPathAdd_excess now dst allocOk insertOk _
  rw [harrive] at hd
  rw [(arrive_same s now dst x).added] at hzero
  rcases meshNexthopResolve_cases cfg s now x dst allocOk insertOk with
    ⟨-, hsome, h⟩ | ⟨hsome, h⟩ | ⟨hnone, ⟨s', e, hs', h⟩ | ⟨s', d', hs', h⟩⟩
  · refine ⟨0, ?_, by simp [hsome]⟩
    rw [h, (lookupMark_same s now dst).sameKeys.excess, add_zero]
  · refine ⟨0, ?_, by simp [hsome]⟩
    rw [h, (queueFrame_same _ dst x).sameKeys.excess, harrive, add_zero]
  · refine ⟨d, ?_, by simp [hnone, hzero]⟩
    rw [hs'] at hd
    rw [h]
    exact hd
  · refine ⟨d, ?_, by simp [hnone, hzero]⟩
    rw [hs'] at hd
    rw [h, (queueFrame_same s' d' x).sameKeys.excess, hd]

end Add

/-- A step counts the paths it makes and the mesh paths it deletes, and nothing else. -/
def Counted (cfg : Cfg) (s : MeshInfo F) : Op F → Prop
  | .pathAdd _ dst allocOk insertOk => Added cfg s dst allocOk insertOk
  | .nexthopResolve _ _ dst allocOk insertOk =>
    s.find .mesh dst = none → Added cfg s dst allocOk insertOk
  | .pathDel addr => ∀ p ∈ s.paths .mpp, p.mpp ≠ addr
  | .flushByIface => s.paths .mpp = []
  | .expire now => ∀ p ∈ s.paths .mpp, ¬MeshInfo.outdated cfg now p
  | _ => True

theorem pathGateDel_keys (cfg : Cfg) (s : MeshInfo F) (dst : Mac) :
    SameKeys s (s.pathGateDel cfg dst) := by
  unfold MeshInfo.pathGateDel
  split
  · exact SameKeys.refl s
  · exact meshGateDel_keys cfg s .mesh _

theorem select_same (cfg : Cfg) (s : MeshInfo F) (dst : Mac) (route : Route) :
    SameTable s (step cfg s (.select dst route)) :=
  modify_same fun _ => ⟨rfl, rfl⟩

theorem txQueueFlush_same (s : MeshInfo F) : SameTable s s.mpathTxQueueFlush :=
  (SameTable.refl s).frames _ _ _ _ _

theorem step_uniq (cfg : Cfg) (hs : s.Uniq) (op : Op F) : (step cfg s op).Uniq := by
  cases op with
  | pathAdd now dst a i => exact meshPathAdd_uniq now dst a i hs
  | mppPathAdd now dst mpp a i => exact mppPathAdd_uniq now dst a i hs mpp
  | pathDel addr => exact tablePathDel_uniq (tableFlush_uniq hs .mpp _) .mesh addr
  | flushByNexthop sta => exact tableFlush_uniq hs .mesh _
  | flushByIface => exact tableFlush_uniq (tableFlush_uniq hs .mesh _) .mpp _
  | expire now => exact meshPathTblExpire_uniq now (meshPathTblExpire_uniq now hs .mesh) .mpp
  | addGate now dst => exact (meshPathAddGate_keys cfg s now dst).uniq hs
  | gateDel dst => exact (pathGateDel_keys cfg s dst).uniq hs
  | select dst route => exact (select_same cfg s dst route).sameKeys.uniq hs
  | nexthopResolve now x dst a i => exact meshNexthopResolve_uniq now dst a i hs x
  | txPending dst => exact (meshPathTxPending_same s dst).sameKeys.uniq hs
  | sendToGates dst => exact (meshPathSendToGates_same s dst).sameKeys.uniq hs
  | flushPending dst => exact (meshPathFlushPending_same s dst).sameKeys.uniq hs
  | txTasklet => exact (mpathTxTaskletHdl_same s).sameKeys.uniq hs
  | txQueueFlush => exact (txQueueFlush_same s).sameKeys.uniq hs

/-- A step keeps the count right exactly if it is counted. -/
theorem step_excess (cfg : Cfg) (hs : s.Uniq) (op : Op F) :
    ∃ d : ℤ, (step cfg s op).excess = s.excess + d ∧ (d = 0 ↔ Counted cfg s op) := by
  have hsame (s' : MeshInfo F) (h : SameKeys s s') :
      ∃ d : ℤ, s'.excess = s.excess + d ∧ (d = 0 ↔ True) :=
    ⟨0, by rw [h.excess, add_zero], by simp⟩
  cases op with
  | pathAdd now dst a i => exact meshPathAdd_excess now dst a i s
  | mppPathAdd now dst mpp a i =>
    exact ⟨0, by rw [add_zero]; exact mppPathAdd_excess now dst a i s mpp, by simp [Counted]⟩
  | pathDel addr =>
    refine ⟨-(s.paths .mpp).countP fun p => p.mpp = addr, ?_, ?_⟩
    · exact (tablePathDel_mesh_excess (tableFlush_uniq hs .mpp _) addr).trans
        (tableFlush_mpp_excess hs _)
    · simp [Counted]
  | flushByNexthop sta =>
    exact ⟨0, by rw [add_zero]; exact tableFlush_mesh_excess hs _, by simp [Counted]⟩
  | flushByIface =>
    refine ⟨-(s.paths .mpp).countP fun _ => true, ?_, ?_⟩
    · have huniq : (s.tableFlush cfg .mesh fun _ => true).Uniq := tableFlush_uniq hs .mesh _
      refine (tableFlush_mpp_excess huniq _).trans ?_
      rw [tableFlush_other s _ (by decide), tableFlush_mesh_excess hs]
      rfl
    · simp [Counted]
  | expire now =>
    refine ⟨-(s.paths .mpp).countP (MeshInfo.outdated cfg now), ?_, ?_⟩
    · have huniq : (s.meshPathTblExpire cfg now .mesh).Uniq := meshPathTblExpire_uniq now hs .mesh
      refine (meshPathTblExpire_mpp_excess now huniq).trans ?_
      rw [meshPathTblExpire_other now s (by decide), meshPathTblExpire_mesh_excess now hs]
      rfl
    · simp [Counted]
  | addGate now dst => exact hsame _ (meshPathAddGate_keys cfg s now dst)
  | gateDel dst => exact hsame _ (pathGateDel_keys cfg s dst)
  | select dst route => exact hsame _ (select_same cfg s dst route).sameKeys
  | nexthopResolve now x dst a i => exact meshNexthopResolve_excess now dst a i s x
  | txPending dst => exact hsame _ (meshPathTxPending_same s dst).sameKeys
  | sendToGates dst => exact hsame _ (meshPathSendToGates_same s dst).sameKeys
  | flushPending dst => exact hsame _ (meshPathFlushPending_same s dst).sameKeys
  | txTasklet => exact hsame _ (mpathTxTaskletHdl_same s).sameKeys
  | txQueueFlush => exact hsame _ (txQueueFlush_same s).sameKeys

/-- The path count is the size of the mesh path table, so that no path is refused before the table is
full, and the tables have one entry for an address. -/
structure Accounted (cfg : Cfg) (s : MeshInfo F) : Prop where
  mpaths : s.mpaths = (s.paths .mesh).length
  unique : ∀ t, ((s.paths t).map Mpath.dst).Nodup
  enospc : ∀ now dst allocOk insertOk,
    (s.meshPathAdd cfg now dst allocOk insertOk).2 = .error .enospc →
      (s.paths .mesh).length = maxMpaths

theorem mpaths_of_enospc {now : Jiffies} {dst : Mac} {allocOk insertOk : Bool}
    (h : (s.meshPathAdd cfg now dst allocOk insertOk).2 = .error .enospc) :
    s.mpaths = maxMpaths := by
  by_contra hmax
  unfold MeshInfo.meshPathAdd at h
  rw [if_neg hmax] at h
  dsimp only at h
  repeat' split at h
  all_goals simp at h

theorem accounted_iff (cfg : Cfg) (s : MeshInfo F) : Accounted cfg s ↔ s.excess = 0 ∧ s.Uniq := by
  unfold MeshInfo.excess
  constructor
  · intro h
    exact ⟨by rw [h.mpaths]; omega, h.unique⟩
  · rintro ⟨hexcess, huniq⟩
    have hmpaths : s.mpaths = (s.paths .mesh).length := by omega
    refine ⟨hmpaths, huniq, fun now dst a i h => ?_⟩
    rw [← hmpaths]
    exact mpaths_of_enospc h

/-- The path count is right all along exactly if every step counts what it makes and deletes. -/
theorem mpaths_exact_iff (cfg : Cfg) (ops : List (Op F)) :
    (∀ k, Accounted cfg (run (step cfg) (init F) (ops.take k))) ↔
      Along (step cfg) (Counted cfg) (init F) ops := by
  apply forall_take_iff_along
  · intro s op _ hs
    rw [accounted_iff] at hs
    obtain ⟨d, hd, hzero⟩ := step_excess cfg hs.2 op
    rw [accounted_iff, hd, hs.1, zero_add, hzero]
    exact and_iff_left (step_uniq cfg hs.2 op)
  · rw [accounted_iff]
    exact ⟨rfl, fun _ => List.nodup_nil⟩

/-- An interface that does not announce itself as a gate. -/
def stationCfg : Cfg where
  macAddr := Mac.ending 1
  dot11MeshGateAnnouncementProtocol := false
  pathGateTimeoutFactor := 3
  msToSystime ms := ms.zeroExtend 64
  hz := 1000

/-- A second request for a path that is there counts it again. -/
theorem path_counted_twice :
    ∃ k, ¬Accounted stationCfg (run (step stationCfg) (init ℕ)
      ([.pathAdd 0 #v[2, 0, 0, 0, 0, 2] true true,
        .pathAdd 0 #v[2, 0, 0, 0, 0, 2] true true].take k)) := by
  refine ⟨2, fun h => ?_⟩
  have hcount := h.mpaths
  revert hcount
  decide

end Rtl8821cu.Mesh
