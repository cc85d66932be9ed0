import Rtl8821cu.MeshMpaths

/-! The known gates of the mesh: their list, their number and the one with the largest address. -/
namespace Rtl8821cu.Mesh
open Keyed Run

variable {F : Type} {s s' : MeshInfo F} {cfg : Cfg} {l : List Mac} {m : Option Mac} {a : Mac}

section Address

/-- The number that the bytes of an address stand for, first byte first. -/
def macValue (a : Mac) : ℕ := a.toList.foldl (fun n b => n * 256 + b.toNat) 0

theorem macValue_eq (a : Mac) : macValue a = (macHigh a).toNat * 65536 + (macLow a).toNat := by
  have hlist : a.toList = [a[0], a[1], a[2], a[3], a[4], a[5]] := by
    apply List.ext_getElem
    · simp
    · intro i hi _
      have hi' : i < 6 := by simpa using hi
      interval_cases i <;> simp
  have happend {n : ℕ} (x : BitVec n) (y : BitVec 8) :
      (x ++ y).toNat = x.toNat * 256 + y.toNat := by
    rw [BitVec.toNat_append, ← Nat.shiftLeft_add_eq_or_of_lt y.isLt, Nat.shiftLeft_eq]
  simp only [macValue, hlist, List.foldl_cons, List.foldl_nil, macHigh, macLow, happend]
  ring

/-- `rtw_macaddr_is_larger` compares the addresses as numbers. -/
theorem macaddrIsLarger_iff (a b : Mac) : macaddrIsLarger a b = true ↔ macValue b < macValue a := by
  have ha := (macLow a).isLt
  have hb := (macLow b).isLt
  rw [macValue_eq, macValue_eq]
  unfold macaddrIsLarger
  simp only [BitVec.lt_def]
  split_ifs with h1 h2
  · simp only [true_iff]
    omega
  · simp only [false_iff]
    omega
  · rw [decide_eq_true_eq]
    omega

end Address

/-- The gate of a list with the largest address, if the list has one. -/
def IsMaxGate (l : List Mac) (m : Option Mac) : Prop :=
  (m = none ∧ l = []) ∨ ∃ g ∈ l, m = some g ∧ ∀ x ∈ l, macValue x ≤ macValue g

section Max

/-- The maximum when one more gate is known. -/
theorem IsMaxGate.insert (h : IsMaxGate l m) (a : Mac) :
    IsMaxGate (a :: l) (if m.all (macaddrIsLarger a) then some a else m) := by
  rcases h with ⟨rfl, rfl⟩ | ⟨g, hg, rfl, hmax⟩
  · exact Or.inr ⟨a, by simp, rfl, by simp⟩
  · rw [Option.all_some]
    by_cases hlarger : macaddrIsLarger a g = true
    · have hlt := (macaddrIsLarger_iff a g).1 hlarger
      rw [if_pos hlarger]
      refine Or.inr ⟨a, by simp, rfl, fun x hx => ?_⟩
      rcases List.mem_cons.1 hx with rfl | hx
      · exact le_rfl
      · exact (hmax x hx).trans hlt.le
    · have hle : ¬macValue g < macValue a := mt (macaddrIsLarger_iff a g).2 hlarger
      rw [if_neg hlarger]
      refine Or.inr ⟨g, by simp [hg], rfl, fun x hx => ?_⟩
      rcases List.mem_cons.1 hx with rfl | hx
      · omega
      · exact hmax x hx

theorem IsMaxGate.congr {l' : List Mac} (h : IsMaxGate l m) (hl : ∀ x, x ∈ l' ↔ x ∈ l) :
    IsMaxGate l' m := by
  rcases h with ⟨hm, rfl⟩ | ⟨g, hg, hm, hmax⟩
  · exact Or.inl ⟨hm, List.eq_nil_iff_forall_not_mem.2 fun x hx => by simpa using (hl x).1 hx⟩
  · exact Or.inr ⟨g, (hl g).2 hg, hm, fun x hx => hmax x ((hl x).1 hx)⟩

/-- The search finds the maximum. -/
theorem maxGate_isMax (gates : List Mac) : IsMaxGate gates (MeshInfo.maxGate gates) := by
  have hfold (seen : List Mac) (m : Option Mac) (h : IsMaxGate seen m) :
      IsMaxGate (gates.reverse ++ seen) (gates.foldl
        (fun m gate => if m.all (macaddrIsLarger gate) then some gate else m) m) := by
    induction gates generalizing seen m with
    | nil => exact h
    | cons gate gates ih =>
      have := ih (gate :: seen) _ (h.insert gate)
      rwa [List.reverse_cons, List.append_assoc, List.singleton_append, List.foldl_cons]
  exact (hfold [] none (Or.inl ⟨rfl, rfl⟩)).congr (by simp)

theorem IsMaxGate.erase (h : IsMaxGate l m) (hm : m ≠ some a) (hl : l.Nodup) :
    IsMaxGate (l.erase a) m := by
  rcases h with ⟨rfl, rfl⟩ | ⟨g, hg, rfl, hmax⟩
  · exact Or.inl ⟨rfl, rfl⟩
  · have hne : g ≠ a := fun he => hm (by rw [he])
    exact Or.inr ⟨g, (hl.mem_erase_iff).2 ⟨hne, hg⟩, rfl, fun x hx => hmax x (List.mem_of_mem_erase hx)⟩

end Max

/-- The accounts of the known gates are right. -/
structure GateAccounts (cfg : Cfg) (s : MeshInfo F) : Prop where
  nodup : s.knownGates.Nodup
  num : s.numGates = s.knownGates.length
  max : IsMaxGate s.knownGates s.maxAddrGate
  larger : s.maxAddrGateIsLargerThanSelf = s.maxAddrGate.any (macaddrIsLarger · cfg.macAddr)

section Accounts

theorem meshGateDel_knownGates (cfg : Cfg) (s : MeshInfo F) (t : Tbl) (p : Mpath F) :
    (s.meshGateDel cfg t p).knownGates =
      if p.isGate then s.knownGates.erase p.dst else s.knownGates := by
  unfold MeshInfo.meshGateDel
  by_cases hgate : p.isGate
  · simp only [hgate, Bool.not_true, Bool.false_eq_true, if_false, if_true]
    split
    · rfl
    · split <;> rfl
  · simp [hgate]

/-- A gate that is known can be taken out. -/
theorem meshGateDel_accounts (h : GateAccounts cfg s) (t : Tbl) (p : Mpath F)
    (hp : p.isGate → p.dst ∈ s.knownGates) : GateAccounts cfg (s.meshGateDel cfg t p) := by
  obtain ⟨hnodup, hnum, hmax, hlarger⟩ := h
  unfold MeshInfo.meshGateDel
  by_cases hgate : p.isGate
  · have hmem := hp hgate
    have hlen := List.length_erase_of_mem hmem
    have hpos := List.length_pos_of_mem hmem
    have hnum' : s.numGates - 1 = ((s.knownGates.erase p.dst).length : ℤ) := by
      rw [hnum, hlen]
      omega
    rw [if_neg (by simp [hgate])]
    dsimp only
    split_ifs with hone hfirst
    · have hempty : s.knownGates.erase p.dst = [] := by
        rw [← List.length_eq_zero_iff, hlen]
        have hone' : s.numGates = 1 := hone
        omega
      exact ⟨hnodup.erase _, hnum', Or.inl ⟨rfl, hempty⟩, rfl⟩
    · exact ⟨hnodup.erase _, hnum', maxGate_isMax _, rfl⟩
    · exact ⟨hnodup.erase _, hnum', hmax.erase hfirst hnodup, hlarger⟩
  · rw [if_pos (by simp [hgate])]
    exact ⟨hnodup, hnum, hmax, hlarger⟩

/-- A gate that is not known is taken in. -/
theorem gateAdd_accounts (h : GateAccounts cfg s) (ha : a ∉ s.knownGates)
    (paths : Tbl → List (Mpath F)) :
    GateAccounts cfg
      (if s.numGates = 0 ∨ s.maxAddrGate.any (macaddrIsLarger a) then
        { s with
          paths := paths
          numGates := s.numGates + 1
          knownGates := a :: s.knownGates
          maxAddrGate := some a
          maxAddrGateIsLargerThanSelf := macaddrIsLarger a cfg.macAddr }
      else { s with
        paths := paths
        numGates := s.numGates + 1
        knownGates := a :: s.knownGates }) := by
  obtain ⟨hnodup, hnum, hmax, hlarger⟩ := h
  have hnodup' : (a :: s.knownGates).Nodup := List.nodup_cons.2 ⟨ha, hnodup⟩
  have hnum' : s.numGates + 1 = ((a :: s.knownGates).length : ℤ) := by
    rw [hnum, List.length_cons]
    omega
  have hcond : (s.numGates = 0 ∨ s.maxAddrGate.any (macaddrIsLarger a)) ↔
      s.maxAddrGate.all (macaddrIsLarger a) := by
    rw [hnum]
    rcases hmax with ⟨hm, hl⟩ | ⟨g, hg, hm, -⟩
    · simp [hm, hl]
    · have hpos := List.length_pos_of_mem hg
      rw [hm, Option.any_some, Option.all_some]
      exact or_iff_right (by omega)
  have hinsert := hmax.insert a
  split_ifs with h
  · rw [if_pos (hcond.1 h)] at hinsert
    exact ⟨hnodup', hnum', hinsert, rfl⟩
  · rw [if_neg (mt hcond.2 h)] at hinsert
    exact ⟨hnodup', hnum', hinsert, hlarger⟩

end Accounts

/-- The known gates are the mesh paths that are gates, and the accounts of them are right. -/
structure GatesOk (cfg : Cfg) (s : MeshInfo F) : Prop where
  uniq : s.Uniq
  proxies : ∀ p ∈ s.paths .mpp, p.isGate = false
  mem : ∀ a, a ∈ s.knownGates ↔ ∃ p ∈ s.paths .mesh, p.dst = a ∧ p.isGate = true
  accounts : GateAccounts cfg s

section Invariant

theorem exists_entry_iff (s : MeshInfo F) (t : Tbl) (a : Mac) (b : Bool) :
    (∃ p ∈ s.paths t, p.dst = a ∧ p.isGate = b) ↔
      (a, b) ∈ (s.paths t).map fun p => (p.dst, p.isGate) := by
  simp

/-- What is left as it was keeps the gates right. -/
theorem SameTable.gatesOk (h : SameTable s s') (hs : GatesOk cfg s) : GatesOk cfg s' := by
  refine ⟨h.sameKeys.uniq hs.uniq, fun p hp => ?_, fun a => ?_, ?_⟩
  · by_contra hgate
    have hmem := (exists_entry_iff s' .mpp p.dst p.isGate).1 ⟨p, hp, rfl, rfl⟩
    rw [h.entries, ← exists_entry_iff] at hmem
    obtain ⟨q, hq, -, hqgate⟩ := hmem
    exact hgate (hqgate ▸ hs.proxies q hq)
  · rw [h.knownGates, hs.mem, exists_entry_iff, exists_entry_iff, h.entries]
  · obtain ⟨hnodup, hnum, hmax, hlarger⟩ := hs.accounts
    constructor
    · rwa [h.knownGates]
    · rwa [h.numGates, h.knownGates]
    · rwa [h.knownGates, h.maxAddrGate]
    · rwa [h.larger, h.maxAddrGate]

theorem meshPathAdd_gatesOk (hs : GatesOk cfg s) (now : Jiffies) (dst : Mac)
    (allocOk insertOk : Bool) : GatesOk cfg (s.meshPathAdd cfg now dst allocOk insertOk).1 := by
  have huniq : (s.meshPathAdd cfg now dst allocOk insertOk).1.Uniq :=
    meshPathAdd_uniq now dst allocOk insertOk hs.uniq
  obtain ⟨-, hproxies, hmem, haccounts⟩ := hs
  rcases meshPathAdd_cases cfg s now dst allocOk insertOk with
    ⟨-, e, h⟩ | ⟨-, -, r, h, -⟩ | ⟨-, -, h⟩
  · rw [h] at huniq ⊢
    exact ⟨huniq, hproxies, hmem, haccounts⟩
  · rw [h] at huniq ⊢
    exact ⟨huniq, hproxies, hmem, { haccounts with }⟩
  · rw [h] at huniq ⊢
    refine ⟨huniq, ?_, fun a => ?_, { haccounts with }⟩
    · rw [setPaths_ne _ _ (by decide)]
      exact hproxies
    · rw [setPaths_self]
      simp [meshPathNew, MeshInfo.setPaths, hmem]

theorem mppPathAdd_gatesOk (hs : GatesOk cfg s) (now : Jiffies) (dst mpp : Mac)
    (allocOk insertOk : Bool) : GatesOk cfg (s.mppPathAdd cfg now dst mpp allocOk insertOk) := by
  have huniq : (s.mppPathAdd cfg now dst mpp allocOk insertOk).Uniq :=
    mppPathAdd_uniq now dst allocOk insertOk hs.uniq mpp
  revert huniq
  unfold MeshInfo.mppPathAdd
  repeat' split
  all_goals intro huniq
  any_goals exact hs
  obtain ⟨-, hproxies, hmem, haccounts⟩ := hs
  refine ⟨huniq, ?_, fun a => ?_, { haccounts with }⟩
  · rw [setPaths_self]
    simpa [meshPathNew] using hproxies
  · rw [setPaths_ne _ _ (by decide)]
    exact hmem a

/-- A mesh path that is no gate any more. -/
theorem meshGateDel_gatesOk (hs : GatesOk cfg s) {p : Mpath F} (hp : p ∈ s.paths .mesh) :
    GatesOk cfg (s.meshGateDel cfg .mesh p) := by
  have hknown : p.isGate → p.dst ∈ s.knownGates := fun hgate => (hs.mem _).2 ⟨p, hp, rfl, hgate⟩
  refine ⟨(meshGateDel_keys cfg s .mesh p).uniq hs.uniq, ?_, fun a => ?_,
    meshGateDel_accounts hs.accounts .mesh p hknown⟩
  · rw [meshGateDel_other cfg s p (by decide)]
    exact hs.proxies
  · rw [meshGateDel_knownGates, meshGateDel_paths]
    split
    · rw [hs.accounts.nodup.mem_erase_iff, hs.mem, MeshInfo.modify, setPaths_self]
      constructor
      · rintro ⟨hne, q, hq, rfl, hgate⟩
        exact ⟨q, List.mem_map.2 ⟨q, hq, if_neg hne⟩, rfl, hgate⟩
      · rintro ⟨q, hq, rfl, hgate⟩
        obtain ⟨r, hr, rfl⟩ := List.mem_map.1 hq
        by_cases hdst : r.dst = p.dst
        · simp [hdst] at hgate
        · rw [if_neg hdst] at hgate ⊢
          exact ⟨hdst, r, hr, rfl, hgate⟩
    · exact hs.mem a

theorem pathGateDel_gatesOk (hs : GatesOk cfg s) (dst : Mac) :
    GatesOk cfg (s.pathGateDel cfg dst) := by
  unfold MeshInfo.pathGateDel
  split
  · exact hs
  · rename_i p hfind
    exact meshGateDel_gatesOk hs (mem_of_find hfind).1

theorem tablePathDel_knownGates (cfg : Cfg) (s : MeshInfo F) (t : Tbl) (dst : Mac) {p : Mpath F}
    (h : s.find t dst = some p) : (s.tablePathDel cfg t dst).knownGates =
      if p.isGate then s.knownGates.erase dst else s.knownGates := by
  unfold MeshInfo.tablePathDel
  rw [h]
  show ((s.remove t dst).meshGateDel cfg t p).knownGates = _
  rw [meshGateDel_knownGates, (mem_of_find h).2]
  rfl

/-- A gate of a table is a known gate. -/
theorem GatesOk.known (hs : GatesOk cfg s) {t : Tbl} {p : Mpath F} (hp : p ∈ s.paths t)
    (hgate : p.isGate = true) : t = .mesh ∧ p.dst ∈ s.knownGates := by
  cases t with
  | mesh => exact ⟨rfl, (hs.mem _).2 ⟨p, hp, rfl, hgate⟩⟩
  | mpp =>
    rw [hs.proxies p hp] at hgate
    cases hgate

theorem tablePathDel_accounts (hs : GatesOk cfg s) (t : Tbl) (dst : Mac) :
    GateAccounts cfg (s.tablePathDel cfg t dst) := by
  unfold MeshInfo.tablePathDel
  split
  · exact hs.accounts
  · rename_i p hfind
    have hremove : GateAccounts cfg (s.remove t dst) := { hs.accounts with }
    exact { meshGateDel_accounts hremove t p
      fun hgate => (hs.known (mem_of_find hfind).1 hgate).2 with }

theorem tablePathDel_gatesOk (hs : GatesOk cfg s) (t : Tbl) (dst : Mac) :
    GatesOk cfg (s.tablePathDel cfg t dst) := by
  rcases hfind : s.find t dst with _ | p
  · rw [MeshInfo.tablePathDel, hfind]
    exact hs
  obtain ⟨hp, hdst⟩ := mem_of_find hfind
  refine ⟨tablePathDel_uniq hs.uniq t dst, ?_, fun a => ?_, tablePathDel_accounts hs t dst⟩
  · cases t with
    | mesh =>
      rw [tablePathDel_other cfg s dst (by decide)]
      exact hs.proxies
    | mpp =>
      rw [tablePathDel_self]
      exact fun q hq => hs.proxies q (List.mem_of_mem_filter hq)
  · rw [tablePathDel_knownGates cfg s t dst hfind]
    cases t with
    | mpp =>
      rw [if_neg (by simp [hs.proxies p hp]), tablePathDel_other cfg s dst (by decide)]
      exact hs.mem a
    | mesh =>
      have hknown : (a ∈ if p.isGate then s.knownGates.erase dst else s.knownGates) ↔
          a ≠ dst ∧ a ∈ s.knownGates := by
        split
        · exact hs.accounts.nodup.mem_erase_iff
        · refine (and_iff_right_of_imp fun hmem hadst => ?_).symm
          obtain ⟨q, hq, hqdst, hqgate⟩ := (hs.mem a).1 hmem
          have hsame := List.inj_on_of_nodup_map (hs.uniq .mesh) hq hp (by rw [hqdst, hadst, hdst])
          simp_all
      rw [hknown, hs.mem, tablePathDel_self]
      constructor
      · rintro ⟨hne, q, hq, rfl, hgate⟩
        exact ⟨q, List.mem_filter.2 ⟨hq, by simpa using hne⟩, rfl, hgate⟩
      · rintro ⟨q, hq, rfl, hgate⟩
        obtain ⟨hq, hne⟩ := List.mem_filter.1 hq
        exact ⟨by simpa using hne, q, hq, rfl, hgate⟩

theorem gateExpire_gatesOk (hs : GatesOk cfg s) (now : Jiffies) (t : Tbl) (dst : Mac) :
    GatesOk cfg (s.gateExpire cfg now t dst) := by
  unfold MeshInfo.gateExpire
  split
  · exact hs
  · rename_i p hfind
    split
    · rename_i hexpired
      split
      · have hgate : p.isGate = true := (Bool.and_eq_true _ _ ▸ hexpired).1
        obtain ⟨hp, -⟩ := mem_of_find hfind
        obtain ⟨rfl, -⟩ := hs.known hp hgate
        exact meshGateDel_gatesOk hs hp
      · apply SameTable.gatesOk _ hs
        exact modify_same fun _ => ⟨rfl, rfl⟩
    · exact hs

theorem tableFlush_gatesOk (hs : GatesOk cfg s) (t : Tbl) (c : Mpath F → Bool) :
    GatesOk cfg (s.tableFlush cfg t c) := by
  refine List.foldlRecOn _ _ hs fun s' hs' p _ => ?_
  split
  · exact tablePathDel_gatesOk hs' t p.dst
  · exact hs'

theorem meshPathTblExpire_gatesOk (hs : GatesOk cfg s) (now : Jiffies) (t : Tbl) :
    GatesOk cfg (s.meshPathTblExpire cfg now t) := by
  refine List.foldlRecOn _ _ hs fun s' hs' p _ => ?_
  apply gateExpire_gatesOk
  split
  · exact tablePathDel_gatesOk hs' t p.dst
  · exact hs'

/-- The addresses of the gates after a mesh path has become one. -/
theorem exists_gate_modify (s : MeshInfo F) {dst : Mac} {p : Mpath F}
    (hfind : s.find .mesh dst = some p) (a : Mac) :
    (∃ q ∈ (s.modify .mesh dst fun p => { p with isGate := true }).paths .mesh,
      q.dst = a ∧ q.isGate = true) ↔
    a = dst ∨ ∃ q ∈ s.paths .mesh, q.dst = a ∧ q.isGate = true := by
  obtain ⟨hp, hdst⟩ := mem_of_find hfind
  rw [MeshInfo.modify, setPaths_self]
  constructor
  · rintro ⟨q, hq, rfl, hgate⟩
    obtain ⟨r, hr, rfl⟩ := List.mem_map.1 hq
    by_cases hrdst : r.dst = dst
    · rw [if_pos hrdst]
      exact Or.inl hrdst
    · rw [if_neg hrdst] at hgate ⊢
      exact Or.inr ⟨r, hr, rfl, hgate⟩
  · rintro (rfl | ⟨q, hq, rfl, hgate⟩)
    · exact ⟨_, List.mem_map.2 ⟨p, hp, if_pos hdst⟩, hdst, rfl⟩
    · by_cases hqdst : q.dst = dst
      · exact ⟨_, List.mem_map.2 ⟨q, hq, if_pos hqdst⟩, rfl, rfl⟩
      · exact ⟨q, List.mem_map.2 ⟨q, hq, if_neg hqdst⟩, rfl, hgate⟩

/-- A path that is no gate is not known as one. -/
theorem GatesOk.not_known (hs : GatesOk cfg s) {dst : Mac} {p : Mpath F}
    (hfind : s.find .mesh dst = some p) (hgate : ¬p.isGate) : dst ∉ s.knownGates := by
  intro hmem
  obtain ⟨hp, hdst⟩ := mem_of_find hfind
  obtain ⟨q, hq, hqdst, hqgate⟩ := (hs.mem dst).1 hmem
  have hsame := List.inj_on_of_nodup_map (hs.uniq .mesh) hq hp (by rw [hqdst, hdst])
  rw [hsame] at hqgate
  exact hgate hqgate

theorem meshPathAddGate_gatesOk (hs : GatesOk cfg s) (now : Jiffies) (dst : Mac) :
    GatesOk cfg (s.meshPathAddGate cfg now dst) := by
  have huniq := (meshPathAddGate_keys cfg s now dst).uniq hs.uniq
  revert huniq
  unfold MeshInfo.meshPathAddGate
  rcases hfind : s.find .mesh dst with _ | p
  · exact fun _ => hs
  have hs₁ : GatesOk cfg (s.modify .mesh dst (MeshInfo.setGateTimeout cfg now)) :=
    SameTable.gatesOk (modify_same fun _ => ⟨rfl, rfl⟩) hs
  have hfind₁ : (s.modify .mesh dst (MeshInfo.setGateTimeout cfg now)).find .mesh dst =
      some (MeshInfo.setGateTimeout cfg now p) := find_modify (fun _ => rfl) hfind
  dsimp only
  generalize s.modify .mesh dst (MeshInfo.setGateTimeout cfg now) = s₁ at hs₁ hfind₁ ⊢
  by_cases hgate : p.isGate
  · rw [if_pos hgate]
    exact fun _ => hs₁
  rw [if_neg hgate]
  have hnew : dst ∉ s₁.knownGates := hs₁.not_known hfind₁ hgate
  have hmem (a : Mac) := exists_gate_modify s₁ hfind₁ a
  have hproxies : ∀ p ∈ (s₁.modify .mesh dst fun p => { p with isGate := true }).paths .mpp,
      p.isGate = false := by
    rw [modify_other (by decide)]
    exact hs₁.proxies
  have haccounts := gateAdd_accounts hs₁.accounts hnew
    (s₁.modify .mesh dst fun p => { p with isGate := true }).paths
  intro huniq
  refine ⟨huniq, ?_, fun a => ?_, haccounts⟩
  · split <;> exact hproxies
  · split
    · exact (List.mem_cons.trans (or_congr_right (hs₁.mem a))).trans (hmem a).symm
    · exact (List.mem_cons.trans (or_congr_right (hs₁.mem a))).trans (hmem a).symm

theorem meshNexthopResolve_gatesOk (hs : GatesOk cfg s) (now : Jiffies) (x : F) (dst : Mac)
    (allocOk insertOk : Bool) :
    GatesOk cfg (s.meshNexthopResolve cfg now x dst allocOk insertOk) := by
  have harrive := (arrive_same s now dst x).gatesOk hs
  have hadd := meshPathAdd_gatesOk harrive now dst allocOk insertOk
  rcases meshNexthopResolve_cases cfg s now x dst allocOk insertOk with
    ⟨-, -, h⟩ | ⟨-, h⟩ | ⟨-, ⟨s', e, hs', h⟩ | ⟨s', d, hs', h⟩⟩
  · rw [h]
    exact (lookupMark_same s now dst).gatesOk hs
  · rw [h]
    exact (queueFrame_same _ dst x).gatesOk harrive
  · rw [hs'] at hadd
    rw [h]
    exact ((SameTable.refl s').frames _ _ _ _ _).gatesOk hadd
  · rw [hs'] at hadd
    rw [h]
    exact (queueFrame_same s' d x).gatesOk hadd

end Invariant

theorem step_gatesOk (cfg : Cfg) (hs : GatesOk cfg s) (op : Op F) : GatesOk cfg (step cfg s op) := by
  cases op with
  | pathAdd now dst a i => exact meshPathAdd_gatesOk hs now dst a i
  | mppPathAdd now dst mpp a i => exact mppPathAdd_gatesOk hs now dst mpp a i
  | pathDel addr => exact tablePathDel_gatesOk (tableFlush_gatesOk hs .mpp _) .mesh addr
  | flushByNexthop sta => exact tableFlush_gatesOk hs .mesh _
  | flushByIface => exact tableFlush_gatesOk (tableFlush_gatesOk hs .mesh _) .mpp _
  | expire now => exact meshPathTblExpire_gatesOk (meshPathTblExpire_gatesOk hs now .mesh) now .mpp
  | addGate now dst => exact meshPathAddGate_gatesOk hs now dst
  | gateDel dst => exact pathGateDel_gatesOk hs dst
  | select dst route => exact (select_same cfg s dst route).gatesOk hs
  | nexthopResolve now x dst a i => exact meshNexthopResolve_gatesOk hs now x dst a i
  | txPending dst => exact (meshPathTxPending_same s dst).gatesOk hs
  | sendToGates dst => exact (meshPathSendToGates_same s dst).gatesOk hs
  | flushPending dst => exact (meshPathFlushPending_same s dst).gatesOk hs
  | txTasklet => exact (mpathTxTaskletHdl_same s).gatesOk hs
  | txQueueFlush => exact (txQueueFlush_same s).gatesOk hs

section Exact

theorem GatesOk.max_eq_none (hs : GatesOk cfg s) : s.maxAddrGate = none ↔ s.knownGates = [] := by
  rcases hs.accounts.max with ⟨hm, hl⟩ | ⟨g, hg, hm, -⟩
  · exact iff_of_true hm hl
  · exact iff_of_false (by simp [hm]) (List.ne_nil_of_mem hg)

theorem GatesOk.max_eq_some (hs : GatesOk cfg s) {g : Mac} (h : s.maxAddrGate = some g) :
    g ∈ s.knownGates ∧ ∀ x ∈ s.knownGates, macValue x ≤ macValue g := by
  rcases hs.accounts.max with ⟨hm, -⟩ | ⟨g', hg', hm, hle⟩
  · rw [hm] at h
    cases h
  · rw [hm, Option.some.injEq] at h
    exact h ▸ ⟨hg', hle⟩

theorem GatesOk.larger_iff (hs : GatesOk cfg s) : s.maxAddrGateIsLargerThanSelf = true ↔
    ∃ g, s.maxAddrGate = some g ∧ macValue cfg.macAddr < macValue g := by
  rw [hs.accounts.larger, Option.any_eq_true]
  simp [macaddrIsLarger_iff]

theorem GatesOk.primary_iff (hs : GatesOk cfg s) : s.meshIsPrimaryGate cfg = true ↔
    cfg.dot11MeshGateAnnouncementProtocol = true ∧
      ∀ x ∈ s.knownGates, ¬macValue cfg.macAddr < macValue x := by
  have hlarger : s.maxAddrGateIsLargerThanSelf = true ↔
      ∃ x ∈ s.knownGates, macValue cfg.macAddr < macValue x := by
    rw [hs.larger_iff]
    constructor
    · rintro ⟨g, hg, hlt⟩
      exact ⟨g, (hs.max_eq_some hg).1, hlt⟩
    · rintro ⟨x, hx, hlt⟩
      obtain ⟨g, hg⟩ := Option.ne_none_iff_exists'.1
        (mt hs.max_eq_none.1 (List.ne_nil_of_mem hx))
      exact ⟨g, hg, hlt.trans_le ((hs.max_eq_some hg).2 x hx)⟩
  rw [MeshInfo.meshIsPrimaryGate, Bool.and_eq_true, Bool.not_eq_true', ← Bool.not_eq_true, hlarger]
  simp

theorem init_gatesOk (cfg : Cfg) : GatesOk cfg (init F) :=
  ⟨fun _ => List.nodup_nil, fun _ hp => by simp [init] at hp, by simp [init],
    List.nodup_nil, rfl, Or.inl ⟨rfl, rfl⟩, rfl⟩

theorem run_gatesOk (cfg : Cfg) (ops : List (Op F)) :
    GatesOk cfg (run (step cfg) (init F) ops) :=
  run_invariant (P := fun _ _ => True) (fun _ op hs _ => step_gatesOk cfg hs op) (init_gatesOk cfg)
    (along_of_forall fun _ _ _ => trivial)

end Exact

/-- In every state the known gates are exactly the mesh paths that are gates, each once; their number,
the one with the largest address and its comparison with our address are right, and we are the
primary gate exactly if we announce ourselves and no known gate has a larger address. -/
theorem known_gates_exact (cfg : Cfg) (ops : List (Op F)) :
    let s := run (step cfg) (init F) ops
    s.numGates = s.knownGates.length ∧ s.knownGates.Nodup ∧
      (∀ a, a ∈ s.knownGates ↔ ∃ p ∈ s.paths .mesh, p.dst = a ∧ p.isGate = true) ∧
      (s.maxAddrGate = none ↔ s.knownGates = []) ∧
      (∀ g, s.maxAddrGate = some g → g ∈ s.knownGates ∧
        ∀ x ∈ s.knownGates, macValue x ≤ macValue g) ∧
      (s.maxAddrGateIsLargerThanSelf = true ↔
        ∃ g, s.maxAddrGate = some g ∧ macValue cfg.macAddr < macValue g) ∧
      (s.meshIsPrimaryGate cfg = true ↔ cfg.dot11MeshGateAnnouncementProtocol = true ∧
        ∀ x ∈ s.knownGates, ¬macValue cfg.macAddr < macValue x) := by
  intro s
  have hs : GatesOk cfg s := run_gatesOk cfg ops
  exact ⟨hs.accounts.num, hs.accounts.nodup, hs.mem, hs.max_eq_none, fun _ => hs.max_eq_some,
    hs.larger_iff, hs.primary_iff⟩

end Rtl8821cu.Mesh
