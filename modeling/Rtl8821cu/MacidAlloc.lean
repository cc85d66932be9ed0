import Rtl8821cu.Dvobj
import Rtl8821cu.LibRun

/-! Mac-id allocation over whole histories of `rtw_alloc_macid` and `rtw_release_macid`. -/
namespace Rtl8821cu.Dvobj
open Bitmap Run

variable {n : ℕ} {cfg : Cfg n}

section Maps

theorem macid_lt_capacity {i : ℕ} (h : i < cfg.macidNum) : i < capacity cfg.macidNumSwLimit :=
  h.trans_le (cfg.macidNum_le.trans (le_capacity cfg.macidLimit_le))

theorem rtwMacidIsSet_set {map : WordMap} {i : ℕ} (h : i < cfg.macidNum) (j : ℕ) :
    rtwMacidIsSet cfg (rtwMacidMapSet cfg map i) j = (rtwMacidIsSet cfg map j || decide (i = j)) :=
  isSet_set j (macid_lt_capacity h)

theorem rtwMacidIsSet_clr {map : WordMap} (i j : ℕ) :
    rtwMacidIsSet cfg (rtwMacidMapClr cfg map i) j =
      (rtwMacidIsSet cfg map j && !decide (i = j)) :=
  isSet_clr j

theorem rtwMacidMapClr_set {map : WordMap} {i : ℕ} (h : rtwMacidIsSet cfg map i = false) :
    rtwMacidMapClr cfg (rtwMacidMapSet cfg map i) i = map :=
  clr_set h

theorem getLsbD_rtwMacidGetIfaceBmp (m : MacidCtl n) (id j : ℕ) :
    (rtwMacidGetIfaceBmp cfg m id).getLsbD j =
      decide (∃ i : Fin n, rtwMacidIsSet cfg (m.ifG i) id = true ∧ (i : ℕ) = j) := by
  unfold rtwMacidGetIfaceBmp
  rw [getLsbD_foldl_or_twoPow (fun i => rtwMacidIsSet cfg (m.ifG i) id) (fun i : Fin n => (i : ℕ))
    _ (fun i _ => i.isLt.trans_le cfg.ifaces_le)]
  rw [Bool.eq_iff_iff]
  simp [List.any_eq_true]

theorem ifaceBmp_self {m : MacidCtl n} {iface : Fin n} {macId : ℕ}
    (hif : ∀ j, rtwMacidIsSet cfg (m.ifG j) macId = decide (j = iface)) :
    ¬ rtwMacidGetIfaceBmp cfg m macId &&& BitVec.twoPow 8 iface = 0 := by
  rw [and_twoPow_eq_zero _ (iface.isLt.trans_le cfg.ifaces_le), getLsbD_rtwMacidGetIfaceBmp]
  simp only [decide_eq_false_iff_not, not_not]
  exact ⟨iface, by simp [hif], rfl⟩

end Maps

/-- The tables that name the holder of an id: used bitmap, per-interface bitmaps and `sta[]`. -/
def idTables (d : DvobjPriv n) : WordMap × (Fin n → WordMap) × (ℕ → Option ℕ) :=
  (d.macidCtl.used, d.macidCtl.ifG, d.macidCtl.sta)

theorem freeMacid_some {d : DvobjPriv n} {bc : Bool} {i : ℕ} (h : freeMacid cfg d bc = some i) :
    i < cfg.macidNum ∧ rtwMacidIsUsed cfg d.macidCtl i = false ∧
      (bc = true → rtwSecCamidIsUsed cfg d i = false) := by
  have hmem := List.mem_of_find?_eq_some h
  have hp := List.find?_some h
  simp only [Bool.and_eq_true, Bool.not_eq_true', Bool.and_eq_false_iff] at hp
  refine ⟨List.mem_range.mp hmem, hp.2, ?_⟩
  intro hbc
  exact hp.1.resolve_left (by simp [hbc])

/-- No id, the shared management id, or a fresh id entered into all three tables. -/
theorem rtwAllocMacid_spec (cfg : Cfg n) (d : DvobjPriv n) (iface : Fin n) (staMode : Bool) (psta : ℕ)
    (macAddr : MacAddr) :
    let r := rtwAllocMacid cfg d iface staMode psta macAddr
    (r.2 = cfg.macidNum ∧ idTables r.1 = idTables d) ∨
    (macAddr ≠ cfg.adapterMacAddr iface ∧ r.2 = 1 ∧ macAddr = bcAddr ∧ idTables r.1 = idTables d) ∨
    (macAddr ≠ cfg.adapterMacAddr iface ∧ r.2 < cfg.macidNum ∧
      rtwMacidIsUsed cfg d.macidCtl r.2 = false ∧
      idTables r.1 = (rtwMacidMapSet cfg d.macidCtl.used r.2,
        Function.update d.macidCtl.ifG iface (rtwMacidMapSet cfg (d.macidCtl.ifG iface) r.2),
        Function.update d.macidCtl.sta r.2 (some psta))) := by
  intro r
  by_cases hown : macAddr = cfg.adapterMacAddr iface
  · exact Or.inl (by simp [r, rtwAllocMacid, hown])
  · by_cases hbc : macAddr = bcAddr
    · cases staMode with
      | true =>
        refine Or.inr (Or.inl ⟨hown, ?_, hbc, ?_⟩)
        · simp [r, rtwAllocMacid, hbc, hbc ▸ hown, rtwDefaultMgmtMacid]
        · simp only [r, rtwAllocMacid, hbc, hbc ▸ hown, decide_true, if_true, if_false,
            Bool.and_self]
          rfl
      | false =>
        cases hf : freeMacid cfg { d with
            macidCtl := rtwIfaceBcmcIdSet d.macidCtl iface invalidSecMacCamId } true with
        | none =>
          refine Or.inl ⟨?_, ?_⟩
          · simp [r, rtwAllocMacid, hbc, hbc ▸ hown, hf]
          · simp only [r, rtwAllocMacid, hbc, hbc ▸ hown, hf, decide_true, if_true, if_false,
              Bool.and_false, Bool.false_eq_true]
            rfl
        | some i =>
          obtain ⟨hlt, hfree, -⟩ := freeMacid_some hf
          have hr : r.2 = i := by simp [r, rtwAllocMacid, hbc, hbc ▸ hown, hf]
          refine Or.inr (Or.inr ⟨hown, hr ▸ hlt, hr ▸ hfree, ?_⟩)
          rw [hr]
          simp only [r, rtwAllocMacid, hbc, hbc ▸ hown, hf, decide_true, if_true, if_false,
            Bool.and_false, Bool.false_eq_true]
          rfl
    · cases hf : freeMacid cfg d false with
      | none =>
        refine Or.inl ⟨?_, ?_⟩
        · simp [r, rtwAllocMacid, hbc, hown, hf]
        · simp [r, rtwAllocMacid, hbc, hown, hf]
      | some i =>
        obtain ⟨hlt, hfree, -⟩ := freeMacid_some hf
        refine Or.inr (Or.inr ⟨hown, ?_, ?_, ?_⟩)
        · simpa [r, rtwAllocMacid, hbc, hown, hf] using hlt
        · simpa [r, rtwAllocMacid, hbc, hown, hf] using hfree
        · simp [r, rtwAllocMacid, hbc, hown, hf, idTables]

theorem rtwReleaseMacid_idle (cfg : Cfg n) {d : DvobjPriv n} {iface : Fin n} {macAddr : MacAddr} {macId : ℕ}
    (h : macAddr = cfg.adapterMacAddr iface ∨ cfg.macidNum ≤ macId ∨ macId = 1) :
    rtwReleaseMacid cfg d iface macAddr macId = d := by
  unfold rtwReleaseMacid
  split_ifs with h1 h2 h3
  · rfl
  · rfl
  · rfl
  all_goals exact absurd h (by simp [h1, h2]; simpa [rtwDefaultMgmtMacid] using h3)

/-- An id of one interface is taken out of all three tables. -/
theorem rtwReleaseMacid_spec {d : DvobjPriv n} {iface : Fin n} {macAddr : MacAddr} {macId : ℕ}
    (hown : macAddr ≠ cfg.adapterMacAddr iface) (hlt : macId < cfg.macidNum) (hne : macId ≠ 1)
    (hused : rtwMacidIsUsed cfg d.macidCtl macId = true)
    (hif : ∀ j, rtwMacidIsSet cfg (d.macidCtl.ifG j) macId = decide (j = iface)) :
    idTables (rtwReleaseMacid cfg d iface macAddr macId) =
      (rtwMacidMapClr cfg d.macidCtl.used macId,
        Function.update d.macidCtl.ifG iface (rtwMacidMapClr cfg (d.macidCtl.ifG iface) macId),
        Function.update d.macidCtl.sta macId none) := by
  have hi8 : (iface : ℕ) < 8 := iface.isLt.trans_le cfg.ifaces_le
  have hself := ifaceBmp_self hif
  have honly : rtwMacidGetIfaceBmp cfg d.macidCtl macId &&& ~~~BitVec.twoPow 8 iface = 0 := by
    rw [and_not_twoPow_eq_zero _ hi8]
    intro j hj
    rw [getLsbD_rtwMacidGetIfaceBmp]
    simp only [decide_eq_false_iff_not, not_exists, not_and]
    intro i hset hij
    rw [hif, decide_eq_true_eq] at hset
    exact hj (by rw [← hij, hset])
  have hnum : ¬ cfg.macidNum ≤ macId := by omega
  have hmgmt : ¬ macId = rtwDefaultMgmtMacid := hne
  simp only [rtwReleaseMacid, hown, hnum, hmgmt, hused, hself, honly, if_true, if_false,
    Bool.not_true, Bool.false_eq_true]
  split_ifs
  · rfl
  · rfl

/-- A station between its `rtw_alloc_stainfo` and its `rtw_free_stainfo`, with the adapter both
calls pass and `cmn.mac_id`. -/
structure Station (n : ℕ) where
  psta : ℕ
  iface : Fin n
  macAddr : MacAddr
  macId : ℕ

structure World (n : ℕ) where
  dvobj : DvobjPriv n
  live : List (Station n)

inductive MacidOp (n : ℕ)
  | alloc (iface : Fin n) (staMode : Bool) (psta : ℕ) (macAddr : MacAddr)
  | release (psta : ℕ)

/-- An allocation takes an entry of the free station queue, so never a live one; a release is of
a live station. -/
def World.step (cfg : Cfg n) (w : World n) : MacidOp n → World n
  | .alloc iface staMode psta macAddr =>
      if psta ∈ w.live.map Station.psta then w
      else
        let r := rtwAllocMacid cfg w.dvobj iface staMode psta macAddr
        ⟨r.1, ⟨psta, iface, macAddr, r.2⟩ :: w.live⟩
  | .release psta =>
      match w.live.find? (fun s => s.psta = psta) with
      | none => w
      | some s =>
          ⟨rtwReleaseMacid cfg w.dvobj s.iface s.macAddr s.macId,
            w.live.filter (fun s => s.psta ≠ psta)⟩

/-- The station holds an id; `macid_ctl->num` is the value that says it holds none. -/
def Station.Holds (cfg : Cfg n) (s : Station n) : Prop := s.macId ≠ cfg.macidNum

/-- The tables name exactly the holders: a proper id belongs to one station on one interface,
the management id to broadcast entries only. -/
structure MacidInv (cfg : Cfg n) (w : World n) : Prop where
  nodup : (w.live.map Station.psta).Nodup
  mgmt_used : rtwMacidIsUsed cfg w.dvobj.macidCtl 1 = true
  ifG_used : ∀ j id, rtwMacidIsSet cfg (w.dvobj.macidCtl.ifG j) id = true →
    rtwMacidIsUsed cfg w.dvobj.macidCtl id = true
  held : ∀ s ∈ w.live, s.Holds cfg → s.macId < cfg.macidNum ∧
    rtwMacidIsUsed cfg w.dvobj.macidCtl s.macId = true ∧
    s.macAddr ≠ cfg.adapterMacAddr s.iface ∧ (s.macId = 1 → s.macAddr = bcAddr)
  entered : ∀ s ∈ w.live, s.Holds cfg → s.macId ≠ 1 →
    w.dvobj.macidCtl.sta s.macId = some s.psta ∧
      ∀ j, rtwMacidIsSet cfg (w.dvobj.macidCtl.ifG j) s.macId = decide (j = s.iface)
  sta_live : ∀ id p, w.dvobj.macidCtl.sta id = some p →
    ∃ s ∈ w.live, s.psta = p ∧ s.macId = id ∧ s.Holds cfg ∧ id ≠ 1

section Step
variable {w : World n}

/-- A station that got no proper id joins without the tables changing. -/
theorem MacidInv.join (h : MacidInv cfg w) {d : DvobjPriv n} (ht : idTables d = idTables w.dvobj)
    {s₀ : Station n} (hlive : s₀.psta ∉ w.live.map Station.psta)
    (hs₀ : s₀.Holds cfg →
      s₀.macId = 1 ∧ s₀.macAddr = bcAddr ∧ s₀.macAddr ≠ cfg.adapterMacAddr s₀.iface) :
    MacidInv cfg ⟨d, s₀ :: w.live⟩ := by
  obtain ⟨hu, hg, hs⟩ : _ ∧ _ ∧ _ := by simpa [idTables] using ht
  refine ⟨List.nodup_cons.mpr ⟨hlive, h.nodup⟩, ?_, ?_, ?_, ?_, ?_⟩
  · simpa [rtwMacidIsUsed, hu] using h.mgmt_used
  · simpa [rtwMacidIsUsed, hu, hg] using h.ifG_used
  · intro s hs' hh
    rcases List.mem_cons.mp hs' with rfl | hs'
    · obtain ⟨hid, hbc, hown⟩ := hs₀ hh
      have hmgmt := h.mgmt_used
      refine ⟨hid ▸ cfg.mgmtMacid_lt, ?_, hown, fun _ => hbc⟩
      simpa [rtwMacidIsUsed, hu, hid] using hmgmt
    · simpa [rtwMacidIsUsed, hu] using h.held s hs' hh
  · intro s hs' hh hne
    rcases List.mem_cons.mp hs' with rfl | hs'
    · exact absurd (hs₀ hh).1 hne
    · simpa [hs, hg] using h.entered s hs' hh hne
  · intro id p hp
    obtain ⟨s, hs', hrest⟩ := h.sta_live id p (by simpa [hs] using hp)
    exact ⟨s, List.mem_cons_of_mem _ hs', hrest⟩

/-- A station that got a fresh id joins as its holder. -/
theorem MacidInv.enter (h : MacidInv cfg w) {d : DvobjPriv n} {s₀ : Station n}
    (hlive : s₀.psta ∉ w.live.map Station.psta) (hown : s₀.macAddr ≠ cfg.adapterMacAddr s₀.iface)
    (hlt : s₀.macId < cfg.macidNum)
    (hfree : rtwMacidIsUsed cfg w.dvobj.macidCtl s₀.macId = false)
    (ht : idTables d = (rtwMacidMapSet cfg w.dvobj.macidCtl.used s₀.macId,
      Function.update w.dvobj.macidCtl.ifG s₀.iface
        (rtwMacidMapSet cfg (w.dvobj.macidCtl.ifG s₀.iface) s₀.macId),
      Function.update w.dvobj.macidCtl.sta s₀.macId (some s₀.psta))) :
    MacidInv cfg ⟨d, s₀ :: w.live⟩ := by
  obtain ⟨hu, hg, hs⟩ : _ ∧ _ ∧ _ := by simpa [idTables] using ht
  have hne1 : s₀.macId ≠ 1 := by
    intro h1
    rw [h1, h.mgmt_used] at hfree
    simp at hfree
  have hused : ∀ id, rtwMacidIsUsed cfg d.macidCtl id =
      (rtwMacidIsUsed cfg w.dvobj.macidCtl id || decide (s₀.macId = id)) := by
    intro id
    rw [rtwMacidIsUsed, hu, rtwMacidIsSet_set hlt]
    rfl
  have hifG : ∀ j id, rtwMacidIsSet cfg (d.macidCtl.ifG j) id =
      (rtwMacidIsSet cfg (w.dvobj.macidCtl.ifG j) id ||
        (decide (j = s₀.iface) && decide (s₀.macId = id))) := by
    intro j id
    rw [hg]
    by_cases hj : j = s₀.iface
    · subst hj
      simp [rtwMacidIsSet_set hlt]
    · simp [hj]
  have hclear : ∀ j, rtwMacidIsSet cfg (w.dvobj.macidCtl.ifG j) s₀.macId = false := by
    intro j
    by_contra hc
    rw [Bool.not_eq_false] at hc
    rw [h.ifG_used j _ hc] at hfree
    simp at hfree
  have hother : ∀ s ∈ w.live, s.Holds cfg → s.macId ≠ s₀.macId := by
    intro s hs' hh heq
    have := (h.held s hs' hh).2.1
    rw [heq, hfree] at this
    simp at this
  refine ⟨List.nodup_cons.mpr ⟨hlive, h.nodup⟩, ?_, ?_, ?_, ?_, ?_⟩
  · simp [hused, h.mgmt_used]
  · intro j id hset
    rw [hifG, Bool.or_eq_true, Bool.and_eq_true, decide_eq_true_eq] at hset
    rcases hset with hset | ⟨-, heq⟩
    · simp [hused, h.ifG_used j id hset]
    · simp only [hused, heq, Bool.or_true]
  · intro s hs' hh
    rcases List.mem_cons.mp hs' with rfl | hs'
    · exact ⟨hlt, by simp [hused], hown, fun h1 => absurd h1 hne1⟩
    · obtain ⟨h1, h2, h3⟩ := h.held s hs' hh
      exact ⟨h1, by simp [hused, h2], h3⟩
  · intro s hs' hh hne
    rcases List.mem_cons.mp hs' with rfl | hs'
    · refine ⟨by simp [hs], ?_⟩
      intro j
      simp [hifG, hclear]
    · obtain ⟨h1, h2⟩ := h.entered s hs' hh hne
      have hne' := hother s hs' hh
      refine ⟨by simp [hs, hne', h1], ?_⟩
      intro j
      simp [hifG, h2, hne'.symm]
  · intro id p hp
    rw [hs] at hp
    by_cases hid : id = s₀.macId
    · subst hid
      obtain rfl : s₀.psta = p := by simpa using hp
      exact ⟨s₀, List.mem_cons_self, rfl, rfl, Nat.ne_of_lt hlt, hne1⟩
    · rw [Function.update_of_ne hid] at hp
      obtain ⟨s, hs', hrest⟩ := h.sta_live id p hp
      exact ⟨s, List.mem_cons_of_mem _ hs', hrest⟩

theorem MacidInv.alloc (h : MacidInv cfg w) (iface : Fin n) (staMode : Bool) (psta : ℕ)
    (macAddr : MacAddr) : MacidInv cfg (w.step cfg (.alloc iface staMode psta macAddr)) := by
  simp only [World.step]
  split_ifs with hlive
  · exact h
  · rcases rtwAllocMacid_spec cfg w.dvobj iface staMode psta macAddr with
      ⟨hid, ht⟩ | ⟨hown, hid, hbc, ht⟩ | ⟨hown, hlt, hfree, ht⟩
    · exact h.join ht hlive fun hh => absurd hid hh
    · exact h.join ht hlive fun _ => ⟨hid, hbc, hown⟩
    · exact h.enter hlive hown hlt hfree ht

theorem MacidInv.eq_of_psta (h : MacidInv cfg w) {s t : Station n} (hs : s ∈ w.live)
    (ht : t ∈ w.live) (hp : s.psta = t.psta) : s = t :=
  List.inj_on_of_nodup_map h.nodup hs ht hp

/-- Two stations that hold proper ids hold different ones. -/
theorem MacidInv.eq_of_macId (h : MacidInv cfg w) {s t : Station n} (hs : s ∈ w.live)
    (ht : t ∈ w.live) (hh : s.Holds cfg) (hne : s.macId ≠ 1) (heq : s.macId = t.macId) : s = t := by
  have hh' : t.Holds cfg := by
    rw [Station.Holds, ← heq]
    exact hh
  have h1 := (h.entered s hs hh hne).1
  have h2 := (h.entered t ht hh' (heq ▸ hne)).1
  rw [heq, h2] at h1
  exact h.eq_of_psta hs ht (by simpa using h1.symm)

/-- A station without a proper id leaves without the tables changing. -/
theorem MacidInv.leave (h : MacidInv cfg w) {s₀ : Station n}
    (hs₀ : ¬ s₀.Holds cfg ∨ s₀.macId = 1) (hmem : s₀ ∈ w.live) :
    MacidInv cfg ⟨w.dvobj, w.live.filter (fun s => s.psta ≠ s₀.psta)⟩ := by
  have hsub : ∀ s ∈ w.live.filter (fun s => s.psta ≠ s₀.psta), s ∈ w.live :=
    fun s hs => List.mem_of_mem_filter hs
  refine ⟨h.nodup.sublist (List.filter_sublist.map _), h.mgmt_used, h.ifG_used,
    fun s hs => h.held s (hsub s hs), fun s hs => h.entered s (hsub s hs), ?_⟩
  intro id p hp
  obtain ⟨s, hs, hps, hid, hh, hne⟩ := h.sta_live id p hp
  refine ⟨s, List.mem_filter.mpr ⟨hs, ?_⟩, hps, hid, hh, hne⟩
  rw [decide_eq_true_eq]
  intro heq
  obtain rfl := h.eq_of_psta hs hmem heq
  rcases hs₀ with hs₀ | hs₀
  · exact hs₀ hh
  · exact hne (hid ▸ hs₀)

theorem MacidInv.withdraw (h : MacidInv cfg w) {s₀ : Station n} {d : DvobjPriv n}
    (hh₀ : s₀.Holds cfg) (hne₀ : s₀.macId ≠ 1) (hmem : s₀ ∈ w.live)
    (ht : idTables d = (rtwMacidMapClr cfg w.dvobj.macidCtl.used s₀.macId,
      Function.update w.dvobj.macidCtl.ifG s₀.iface
        (rtwMacidMapClr cfg (w.dvobj.macidCtl.ifG s₀.iface) s₀.macId),
      Function.update w.dvobj.macidCtl.sta s₀.macId none)) :
    MacidInv cfg ⟨d, w.live.filter (fun s => s.psta ≠ s₀.psta)⟩ := by
  obtain ⟨hu, hg, hs⟩ : _ ∧ _ ∧ _ := by simpa [idTables] using ht
  have hused : ∀ id, rtwMacidIsUsed cfg d.macidCtl id =
      (rtwMacidIsUsed cfg w.dvobj.macidCtl id && !decide (s₀.macId = id)) := by
    intro id
    rw [rtwMacidIsUsed, hu, rtwMacidIsSet_clr]
    rfl
  have hentered := (h.entered s₀ hmem hh₀ hne₀).2
  have hifG : ∀ j id, rtwMacidIsSet cfg (d.macidCtl.ifG j) id =
      (rtwMacidIsSet cfg (w.dvobj.macidCtl.ifG j) id && !decide (s₀.macId = id)) := by
    intro j id
    rw [hg]
    by_cases hj : j = s₀.iface
    · subst hj
      simp [rtwMacidIsSet_clr]
    · rw [Function.update_of_ne hj]
      by_cases hid : s₀.macId = id
      · rw [← hid, hentered j]
        simp [hj]
      · simp [hid]
  have hother : ∀ s ∈ w.live.filter (fun s => s.psta ≠ s₀.psta),
      s ∈ w.live ∧ (s.Holds cfg → s₀.macId ≠ s.macId) := by
    intro s hs'
    obtain ⟨hs', hp⟩ := List.mem_filter.mp hs'
    refine ⟨hs', ?_⟩
    intro _ heq
    obtain rfl := h.eq_of_macId hmem hs' hh₀ hne₀ heq
    simp at hp
  refine ⟨h.nodup.sublist (List.filter_sublist.map _), ?_, ?_, ?_, ?_, ?_⟩
  · simp [hused, h.mgmt_used, hne₀]
  · intro j id hset
    rw [hifG, Bool.and_eq_true] at hset
    rw [hused, h.ifG_used j id hset.1, hset.2]
    rfl
  · intro s hs' hh
    obtain ⟨hs', hne⟩ := hother s hs'
    obtain ⟨h1, h2, h3⟩ := h.held s hs' hh
    exact ⟨h1, by simp [hused, h2, hne hh], h3⟩
  · intro s hs' hh hne1
    obtain ⟨hs', hne⟩ := hother s hs'
    obtain ⟨h1, h2⟩ := h.entered s hs' hh hne1
    refine ⟨?_, ?_⟩
    · rw [hs, Function.update_of_ne (hne hh).symm]
      exact h1
    · intro j
      simp [hifG, h2, hne hh]
  · intro id p hp
    rw [hs] at hp
    by_cases hid : id = s₀.macId
    · simp [hid] at hp
    · rw [Function.update_of_ne hid] at hp
      obtain ⟨s, hs', hps, hid', hh, hne⟩ := h.sta_live id p hp
      refine ⟨s, List.mem_filter.mpr ⟨hs', ?_⟩, hps, hid', hh, hne⟩
      rw [decide_eq_true_eq]
      intro heq
      obtain rfl := h.eq_of_psta hs' hmem heq
      exact hid hid'.symm

theorem MacidInv.release (h : MacidInv cfg w) (psta : ℕ) :
    MacidInv cfg (w.step cfg (.release psta)) := by
  simp only [World.step]
  cases hf : w.live.find? (fun s => s.psta = psta) with
  | none => exact h
  | some s =>
    have hmem := List.mem_of_find?_eq_some hf
    obtain rfl : s.psta = psta := by simpa using List.find?_some hf
    by_cases hh : s.Holds cfg
    · obtain ⟨hlt, hused, hown, hbc⟩ := h.held s hmem hh
      by_cases h1 : s.macId = 1
      · simp only [rtwReleaseMacid_idle cfg (Or.inr (Or.inr h1))]
        exact h.leave (Or.inr h1) hmem
      · exact h.withdraw hh h1 hmem
          (rtwReleaseMacid_spec hown hlt h1 hused (h.entered s hmem hh h1).2)
    · have hnum : cfg.macidNum ≤ s.macId := (not_not.mp hh).ge
      simp only [rtwReleaseMacid_idle cfg (Or.inr (Or.inl hnum))]
      exact h.leave (Or.inl hh) hmem

theorem MacidInv.step (op : MacidOp n) (h : MacidInv cfg w) : MacidInv cfg (w.step cfg op) := by
  cases op with
  | alloc iface staMode psta macAddr => exact h.alloc iface staMode psta macAddr
  | release psta => exact h.release psta

theorem MacidInv.sta_eq_none (h : MacidInv cfg w) {id : ℕ}
    (hfree : rtwMacidIsUsed cfg w.dvobj.macidCtl id = false) : w.dvobj.macidCtl.sta id = none := by
  cases hs : w.dvobj.macidCtl.sta id with
  | none => rfl
  | some p =>
    obtain ⟨s, hmem, -, rfl, hh, -⟩ := h.sta_live id p hs
    rw [(h.held s hmem hh).2.1] at hfree
    simp at hfree

/-- Releasing the station that was just allocated restores all three tables. -/
theorem MacidInv.release_alloc (h : MacidInv cfg w) (iface : Fin n) (staMode : Bool) {psta : ℕ}
    (macAddr : MacAddr) (hlive : psta ∉ w.live.map Station.psta) :
    idTables ((w.step cfg (.alloc iface staMode psta macAddr)).step cfg (.release psta)).dvobj =
      idTables w.dvobj := by
  have hinv := h.alloc iface staMode psta macAddr
  simp only [World.step, hlive, if_false] at hinv ⊢
  rw [List.find?_cons_of_pos (by simp)]
  rcases rtwAllocMacid_spec cfg w.dvobj iface staMode psta macAddr with
    ⟨hid, ht⟩ | ⟨-, hid, -, ht⟩ | ⟨hown, hlt, hfree, ht⟩
  · simp only [rtwReleaseMacid_idle cfg (Or.inr (Or.inl hid.ge)), ht]
  · simp only [rtwReleaseMacid_idle cfg (Or.inr (Or.inr hid)), ht]
  · generalize hr : rtwAllocMacid cfg w.dvobj iface staMode psta macAddr = r at *
    obtain ⟨hu, hg, hs⟩ : _ ∧ _ ∧ _ := by simpa [idTables] using ht
    have hne1 : r.2 ≠ 1 := by
      intro h1
      rw [h1, h.mgmt_used] at hfree
      simp at hfree
    obtain ⟨-, hused, -, -⟩ := hinv.held _ List.mem_cons_self (Nat.ne_of_lt hlt)
    have hif := (hinv.entered _ List.mem_cons_self (Nat.ne_of_lt hlt) hne1).2
    have hclear : rtwMacidIsSet cfg (w.dvobj.macidCtl.ifG iface) r.2 = false := by
      by_contra hc
      rw [Bool.not_eq_false] at hc
      rw [h.ifG_used iface _ hc] at hfree
      simp at hfree
    rw [rtwReleaseMacid_spec hown hlt hne1 hused hif, hu, hg, hs, rtwMacidMapClr_set hfree]
    simp only [idTables, Prod.mk.injEq, true_and, Function.update_self, Function.update_idem]
    refine ⟨?_, ?_⟩
    · rw [rtwMacidMapClr_set hclear, Function.update_eq_self]
    · rw [← h.sta_eq_none hfree, Function.update_eq_self]

end Step

theorem macidInv_init (cfg : Cfg n) (camUsed : WordMap) (camCache : ℕ → SecCamEnt) :
    MacidInv cfg ⟨⟨rtwMacidCtlInit cfg, camUsed, camCache⟩, []⟩ := by
  have h1 : 1 < cfg.macidNum := cfg.mgmtMacid_lt
  refine ⟨List.nodup_nil, ?_, ?_, ?_, ?_, ?_⟩
  · simp [rtwMacidIsUsed, rtwMacidCtlInit, rtwDefaultMgmtMacid, rtwMacidIsSet_set h1]
  · simp [rtwMacidIsUsed, rtwMacidCtlInit]
  · simp
  · simp
  · simp [rtwMacidCtlInit]

/-- In every state reached from the initial tables, ids are held by one station each, are in
range and marked used, `sta[]` points at the holders, and an allocation undone by its release
leaves no trace in the tables. -/
theorem macid_allocation (cfg : Cfg n) (camUsed : WordMap) (camCache : ℕ → SecCamEnt)
    (ops : List (MacidOp n)) :
    let w := run (World.step cfg) ⟨⟨rtwMacidCtlInit cfg, camUsed, camCache⟩, []⟩ ops
    (∀ s ∈ w.live, ∀ t ∈ w.live, s.psta ≠ t.psta → s.Holds cfg → t.Holds cfg →
      s.macAddr ≠ bcAddr → s.macId ≠ t.macId) ∧
    (∀ s ∈ w.live, s.Holds cfg →
      s.macId < cfg.macidNum ∧ rtwMacidIsUsed cfg w.dvobj.macidCtl s.macId = true) ∧
    (∀ id p, w.dvobj.macidCtl.sta id = some p → rtwMacidIsUsed cfg w.dvobj.macidCtl id = true ∧
      ∃ s ∈ w.live, s.psta = p ∧ s.macId = id) ∧
    (∀ iface staMode psta macAddr, psta ∉ w.live.map Station.psta →
      idTables ((w.step cfg (.alloc iface staMode psta macAddr)).step cfg (.release psta)).dvobj =
        idTables w.dvobj) := by
  intro w
  have h : MacidInv cfg w := run_invariant (P := fun _ _ => True)
    (fun _ op hi _ => hi.step op) (macidInv_init cfg camUsed camCache) (along_of_forall fun _ _ _ => trivial)
  refine ⟨?_, ?_, ?_, ?_⟩
  · intro s hs t ht hne hh _ hbc heq
    have h1 : s.macId ≠ 1 := fun h1 => hbc ((h.held s hs hh).2.2.2 h1)
    exact hne (by rw [h.eq_of_macId hs ht hh h1 heq])
  · intro s hs hh
    exact ⟨(h.held s hs hh).1, (h.held s hs hh).2.1⟩
  · intro id p hp
    obtain ⟨s, hs, hps, rfl, hh, -⟩ := h.sta_live id p hp
    exact ⟨(h.held s hs hh).2.1, s, hs, hps, rfl⟩
  · intro iface staMode psta macAddr hlive
    exact h.release_alloc iface staMode macAddr hlive

end Rtl8821cu.Dvobj
