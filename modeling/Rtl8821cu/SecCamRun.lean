import Rtl8821cu.SecCamOwner

/-! The ownership invariant of the security CAM and its preservation. -/
namespace Rtl8821cu.Dvobj
open Bitmap Run

variable {n : ℕ} {cfg : Cfg n}

/-- Owned slots are in range, marked and disjoint; the cache lines of a key carry its identity;
a line with a non-zero address is marked and not reserved; each interface remembers the id of
its reserved broadcast station. -/
structure CamInv (cfg : Cfg n) (w : CamWorld n) : Prop where
  macid : MacidInv cfg w.world
  ids : (w.keys.map CamKey.ident).Nodup
  key_slots : ∀ k ∈ w.keys, ∀ i ∈ k.slots,
    rtwSecCamidIsUsed cfg w.world.dvobj i = true ∧ LineIs w.world.dvobj i k.ident
  res_slots : ∀ s ∈ w.world.live, Reserved cfg s → ∀ i ∈ s.camSlots cfg,
    rtwSecCamidIsUsed cfg w.world.dvobj i = true
  key_key : ∀ k ∈ w.keys, ∀ k' ∈ w.keys, k.ident ≠ k'.ident → k.slots.Disjoint k'.slots
  key_res : ∀ k ∈ w.keys, ∀ s ∈ w.world.live, Reserved cfg s → k.slots.Disjoint (s.camSlots cfg)
  res_res : ∀ s ∈ w.world.live, ∀ t ∈ w.world.live, Reserved cfg s → Reserved cfg t →
    s.psta ≠ t.psta → (s.camSlots cfg).Disjoint (t.camSlots cfg)
  line : ∀ i, (w.world.dvobj.camCache i).mac ≠ 0 →
    rtwSecCamidIsUsed cfg w.world.dvobj i = true ∧
      ∀ s ∈ w.world.live, Reserved cfg s → i ∉ s.camSlots cfg
  bcmc : ∀ s ∈ w.world.live, Reserved cfg s →
    w.world.dvobj.macidCtl.ifaceBmc s.iface = s.macId

theorem MacidInv.of_macidCtl {w w' : World n} (h : MacidInv cfg w) (hl : w'.live = w.live)
    (hm : w'.dvobj.macidCtl = w.dvobj.macidCtl) : MacidInv cfg w' := by
  obtain ⟨d, live⟩ := w'
  obtain rfl : live = w.live := hl
  have hm' : d.macidCtl = w.dvobj.macidCtl := hm
  obtain ⟨h1, h2, h3, h4, h5, h6⟩ := h
  rw [← hm'] at h2 h3 h4 h5 h6
  exact ⟨h1, h2, h3, h4, h5, h6⟩

theorem pairwise_of_nodup_map {α β : Type*} {R : α → α → Prop} {f : α → β} {l : List α}
    (hn : (l.map f).Nodup) (h : ∀ x ∈ l, ∀ y ∈ l, f x ≠ f y → R x y) : l.Pairwise R := by
  rw [List.Nodup, List.pairwise_map] at hn
  exact hn.imp_of_mem fun hx hy hxy => h _ hx _ hy hxy

theorem CamInv.slotsExclusive {w : CamWorld n} (h : CamInv cfg w) : SlotsExclusive cfg w := by
  have hres : ∀ s ∈ w.world.live.filter fun s => Reserved cfg s,
      s ∈ w.world.live ∧ Reserved cfg s := by
    intro s hs
    simpa using List.mem_filter.mp hs
  constructor
  · unfold owners
    rw [List.pairwise_append, List.pairwise_map, List.pairwise_map]
    refine ⟨pairwise_of_nodup_map h.ids h.key_key, ?_, ?_⟩
    · refine pairwise_of_nodup_map (h.macid.nodup.sublist (List.filter_sublist.map _)) ?_
      intro s hs t ht hne
      exact h.res_res s (hres s hs).1 t (hres t ht).1 (hres s hs).2 (hres t ht).2 hne
    · intro o ho o' ho'
      obtain ⟨k, hk, rfl⟩ := List.mem_map.mp ho
      obtain ⟨s, hs, rfl⟩ := List.mem_map.mp ho'
      exact h.key_res k hk s (hres s hs).1 (hres s hs).2
  · intro o ho i hi
    have hused : rtwSecCamidIsUsed cfg w.world.dvobj i = true := by
      rcases List.mem_append.mp ho with ho | ho
      · obtain ⟨k, hk, rfl⟩ := List.mem_map.mp ho
        exact (h.key_slots k hk i hi).1
      · obtain ⟨s, hs, rfl⟩ := List.mem_map.mp ho
        exact h.res_slots s (hres s hs).1 (hres s hs).2 i hi
    exact ⟨rtwSecCamidIsUsed_lt hused, hused⟩

section SetKey
variable {w : CamWorld n} {addr : MacAddr} {j : ℕ} {p : SetKeyParm}

/-- The slots `rtw_camid_alloc` picks belong to no one but the key itself. -/
theorem CamInv.placeable (hbmc : cfg.secCapChkBmc = true) (h : CamInv cfg w) (hnz : addr ≠ 0)
    (hext : p.ext = true → ∀ i, rtwCamidSearch cfg w.world.dvobj addr p.kid (some p.gk) = some i →
      i + 1 < cfg.secCamNum ∧ ¬ TakenByOther cfg w (addr, p.kid, p.gk) (i + 1))
    (hg : rtwGetCamid cfg w.world.dvobj addr p.kid p.gk p.ext = some j) :
    ∀ i ∈ slotPair j p.ext, i < cfg.secCamNum ∧ ¬ TakenByOther cfg w (addr, p.kid, p.gk) i := by
  rcases rtwGetCamid_some hbmc hg with hhit | hfree
  · obtain ⟨hlt, hmac, hline⟩ := rtwCamidSearch_some hhit
    obtain ⟨hused, hnres⟩ := h.line j (by rw [hmac]; exact hnz)
    intro i hi
    rcases mem_slotPair.mp hi with rfl | ⟨he, rfl⟩
    · refine ⟨hlt, ?_⟩
      rintro (⟨k, hk, hne, hik⟩ | ⟨s, hs, hr, his⟩)
      · exact hne ((h.key_slots k hk i hik).2.ident_eq (hline hused))
      · exact hnres s hs hr his
    · exact hext he j hhit
  · intro i hi
    obtain ⟨hlt, hnot⟩ := freeCamid_some hfree i hi
    refine ⟨hlt, ?_⟩
    rintro (⟨k, hk, -, hik⟩ | ⟨s, hs, hr, his⟩)
    · rw [(h.key_slots k hk i hik).1] at hnot
      simp at hnot
    · rw [h.res_slots s hs hr i his] at hnot
      simp at hnot

theorem CamInv.place (h : CamInv cfg w) (hk : p.kid < 4)
    (hplace : ∀ i ∈ slotPair j p.ext,
      i < cfg.secCamNum ∧ ¬ TakenByOther cfg w (addr, p.kid, p.gk) i) :
    let k : CamKey := ⟨addr, p.kid, p.gk, j, p.ext⟩
    let d := { w.world.dvobj with
      camUsed := rtwSecCamMapSetPair cfg w.world.dvobj.camUsed j p.ext }
    CamInv cfg ⟨⟨writeCam d j p.ctrl addr p.key, w.world.live⟩,
      k :: w.keys.filter fun k' => k'.ident ≠ k.ident⟩ := by
  intro k d
  have hlines := writeCam_lines d addr j hk
  generalize writeCam d j p.ctrl addr p.key = d' at hlines ⊢
  have hmacid : d'.macidCtl = w.world.dvobj.macidCtl := (hlines 0).2.2.2
  have hin : ∀ i ∈ k.slots, LineIs d' i k.ident := fun i => (hlines i).1
  have hout : ∀ i, i ∉ k.slots → d'.camCache i = w.world.dvobj.camCache i :=
    fun i => (hlines i).2.1
  have hused : ∀ i, rtwSecCamidIsUsed cfg d' i = true ↔
      rtwSecCamidIsUsed cfg w.world.dvobj i = true ∨ i ∈ k.slots := by
    intro i
    by_cases hi : i < cfg.secCamNum
    · rw [rtwSecCamidIsUsed_of_lt hi, rtwSecCamidIsUsed_of_lt hi, (hlines 0).2.2.1,
        rtwSecCamidIsSet_setPair fun x hx => (hplace x hx).1, Bool.or_eq_true, decide_eq_true_eq]
      rfl
    · have hno : i ∉ k.slots := fun hmem => hi (hplace i hmem).1
      simp [rtwSecCamidIsUsed, Nat.le_of_not_lt hi, hno]
  have hold : ∀ k' ∈ w.keys.filter fun k' => k'.ident ≠ k.ident,
      k' ∈ w.keys ∧ k'.ident ≠ k.ident := by
    intro k' hk'
    simpa using List.mem_filter.mp hk'
  have hother : ∀ k' ∈ w.keys.filter fun k' => k'.ident ≠ k.ident, k.slots.Disjoint k'.slots := by
    intro k' hk' i hi hi'
    exact (hplace i hi).2 (Or.inl ⟨k', (hold k' hk').1, (hold k' hk').2, hi'⟩)
  have hres : ∀ s ∈ w.world.live, Reserved cfg s → k.slots.Disjoint (s.camSlots cfg) := by
    intro s hs hr i hi hi'
    exact (hplace i hi).2 (Or.inr ⟨s, hs, hr, hi'⟩)
  refine ⟨h.macid.of_macidCtl rfl hmacid, ?_, ?_, ?_, ?_, ?_, h.res_res, ?_, ?_⟩
  · rw [List.map_cons, List.nodup_cons]
    refine ⟨?_, h.ids.sublist (List.filter_sublist.map _)⟩
    intro hmem
    obtain ⟨k', hk', heq⟩ := List.mem_map.mp hmem
    exact (hold k' hk').2 heq
  · intro k' hk' i hi
    rcases List.mem_cons.mp hk' with rfl | hk'
    · exact ⟨(hused i).mpr (Or.inr hi), hin i hi⟩
    · obtain ⟨h1, h2⟩ := h.key_slots k' (hold k' hk').1 i hi
      refine ⟨(hused i).mpr (Or.inl h1), ?_⟩
      rw [LineIs, hout i fun hik => hother k' hk' hik hi]
      exact h2
  · intro s hs hr i hi
    exact (hused i).mpr (Or.inl (h.res_slots s hs hr i hi))
  · intro k₁ hk₁ k₂ hk₂ hne
    rcases List.mem_cons.mp hk₁ with rfl | hk₁ <;> rcases List.mem_cons.mp hk₂ with rfl | hk₂
    · exact absurd rfl hne
    · exact hother k₂ hk₂
    · exact (hother k₁ hk₁).symm
    · exact h.key_key k₁ (hold k₁ hk₁).1 k₂ (hold k₂ hk₂).1 hne
  · intro k' hk' s hs hr
    rcases List.mem_cons.mp hk' with rfl | hk'
    · exact hres s hs hr
    · exact h.key_res k' (hold k' hk').1 s hs hr
  · intro i hi
    by_cases hmem : i ∈ k.slots
    · exact ⟨(hused i).mpr (Or.inr hmem), fun s hs hr => hres s hs hr hmem⟩
    · have hi' : (w.world.dvobj.camCache i).mac ≠ 0 := by
        rw [← hout i hmem]
        exact hi
      obtain ⟨h1, h2⟩ := h.line i hi'
      exact ⟨(hused i).mpr (Or.inl h1), h2⟩
  · intro s hs hr
    show d'.macidCtl.ifaceBmc s.iface = s.macId
    rw [hmacid]
    exact h.bcmc s hs hr

theorem CamInv.setKey (hbmc : cfg.secCapChkBmc = true) (h : CamInv cfg w) {iface : Fin n}
    {mlme : MlmeInfo} (hs : CamSafe cfg w (.setKey iface mlme p)) :
    CamInv cfg (w.step cfg (.setKey iface mlme p)) := by
  simp only [CamWorld.step]
  cases hr : (Dvobj.setKey cfg w.world.dvobj iface mlme p).2 with
  | none =>
    simp only [setKey_none hr]
    exact h
  | some r =>
    obtain ⟨addr, j⟩ := r
    obtain ⟨ha, hg, hd⟩ := setKey_some hr
    obtain ⟨hnz, hkid, hext⟩ := hs addr ha
    simp only [hd]
    exact h.place hkid (h.placeable hbmc hnz hext hg)

end SetKey

section ClearKey
variable {w : CamWorld n} {camId : ℕ}

theorem clearKey_used (d : DvobjPriv n) (i : ℕ) :
    rtwSecCamidIsUsed cfg (clearKey cfg d camId) i =
      (rtwSecCamidIsUsed cfg d i && !decide (i = camId)) := by
  by_cases hi : i < cfg.secCamNum
  · rw [rtwSecCamidIsUsed_of_lt hi, rtwSecCamidIsUsed_of_lt hi, clearKey, rtwCamidFree]
    split_ifs with hc
    · rw [rtwSecCamidIsSet_clr]
      rfl
    · have hne : i ≠ camId := by omega
      simp [hne, clearCamEntry, writeCamCache]
  · simp [rtwSecCamidIsUsed, Nat.le_of_not_lt hi]

theorem clearKey_camCache (d : DvobjPriv n) :
    (clearKey cfg d camId).camCache = Function.update d.camCache camId ⟨0, 0, 0⟩ := by
  simp only [clearKey, rtwCamidFree]
  split_ifs <;> rfl

theorem clearKey_macidCtl (d : DvobjPriv n) : (clearKey cfg d camId).macidCtl = d.macidCtl := by
  simp only [clearKey, rtwCamidFree]
  split_ifs <;> rfl

theorem CamInv.clearKey (h : CamInv cfg w) (hs : CamSafe cfg w (.clearKey camId)) :
    CamInv cfg (w.step cfg (.clearKey camId)) := by
  have hold : ∀ k ∈ w.keys.filter fun k => camId ∉ k.slots, k ∈ w.keys ∧ camId ∉ k.slots := by
    intro k hk
    simpa using List.mem_filter.mp hk
  have hmacid : (Dvobj.clearKey cfg w.world.dvobj camId).macidCtl = w.world.dvobj.macidCtl :=
    clearKey_macidCtl _
  refine ⟨h.macid.of_macidCtl rfl hmacid, h.ids.sublist (List.filter_sublist.map _), ?_, ?_, ?_,
    ?_, h.res_res, ?_, ?_⟩
  · intro k hk i hi
    obtain ⟨hk, hno⟩ := hold k hk
    obtain ⟨h1, h2⟩ := h.key_slots k hk i hi
    have hne : i ≠ camId := by
      rintro rfl
      exact hno hi
    simp only [CamWorld.step, clearKey_used, LineIs, clearKey_camCache,
      Function.update_of_ne hne, h1, hne, decide_false, Bool.not_false, Bool.and_self, true_and]
    exact h2
  · intro s hs' hr i hi
    have hne : i ≠ camId := by
      rintro rfl
      exact hs s hs' hr hi
    simp [CamWorld.step, clearKey_used, hne, h.res_slots s hs' hr i hi]
  · intro k hk k' hk'
    exact h.key_key k (hold k hk).1 k' (hold k' hk').1
  · intro k hk
    exact h.key_res k (hold k hk).1
  · intro i hi
    simp only [CamWorld.step, clearKey_camCache] at hi
    have hne : i ≠ camId := by
      rintro rfl
      simp at hi
    rw [Function.update_of_ne hne] at hi
    obtain ⟨h1, h2⟩ := h.line i hi
    exact ⟨by simp [CamWorld.step, clearKey_used, hne, h1], h2⟩
  · intro s hs' hr
    simp only [CamWorld.step, hmacid]
    exact h.bcmc s hs' hr

end ClearKey

section Alloc

/-- An allocation leaves the CAM alone, or reserves the slots of a broadcast station. -/
theorem rtwAllocMacid_cam (cfg : Cfg n) (d : DvobjPriv n) (iface : Fin n) (staMode : Bool) (psta : ℕ)
    (macAddr : MacAddr) :
    let r := rtwAllocMacid cfg d iface staMode psta macAddr
    r.1.camCache = d.camCache ∧
    ((r.1.camUsed = d.camUsed ∧ ¬ (macAddr = bcAddr ∧ r.2 ≠ cfg.macidNum ∧ r.2 ≠ 1) ∧
        ∀ j, (macAddr = bcAddr → macAddr ≠ cfg.adapterMacAddr iface → j ≠ iface) →
          r.1.macidCtl.ifaceBmc j = d.macidCtl.ifaceBmc j) ∨
      (macAddr = bcAddr ∧ macAddr ≠ cfg.adapterMacAddr iface ∧ staMode = false ∧
        freeMacid cfg d true = some r.2 ∧
        r.1.camUsed = rtwSecCamMapSetPair cfg d.camUsed r.2 cfg.secCapChkExtraSec ∧
        r.1.macidCtl.ifaceBmc = Function.update d.macidCtl.ifaceBmc iface r.2)) := by
  intro r
  by_cases hown : macAddr = cfg.adapterMacAddr iface
  · have hr : r = (d, cfg.macidNum) := by simp [r, rtwAllocMacid, hown]
    rw [hr]
    exact ⟨rfl, Or.inl ⟨rfl, by simp, fun _ _ => rfl⟩⟩
  by_cases hbc : macAddr = bcAddr
  · have hne : bcAddr ≠ cfg.adapterMacAddr iface := hbc ▸ hown
    cases staMode with
    | true =>
      have hr : r = ({ d with
          macidCtl := rtwIfaceBcmcIdSet d.macidCtl iface invalidSecMacCamId }, 1) := by
        simp [r, rtwAllocMacid, hbc, hne, rtwDefaultMgmtMacid]
      rw [hr]
      refine ⟨rfl, Or.inl ⟨rfl, by simp, ?_⟩⟩
      intro j hj
      exact Function.update_of_ne (hj hbc hown) _ _
    | false =>
      have hfree : freeMacid cfg { d with
          macidCtl := rtwIfaceBcmcIdSet d.macidCtl iface invalidSecMacCamId } true =
            freeMacid cfg d true := rfl
      cases hf : freeMacid cfg d true with
      | none =>
        have hr : r = ({ d with
            macidCtl := rtwIfaceBcmcIdSet d.macidCtl iface invalidSecMacCamId }, cfg.macidNum) := by
          simp [r, rtwAllocMacid, hbc, hne, hfree, hf]
        rw [hr]
        refine ⟨rfl, Or.inl ⟨rfl, by simp, ?_⟩⟩
        intro j hj
        exact Function.update_of_ne (hj hbc hown) _ _
      | some i =>
        simp only [r, rtwAllocMacid, hbc, hne, hfree, hf, decide_true, if_true, if_false,
          Bool.and_false, Bool.false_eq_true]
        refine ⟨trivial, Or.inr ⟨trivial, hne, trivial, trivial, trivial, ?_⟩⟩
        exact Function.update_idem _ _ _
  · cases hf : freeMacid cfg d false with
    | none =>
      have hr : r = (d, cfg.macidNum) := by simp [r, rtwAllocMacid, hbc, hown, hf]
      rw [hr]
      exact ⟨rfl, Or.inl ⟨rfl, by simp, fun _ _ => rfl⟩⟩
    | some i =>
      simp only [r, rtwAllocMacid, hbc, hown, hf, decide_false, if_false, Bool.false_and,
        Bool.false_eq_true]
      exact ⟨trivial, Or.inl ⟨trivial, by simp, fun _ _ => trivial⟩⟩

variable {w : CamWorld n}

/-- A station without a reservation joins. -/
theorem CamInv.join (h : CamInv cfg w) {d : DvobjPriv n} {s₀ : Station n}
    (hmacid : MacidInv cfg ⟨d, s₀ :: w.world.live⟩) (hcache : d.camCache = w.world.dvobj.camCache)
    (hused : d.camUsed = w.world.dvobj.camUsed) (hs₀ : ¬ Reserved cfg s₀)
    (hbmc : ∀ s ∈ w.world.live, Reserved cfg s →
      d.macidCtl.ifaceBmc s.iface = w.world.dvobj.macidCtl.ifaceBmc s.iface) :
    CamInv cfg ⟨⟨d, s₀ :: w.world.live⟩, w.keys⟩ := by
  have hu : ∀ i, rtwSecCamidIsUsed cfg d i = rtwSecCamidIsUsed cfg w.world.dvobj i := by
    intro i
    simp only [rtwSecCamidIsUsed, hused]
  have hmem : ∀ s ∈ s₀ :: w.world.live, Reserved cfg s → s ∈ w.world.live := by
    intro s hs hr
    rcases List.mem_cons.mp hs with rfl | hs
    · exact absurd hr hs₀
    · exact hs
  refine ⟨hmacid, h.ids, ?_, ?_, h.key_key, ?_, ?_, ?_, ?_⟩
  · intro k hk i hi
    simp only [hu, LineIs, hcache]
    exact h.key_slots k hk i hi
  · intro s hs hr i hi
    rw [hu]
    exact h.res_slots s (hmem s hs hr) hr i hi
  · intro k hk s hs hr
    exact h.key_res k hk s (hmem s hs hr) hr
  · intro s hs t ht hr hr'
    exact h.res_res s (hmem s hs hr) t (hmem t ht hr') hr hr'
  · intro i hi
    simp only [hcache] at hi
    obtain ⟨h1, h2⟩ := h.line i hi
    rw [hu]
    exact ⟨h1, fun s hs hr => h2 s (hmem s hs hr) hr⟩
  · intro s hs hr
    exact (hbmc s (hmem s hs hr) hr).trans (h.bcmc s (hmem s hs hr) hr)

/-- A broadcast station joins and reserves slots that were nobody's. -/
theorem CamInv.reserve (h : CamInv cfg w) {d : DvobjPriv n} {s₀ : Station n}
    (hmacid : MacidInv cfg ⟨d, s₀ :: w.world.live⟩) (hcache : d.camCache = w.world.dvobj.camCache)
    (hused : d.camUsed = rtwSecCamMapSetPair cfg w.world.dvobj.camUsed s₀.macId
      cfg.secCapChkExtraSec)
    (hbmc : d.macidCtl.ifaceBmc =
      Function.update w.world.dvobj.macidCtl.ifaceBmc s₀.iface s₀.macId)
    (hiface : ∀ s ∈ w.world.live, Reserved cfg s → s.iface ≠ s₀.iface)
    (hslots : ∀ j ∈ s₀.camSlots cfg,
      j < cfg.secCamNum ∧ rtwSecCamidIsUsed cfg w.world.dvobj j = false) :
    CamInv cfg ⟨⟨d, s₀ :: w.world.live⟩, w.keys⟩ := by
  have hu : ∀ i, rtwSecCamidIsUsed cfg d i = true ↔
      rtwSecCamidIsUsed cfg w.world.dvobj i = true ∨ i ∈ s₀.camSlots cfg := by
    intro i
    by_cases hi : i < cfg.secCamNum
    · rw [rtwSecCamidIsUsed_of_lt hi, rtwSecCamidIsUsed_of_lt hi, hused,
        rtwSecCamidIsSet_setPair fun x hx => (hslots x hx).1, Bool.or_eq_true, decide_eq_true_eq]
      rfl
    · have hno : i ∉ s₀.camSlots cfg := fun hmem => hi (hslots i hmem).1
      simp [rtwSecCamidIsUsed, Nat.le_of_not_lt hi, hno]
  have hfree : ∀ i, rtwSecCamidIsUsed cfg w.world.dvobj i = true → i ∉ s₀.camSlots cfg := by
    intro i hi hmem
    rw [(hslots i hmem).2] at hi
    simp at hi
  refine ⟨hmacid, h.ids, ?_, ?_, h.key_key, ?_, ?_, ?_, ?_⟩
  · intro k hk i hi
    obtain ⟨h1, h2⟩ := h.key_slots k hk i hi
    simp only [LineIs, hcache]
    exact ⟨(hu i).mpr (Or.inl h1), h2⟩
  · intro s hs hr i hi
    rcases List.mem_cons.mp hs with rfl | hs
    · exact (hu i).mpr (Or.inr hi)
    · exact (hu i).mpr (Or.inl (h.res_slots s hs hr i hi))
  · intro k hk s hs hr
    rcases List.mem_cons.mp hs with rfl | hs
    · intro i hi hi'
      exact hfree i (h.key_slots k hk i hi).1 hi'
    · exact h.key_res k hk s hs hr
  · intro s hs t ht hr hr' hne
    rcases List.mem_cons.mp hs with hs | hs <;> rcases List.mem_cons.mp ht with ht | ht
    · exact absurd (by rw [hs, ht]) hne
    · intro i hi hi'
      exact hfree i (h.res_slots t ht hr' i hi') (hs ▸ hi)
    · intro i hi hi'
      exact hfree i (h.res_slots s hs hr i hi) (ht ▸ hi')
    · exact h.res_res s hs t ht hr hr' hne
  · intro i hi
    simp only [hcache] at hi
    obtain ⟨h1, h2⟩ := h.line i hi
    refine ⟨(hu i).mpr (Or.inl h1), ?_⟩
    intro s hs hr
    rcases List.mem_cons.mp hs with rfl | hs
    · exact hfree i h1
    · exact h2 s hs hr
  · intro s hs hr
    simp only [hbmc]
    rcases List.mem_cons.mp hs with rfl | hs
    · exact Function.update_self _ _ _
    · rw [Function.update_of_ne (hiface s hs hr)]
      exact h.bcmc s hs hr

theorem CamInv.alloc (h : CamInv cfg w) {iface : Fin n} {staMode : Bool} {psta : ℕ}
    {macAddr : MacAddr} (hs : CamSafe cfg w (.macid (.alloc iface staMode psta macAddr))) :
    CamInv cfg (w.step cfg (.macid (.alloc iface staMode psta macAddr))) := by
  have hmacid := h.macid.alloc iface staMode psta macAddr
  obtain ⟨hcache, hcam⟩ := rtwAllocMacid_cam cfg w.world.dvobj iface staMode psta macAddr
  simp only [CamWorld.step, World.step] at hmacid ⊢
  split_ifs at hmacid ⊢ with hlive
  · exact h
  · rcases hcam with ⟨hused, hnres, hbmc⟩ | ⟨hbc, hown, hmode, hfree, hused, hbmc⟩
    · refine h.join hmacid hcache hused hnres ?_
      intro s hs' hr
      exact hbmc s.iface fun hbc hown => (hs hbc hown).1 s hs' hr
    · obtain ⟨hiface, hslots⟩ := hs hbc hown
      exact h.reserve hmacid hcache hused hbmc hiface (hslots hmode _ hfree)

end Alloc

section Release
variable {w : CamWorld n} {d : DvobjPriv n} {iface : Fin n} {macAddr : MacAddr} {macId : ℕ}

theorem rtwReleaseMacid_cam_same (cfg : Cfg n) (d : DvobjPriv n) (iface : Fin n)
    (h : macAddr ≠ bcAddr ∨ cfg.macidNum ≤ macId ∨ macId = 1) :
    (rtwReleaseMacid cfg d iface macAddr macId).camUsed = d.camUsed ∧
      (rtwReleaseMacid cfg d iface macAddr macId).camCache = d.camCache ∧
      (rtwReleaseMacid cfg d iface macAddr macId).macidCtl.ifaceBmc = d.macidCtl.ifaceBmc := by
  rcases h with hbc | h
  · simp only [rtwReleaseMacid, hbc, if_false]
    split_ifs <;> exact ⟨rfl, rfl, rfl⟩
  · rw [rtwReleaseMacid_idle cfg (Or.inr h)]
    exact ⟨rfl, rfl, rfl⟩

/-- A broadcast station with an id of its own gives its slots back. -/
theorem rtwReleaseMacid_cam_bc (hbc : macAddr = bcAddr)
    (hown : macAddr ≠ cfg.adapterMacAddr iface) (hlt : macId < cfg.macidNum) (hne : macId ≠ 1)
    (hused : rtwMacidIsUsed cfg d.macidCtl macId = true)
    (hif : ∀ j, rtwMacidIsSet cfg (d.macidCtl.ifG j) macId = decide (j = iface)) :
    (rtwReleaseMacid cfg d iface macAddr macId).camUsed = (releaseBcmcCam cfg d iface).camUsed ∧
      (rtwReleaseMacid cfg d iface macAddr macId).camCache = d.camCache ∧
      (rtwReleaseMacid cfg d iface macAddr macId).macidCtl.ifaceBmc =
        Function.update d.macidCtl.ifaceBmc iface invalidSecMacCamId := by
  have hself := ifaceBmp_self hif
  have hnum : ¬ cfg.macidNum ≤ macId := by omega
  have hmgmt : ¬ macId = rtwDefaultMgmtMacid := hne
  simp only [rtwReleaseMacid, hnum, hmgmt, hused, hself, hbc, if_true, if_false, Bool.not_true,
    Bool.false_eq_true, hbc ▸ hown]
  split_ifs
  · exact ⟨trivial, rfl, rfl⟩
  · exact ⟨trivial, rfl, rfl⟩

theorem releaseBcmcCam_used (hid : d.macidCtl.ifaceBmc iface = macId)
    (hlt : ∀ j ∈ slotPair macId cfg.secCapChkExtraSec, j < cfg.secCamNum) (i : ℕ) :
    rtwSecCamidIsUsed cfg (releaseBcmcCam cfg d iface) i =
      (rtwSecCamidIsUsed cfg d i && !decide (i ∈ slotPair macId cfg.secCapChkExtraSec)) := by
  have hmac := hlt macId (mem_slotPair.mpr (Or.inl rfl))
  have hcam : cfg.secCamNum ≤ 128 := cfg.secCamNum_le.trans cfg.secCamLimit_le
  have hvalid : macId ≠ invalidSecMacCamId ∧ macId < cfg.secCamNum := by
    refine ⟨?_, hmac⟩
    unfold invalidSecMacCamId
    omega
  by_cases hi : i < cfg.secCamNum
  · rw [rtwSecCamidIsUsed_of_lt hi, rtwSecCamidIsUsed_of_lt hi]
    simp only [releaseBcmcCam, hid, if_pos hvalid]
    cases cfg.secCapChkExtraSec with
    | false => simp [slotPair, rtwSecCamidIsSet_clr]
    | true => simp [slotPair, rtwSecCamidIsSet_clr, Bool.and_assoc]
  · simp [rtwSecCamidIsUsed, Nat.le_of_not_lt hi]

theorem CamInv.leave (h : CamInv cfg w) {live : List (Station n)} (hsub : live ⊆ w.world.live)
    (hmacid : MacidInv cfg ⟨d, live⟩) (hcache : d.camCache = w.world.dvobj.camCache)
    (hkeep : ∀ i, rtwSecCamidIsUsed cfg w.world.dvobj i = true →
      (∃ k ∈ w.keys, i ∈ k.slots) ∨ (∃ s ∈ live, Reserved cfg s ∧ i ∈ s.camSlots cfg) ∨
        (w.world.dvobj.camCache i).mac ≠ 0 → rtwSecCamidIsUsed cfg d i = true)
    (hbmc : ∀ s ∈ live, Reserved cfg s →
      d.macidCtl.ifaceBmc s.iface = w.world.dvobj.macidCtl.ifaceBmc s.iface) :
    CamInv cfg ⟨⟨d, live⟩, w.keys⟩ := by
  refine ⟨hmacid, h.ids, ?_, ?_, h.key_key, ?_, ?_, ?_, ?_⟩
  · intro k hk i hi
    obtain ⟨h1, h2⟩ := h.key_slots k hk i hi
    simp only [LineIs, hcache]
    exact ⟨hkeep i h1 (Or.inl ⟨k, hk, hi⟩), h2⟩
  · intro s hs hr i hi
    exact hkeep i (h.res_slots s (hsub hs) hr i hi) (Or.inr (Or.inl ⟨s, hs, hr, hi⟩))
  · intro k hk s hs hr
    exact h.key_res k hk s (hsub hs) hr
  · intro s hs t ht
    exact h.res_res s (hsub hs) t (hsub ht)
  · intro i hi
    simp only [hcache] at hi
    obtain ⟨h1, h2⟩ := h.line i hi
    exact ⟨hkeep i h1 (Or.inr (Or.inr hi)), fun s hs => h2 s (hsub hs)⟩
  · intro s hs hr
    exact (hbmc s hs hr).trans (h.bcmc s (hsub hs) hr)

theorem CamInv.release (h : CamInv cfg w) (psta : ℕ) :
    CamInv cfg (w.step cfg (.macid (.release psta))) := by
  have hmacid := h.macid.release psta
  simp only [CamWorld.step, World.step] at hmacid ⊢
  cases hf : w.world.live.find? (fun s => s.psta = psta) with
  | none => exact h
  | some s₀ =>
    simp only [hf] at hmacid
    have hmem := List.mem_of_find?_eq_some hf
    obtain rfl : s₀.psta = psta := by simpa using List.find?_some hf
    have hsub : w.world.live.filter (fun s => s.psta ≠ s₀.psta) ⊆ w.world.live :=
      fun s hs => List.mem_of_mem_filter hs
    by_cases hr₀ : Reserved cfg s₀
    · have hh : s₀.Holds cfg := hr₀.2.1
      have hne1 := hr₀.2.2
      obtain ⟨hlt, hu, hown, -⟩ := h.macid.held s₀ hmem hh
      obtain ⟨hcu, hcc, hib⟩ := rtwReleaseMacid_cam_bc hr₀.1 hown hlt hne1 hu
        (h.macid.entered s₀ hmem hh hne1).2
      have hslots := h.res_slots s₀ hmem hr₀
      have hused := releaseBcmcCam_used (h.bcmc s₀ hmem hr₀)
        fun j hj => rtwSecCamidIsUsed_lt (hslots j hj)
      have hu' : ∀ i, rtwSecCamidIsUsed cfg
          (rtwReleaseMacid cfg w.world.dvobj s₀.iface s₀.macAddr s₀.macId) i =
            (rtwSecCamidIsUsed cfg w.world.dvobj i && !decide (i ∈ s₀.camSlots cfg)) := by
        intro i
        rw [Station.camSlots, ← hused i]
        simp only [rtwSecCamidIsUsed, hcu]
      have hother : ∀ s ∈ w.world.live.filter (fun s => s.psta ≠ s₀.psta), s.psta ≠ s₀.psta := by
        intro s hs
        simpa using (List.mem_filter.mp hs).2
      refine h.leave hsub hmacid hcc ?_ ?_
      · intro i hi hwhy
        have hno : i ∉ s₀.camSlots cfg := by
          rcases hwhy with ⟨k, hk, hik⟩ | ⟨s, hs, hr, his⟩ | hmac
          · exact h.key_res k hk s₀ hmem hr₀ hik
          · exact h.res_res s (hsub hs) s₀ hmem hr hr₀ (hother s hs) his
          · exact (h.line i hmac).2 s₀ hmem hr₀
        simp [hu', hi, hno]
      · intro s hs hr
        rw [hib, Function.update_of_ne]
        intro hiface
        have heq : s.macId = s₀.macId := by
          rw [← h.bcmc s (hsub hs) hr, ← h.bcmc s₀ hmem hr₀, hiface]
        have := h.macid.eq_of_macId (hsub hs) hmem hr.2.1 hr.2.2 heq
        exact hother s hs (by rw [this])
    · have hidle : s₀.macAddr ≠ bcAddr ∨ cfg.macidNum ≤ s₀.macId ∨ s₀.macId = 1 := by
        by_contra hc
        obtain ⟨h1, h2⟩ := not_or.mp hc
        obtain ⟨h2, h3⟩ := not_or.mp h2
        exact hr₀ ⟨not_not.mp h1, by omega, h3⟩
      obtain ⟨hcu, hcc, hib⟩ := rtwReleaseMacid_cam_same cfg w.world.dvobj s₀.iface hidle
      refine h.leave hsub hmacid hcc ?_ ?_
      · intro i hi _
        simpa only [rtwSecCamidIsUsed, hcu] using hi
      · intro s _ _
        rw [hib]

end Release

theorem CamInv.step (hbmc : cfg.secCapChkBmc = true) (w : CamWorld n) (op : CamOp n)
    (h : CamInv cfg w) (hs : CamSafe cfg w op) : CamInv cfg (w.step cfg op) := by
  cases op with
  | setKey iface mlme p => exact h.setKey hbmc hs
  | clearKey camId => exact h.clearKey hs
  | macid op =>
    cases op with
    | alloc iface staMode psta macAddr => exact h.alloc hs
    | release psta => exact h.release psta

/-- The device at start-up: no station, no key, an empty CAM. -/
def CamWorld.init (cfg : Cfg n) : CamWorld n :=
  ⟨⟨⟨rtwMacidCtlInit cfg, empty, fun _ => ⟨0, 0, 0⟩⟩, []⟩, []⟩

theorem camInv_init (cfg : Cfg n) : CamInv cfg (CamWorld.init cfg) := by
  refine ⟨macidInv_init cfg _ _, ?_, ?_, ?_, ?_, ?_, ?_, ?_, ?_⟩ <;> simp [CamWorld.init]

/-- In every run of safe steps the slots of distinct owners never meet. -/
theorem cam_slots_exclusive (cfg : Cfg n) (hbmc : cfg.secCapChkBmc = true) (ops : List (CamOp n))
    (h : Along (CamWorld.step cfg) (CamSafe cfg) (CamWorld.init cfg) ops) :
    ∀ k, SlotsExclusive cfg (run (CamWorld.step cfg) (CamWorld.init cfg) (ops.take k)) := by
  intro k
  have hk : Along (CamWorld.step cfg) (CamSafe cfg) (CamWorld.init cfg) (ops.take k) := by
    rw [← List.take_append_drop k ops, along_append] at h
    exact h.1
  exact (run_invariant (CamInv.step hbmc) (camInv_init cfg) hk).slotsExclusive

/-- A pairwise key for a station, of 128 or 256 bits. -/
def pairwiseKey (addr : MacAddr) (ext : Bool) : SetKeyParm :=
  { sta := some addr, kid := 0, gk := false, ext := ext, alg := 4, spp := false, key := 0 }

theorem cam_slots_exclusive_rekey :
    SlotsExclusive (cfg8821c 9) (run (CamWorld.step (cfg8821c 9)) (CamWorld.init (cfg8821c 9))
      (([.setKey 0 ⟨true, true, 0⟩ (pairwiseKey 1 false), .clearKey 0,
        .setKey 0 ⟨true, true, 0⟩ (pairwiseKey 1 true)] : List (CamOp 1)).take 3)) := by
  refine cam_slots_exclusive (cfg8821c 9) rfl [.setKey 0 ⟨true, true, 0⟩ (pairwiseKey 1 false),
    .clearKey 0, .setKey 0 ⟨true, true, 0⟩ (pairwiseKey 1 true)] ⟨?_, ?_, ?_, trivial⟩ 3
  · rintro addr ⟨⟩
    exact ⟨by decide, by decide, fun hext => absurd hext (by decide)⟩
  · intro s hs
    exact absurd hs List.not_mem_nil
  · rintro addr ⟨⟩
    refine ⟨by decide, by decide, ?_⟩
    intro _ i hi
    exact absurd hi (by decide +revert)

/-- Two stations with ordinary keys in slots 0 and 1; re-keying the first with a 256-bit key
writes slot 1 as well. -/
theorem rekey_overwrites_neighbour :
    ¬ ∀ (ops : List (CamOp 1)) (k : ℕ), SlotsExclusive (cfg8821c 9)
      (run (CamWorld.step (cfg8821c 9)) (CamWorld.init (cfg8821c 9)) (ops.take k)) := by
  intro h
  have h3 := (h [.setKey 0 ⟨true, true, 0⟩ (pairwiseKey 1 false),
    .setKey 0 ⟨true, true, 0⟩ (pairwiseKey 2 false),
    .setKey 0 ⟨true, true, 0⟩ (pairwiseKey 1 true)] 3).1
  have howners : owners (cfg8821c 9) (run (CamWorld.step (cfg8821c 9))
      (CamWorld.init (cfg8821c 9)) ([.setKey 0 ⟨true, true, 0⟩ (pairwiseKey 1 false),
        .setKey 0 ⟨true, true, 0⟩ (pairwiseKey 2 false),
        .setKey 0 ⟨true, true, 0⟩ (pairwiseKey 1 true)].take 3)) = [[0, 1], [1]] := by
    decide
  rw [howners] at h3
  simp at h3

end Rtl8821cu.Dvobj
