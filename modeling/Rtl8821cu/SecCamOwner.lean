import Rtl8821cu.SecCam
import Rtl8821cu.MacidAlloc

/-! Who owns which slot of the security CAM, over histories of key settings, key removals and
mac-id calls. -/
namespace Rtl8821cu.Dvobj
open Bitmap Run

variable {n : ℕ} {cfg : Cfg n}

/-- The slots of an entry that starts at `i`. -/
def slotPair (i : ℕ) (two : Bool) : List ℕ := if two then [i, i + 1] else [i]

theorem mem_slotPair {i j : ℕ} {two : Bool} :
    j ∈ slotPair i two ↔ j = i ∨ two = true ∧ j = i + 1 := by
  cases two <;> simp [slotPair]

/-- A key that has been set and not cleared since. -/
structure CamKey where
  addr : MacAddr
  kid : BitVec 8
  gk : Bool
  slot : ℕ
  ext : Bool
  deriving DecidableEq

/-- Setting a key again for the same address, key id and group bit replaces it. -/
def CamKey.ident (k : CamKey) : MacAddr × BitVec 8 × Bool := (k.addr, k.kid, k.gk)

def CamKey.slots (k : CamKey) : List ℕ := slotPair k.slot k.ext

structure CamWorld (n : ℕ) where
  world : World n
  keys : List CamKey

/-- Broadcast stations with an id of their own have the CAM slot of that id reserved. -/
def Reserved (cfg : Cfg n) (s : Station n) : Prop :=
  s.macAddr = bcAddr ∧ s.macId ≠ cfg.macidNum ∧ s.macId ≠ 1

instance (s : Station n) : Decidable (Reserved cfg s) :=
  inferInstanceAs (Decidable (_ ∧ _))

def Station.camSlots (cfg : Cfg n) (s : Station n) : List ℕ :=
  slotPair s.macId cfg.secCapChkExtraSec

/-- The slot sets of the live keys and of the reservations. -/
def owners (cfg : Cfg n) (w : CamWorld n) : List (List ℕ) :=
  w.keys.map CamKey.slots ++
    (w.world.live.filter fun s => Reserved cfg s).map (Station.camSlots cfg)

/-- Distinct owners have disjoint slots, all below the table size and marked used. -/
def SlotsExclusive (cfg : Cfg n) (w : CamWorld n) : Prop :=
  (owners cfg w).Pairwise List.Disjoint ∧
    ∀ o ∈ owners cfg w, ∀ i ∈ o,
      i < cfg.secCamNum ∧ rtwSecCamidIsUsed cfg w.world.dvobj i = true

inductive CamOp (n : ℕ)
  | setKey (iface : Fin n) (mlme : MlmeInfo) (p : SetKeyParm)
  | clearKey (camId : ℕ)
  | macid (op : MacidOp n)

def CamWorld.step (cfg : Cfg n) (w : CamWorld n) : CamOp n → CamWorld n
  | .setKey iface mlme p =>
      let r := setKey cfg w.world.dvobj iface mlme p
      match r.2 with
      | none => ⟨{ w.world with dvobj := r.1 }, w.keys⟩
      | some (addr, camId) =>
          let k : CamKey := ⟨addr, p.kid, p.gk, camId, p.ext⟩
          ⟨{ w.world with dvobj := r.1 }, k :: w.keys.filter fun k' => k'.ident ≠ k.ident⟩
  | .clearKey camId =>
      ⟨{ w.world with dvobj := clearKey cfg w.world.dvobj camId },
        w.keys.filter fun k => camId ∉ k.slots⟩
  | .macid op => ⟨w.world.step cfg op, w.keys⟩

/-- The slot is taken by someone other than the key named. -/
def TakenByOther (cfg : Cfg n) (w : CamWorld n) (ident : MacAddr × BitVec 8 × Bool) (i : ℕ) :
    Prop :=
  (∃ k ∈ w.keys, k.ident ≠ ident ∧ i ∈ k.slots) ∨
    ∃ s ∈ w.world.live, Reserved cfg s ∧ i ∈ s.camSlots cfg

/-- The steps that keep slots exclusive. A key has a non-zero address and a two-bit key id, and
a 256-bit key re-keying an existing entry finds the next slot in range and not taken; an entry
reserved for broadcast is not cleared; a broadcast station joins an interface without one, and
the slots it reserves are in range and unused. -/
def CamSafe (cfg : Cfg n) (w : CamWorld n) : CamOp n → Prop
  | .setKey iface mlme p =>
      ∀ addr, keyAddr cfg iface mlme p.sta = some addr →
        addr ≠ 0 ∧ p.kid < 4 ∧
          (p.ext = true → ∀ i, rtwCamidSearch cfg w.world.dvobj addr p.kid (some p.gk) = some i →
            i + 1 < cfg.secCamNum ∧ ¬ TakenByOther cfg w (addr, p.kid, p.gk) (i + 1))
  | .clearKey camId => ∀ s ∈ w.world.live, Reserved cfg s → camId ∉ s.camSlots cfg
  | .macid (.alloc iface staMode _ macAddr) =>
      macAddr = bcAddr → macAddr ≠ cfg.adapterMacAddr iface →
        (∀ s ∈ w.world.live, Reserved cfg s → s.iface ≠ iface) ∧
          (staMode = false → ∀ i, freeMacid cfg w.world.dvobj true = some i →
            ∀ j ∈ slotPair i cfg.secCapChkExtraSec,
              j < cfg.secCamNum ∧ rtwSecCamidIsUsed cfg w.world.dvobj j = false)
  | .macid (.release _) => True

section Maps
variable {d : DvobjPriv n} {map : WordMap} {i j : ℕ}

theorem cam_lt_capacity (h : i < cfg.secCamNum) : i < capacity cfg.secCamEntNumSwLimit :=
  h.trans_le (cfg.secCamNum_le.trans (le_capacity cfg.secCamLimit_le))

theorem rtwSecCamidIsUsed_lt (h : rtwSecCamidIsUsed cfg d i = true) : i < cfg.secCamNum := by
  by_contra hc
  simp [rtwSecCamidIsUsed, Nat.le_of_not_lt hc] at h

theorem rtwSecCamidIsUsed_of_lt (h : i < cfg.secCamNum) :
    rtwSecCamidIsUsed cfg d i = rtwSecCamidIsSet cfg d.camUsed i := by
  simp [rtwSecCamidIsUsed, Nat.not_le_of_lt h]

theorem rtwSecCamidIsSet_setPair {two : Bool}
    (h : ∀ k ∈ slotPair i two, k < cfg.secCamNum) :
    rtwSecCamidIsSet cfg (rtwSecCamMapSetPair cfg map i two) j =
      (rtwSecCamidIsSet cfg map j || decide (j ∈ slotPair i two)) := by
  have hi := cam_lt_capacity (h i (mem_slotPair.mpr (Or.inl rfl)))
  cases two with
  | false =>
    simp [rtwSecCamMapSetPair, rtwSecCamidIsSet, rtwSecCamMapSet, isSet_set j hi, slotPair, eq_comm]
  | true =>
    have hi' := cam_lt_capacity (h (i + 1) (mem_slotPair.mpr (Or.inr ⟨rfl, rfl⟩)))
    simp [rtwSecCamMapSetPair, rtwSecCamidIsSet, rtwSecCamMapSet, isSet_set j hi, isSet_set j hi',
      slotPair, eq_comm, Bool.or_assoc]

theorem rtwSecCamidIsSet_clr :
    rtwSecCamidIsSet cfg (rtwSecCamMapClr cfg map i) j =
      (rtwSecCamidIsSet cfg map j && !decide (j = i)) := by
  simp [rtwSecCamidIsSet, rtwSecCamMapClr, isSet_clr, eq_comm]

end Maps

section SetKey
variable {d : DvobjPriv n} {addr : MacAddr} {kid : BitVec 8} {gk ext : Bool} {j : ℕ}

/-- The cache line at `i` carries this address, key id and group bit. -/
def LineIs (d : DvobjPriv n) (i : ℕ) (ident : MacAddr × BitVec 8 × Bool) : Prop :=
  (d.camCache i).mac = ident.1 ∧ (d.camCache i).ctrl &&& 3 = ident.2.1.setWidth 16 ∧
    (d.camCache i).ctrl.getLsbD 6 = ident.2.2

theorem LineIs.ident_eq {a b : MacAddr × BitVec 8 × Bool} {i : ℕ} (ha : LineIs d i a)
    (hb : LineIs d i b) : a = b := by
  obtain ⟨h1, h2, h3⟩ := ha
  obtain ⟨h4, h5, h6⟩ := hb
  have hkid : a.2.1 = b.2.1 := by
    have hw := h2.symm.trans h5
    have := congrArg (fun v => v.setWidth 8) hw
    simpa using this
  exact Prod.ext (h1.symm.trans h4) (Prod.ext hkid (h3.symm.trans h6))

theorem rtwCamidSearch_some (h : rtwCamidSearch cfg d addr kid (some gk) = some j) :
    j < cfg.secCamNum ∧ (d.camCache j).mac = addr ∧
      (rtwSecCamidIsUsed cfg d j = true → LineIs d j (addr, kid, gk)) := by
  have hlt := List.mem_range.mp (List.mem_of_find?_eq_some h)
  have hp := List.find?_some h
  simp only [camCacheChk, Bool.and_eq_true, beq_iff_eq] at hp
  obtain ⟨⟨hmac, hkid⟩, hgk⟩ := hp
  refine ⟨hlt, hmac, ?_⟩
  intro hused
  refine ⟨hmac, hkid.symm, ?_⟩
  rw [hgk]
  simp [rtwCamidIsGk, Nat.not_le_of_lt hlt, hused]

theorem freeCamid_some (h : freeCamid cfg d ext = some j) :
    ∀ i ∈ slotPair j ext, i < cfg.secCamNum ∧ rtwSecCamidIsUsed cfg d i = false := by
  have hlt := List.mem_range.mp (List.mem_of_find?_eq_some h)
  have hp := List.find?_some h
  simp only [Bool.and_eq_true, Bool.or_eq_true, Bool.not_eq_true', decide_eq_true_eq] at hp
  intro i hi
  rcases mem_slotPair.mp hi with rfl | ⟨he, rfl⟩
  · exact ⟨hlt, hp.1⟩
  · exact hp.2.resolve_left (by simp [he])

theorem rtwGetCamid_some (hbmc : cfg.secCapChkBmc = true)
    (h : rtwGetCamid cfg d addr kid gk ext = some j) :
    rtwCamidSearch cfg d addr kid (some gk) = some j ∨ freeCamid cfg d ext = some j := by
  simp only [rtwGetCamid, hbmc, if_true] at h
  cases hs : rtwCamidSearch cfg d addr kid (some gk) with
  | some i =>
    rw [hs] at h
    exact Or.inl h
  | none =>
    rw [hs] at h
    exact Or.inr h

theorem setKey_none {iface : Fin n} {mlme : MlmeInfo} {p : SetKeyParm}
    (h : (setKey cfg d iface mlme p).2 = none) : (setKey cfg d iface mlme p).1 = d := by
  simp only [setKey, rtwCamidAlloc] at h ⊢
  cases ha : keyAddr cfg iface mlme p.sta with
  | none => simp
  | some addr =>
    cases hg : rtwGetCamid cfg d addr p.kid p.gk p.ext with
    | none => simp [hg]
    | some j => simp [ha, hg] at h

theorem setKey_some {iface : Fin n} {mlme : MlmeInfo} {p : SetKeyParm}
    (h : (setKey cfg d iface mlme p).2 = some (addr, j)) :
    keyAddr cfg iface mlme p.sta = some addr ∧
      rtwGetCamid cfg d addr p.kid p.gk p.ext = some j ∧
      (setKey cfg d iface mlme p).1 =
        writeCam { d with camUsed := rtwSecCamMapSetPair cfg d.camUsed j p.ext } j p.ctrl addr
          p.key := by
  simp only [setKey, rtwCamidAlloc] at h ⊢
  cases ha : keyAddr cfg iface mlme p.sta with
  | none => simp [ha] at h
  | some addr' =>
    cases hg : rtwGetCamid cfg d addr' p.kid p.gk p.ext with
    | none => simp [ha, hg] at h
    | some j' =>
      obtain ⟨rfl, rfl⟩ : addr' = addr ∧ j' = j := by simpa [ha, hg] using h
      simp [hg]

theorem keyCtrl_fields (alg : BitVec 3) (kid : BitVec 8) (gk ext spp : Bool) (hk : kid < 4) :
    let ctrl := keyCtrl alg kid gk ext spp
    ctrl.getLsbD 9 = ext ∧ (ctrl &&& 3 = kid.setWidth 16 ∧ ctrl.getLsbD 6 = gk) ∧
      ((ctrl ||| BitVec.twoPow 16 5) &&& 3 = kid.setWidth 16 ∧
        (ctrl ||| BitVec.twoPow 16 5).getLsbD 6 = gk) := by
  have hcase : kid = 0 ∨ kid = 1 ∨ kid = 2 ∨ kid = 3 := by bv_omega
  clear hk
  rcases hcase with rfl | rfl | rfl | rfl <;> revert alg gk ext spp <;> decide

theorem writeCam_lines (d : DvobjPriv n) (addr : MacAddr) (j : ℕ) {p : SetKeyParm} (hk : p.kid < 4) (i : ℕ) :
    let d' := writeCam d j p.ctrl addr p.key
    (i ∈ slotPair j p.ext → LineIs d' i (addr, p.kid, p.gk)) ∧
      (i ∉ slotPair j p.ext → d'.camCache i = d.camCache i) ∧
      d'.camUsed = d.camUsed ∧ d'.macidCtl = d.macidCtl := by
  obtain ⟨hext, ⟨h1, h2⟩, h3, h4⟩ := keyCtrl_fields p.alg p.kid p.gk p.ext p.spp hk
  intro d'
  have hd' : d' = if p.ext then
      writeCamCache (writeCamCache d j p.ctrl addr (p.key.extractLsb' 0 128)) (j + 1)
        (p.ctrl ||| BitVec.twoPow 16 5) addr (p.key.extractLsb' 128 128)
      else writeCamCache d j p.ctrl addr (p.key.extractLsb' 0 128) := by
    simp only [d', writeCam, SetKeyParm.ctrl, hext]
  clear_value d'
  subst hd'
  cases p.ext with
  | false =>
    simp only [Bool.false_eq_true, if_false, slotPair, List.mem_singleton]
    refine ⟨?_, ?_, rfl, rfl⟩
    · rintro rfl
      refine ⟨?_, ?_, ?_⟩ <;> simp only [writeCamCache, Function.update_self]
      · exact h1
      · exact h2
    · intro hi
      simp [writeCamCache, hi]
  | true =>
    simp only [if_true, slotPair, List.mem_cons, List.not_mem_nil, or_false, not_or]
    refine ⟨?_, ?_, rfl, rfl⟩
    · rintro (rfl | rfl)
      · have hne : i ≠ i + 1 := by omega
        refine ⟨?_, ?_, ?_⟩ <;>
          simp only [writeCamCache, Function.update_of_ne hne, Function.update_self]
        · exact h1
        · exact h2
      · refine ⟨?_, ?_, ?_⟩ <;> simp only [writeCamCache, Function.update_self]
        · exact h3
        · exact h4
    · rintro ⟨hi, hi'⟩
      simp [writeCamCache, hi, hi']

end SetKey

end Rtl8821cu.Dvobj
