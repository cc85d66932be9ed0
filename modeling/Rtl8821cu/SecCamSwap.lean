import Rtl8821cu.SecCamOwner

/-! The exchange of two entries of the security CAM (`core/rtw_wlan_util.c`), in the hardware and in
the cache. -/
namespace Rtl8821cu.Dvobj
open Bitmap

variable {n : ℕ}

/-- The device with the entries of its hardware CAM. -/
structure SecCam (n : ℕ) where
  dvobj : DvobjPriv n
  hw : ℕ → SecCamEnt

namespace SecCam

/-- `_write_cam`: the address of the hardware is a byte, eight addresses for each entry. -/
def write (s : SecCam n) (id : ℕ) (e : SecCamEnt) : SecCam n :=
  { dvobj := writeCamCache s.dvobj id e.ctrl e.mac e.key
    hw := Function.update s.hw (id % 32) e }

/-- `write_cam`. The key of an entry with the bit for 256-bit keys has 32 bytes. -/
def writeEnt (s : SecCam n) (id : ℕ) (ctrl : BitVec 16) (mac : MacAddr) (key : BitVec 256) :
    SecCam n :=
  if ctrl.getLsbD 9 then
    let s := s.write id ⟨ctrl, mac, key.extractLsb' 0 128⟩
    s.write (id + 1) ⟨ctrl ||| BitVec.twoPow 16 5, mac, key.extractLsb' 128 128⟩
  else s.write id ⟨ctrl, mac, key.extractLsb' 0 128⟩

def free (cfg : Cfg n) (s : SecCam n) (camId : ℕ) : SecCam n :=
  { s with dvobj := rtwCamidFree cfg s.dvobj camId }

/-- `rtw_camid_set`. -/
def setUsed (cfg : Cfg n) (s : SecCam n) (camId : ℕ) : SecCam n :=
  if camId < cfg.secCamNum then
    { s with dvobj := { s.dvobj with camUsed := rtwSecCamMapSet cfg s.dvobj.camUsed camId } }
  else s

def used (cfg : Cfg n) (s : SecCam n) (camId : ℕ) : Bool := rtwSecCamidIsUsed cfg s.dvobj camId

end SecCam

/-- `rtw_sec_cam_swap`. `cache_a` and `cache_b` hold 16 bytes of key; `tailA` and `tailB` are the
bytes of the stack behind them. -/
def rtwSecCamSwap (cfg : Cfg n) (tailA tailB : BitVec 128) (s : SecCam n) (a b : ℕ) : SecCam n :=
  if a = b then s
  else
    let camAUsed := s.used cfg a
    let camBUsed := s.used cfg b
    let cacheA := s.dvobj.camCache a
    let cacheB := s.dvobj.camCache b
    let s := if camAUsed then (s.free cfg a).write a ⟨0, 0, 0⟩ else s
    let s := if camBUsed then (s.free cfg b).write b ⟨0, 0, 0⟩ else s
    let s := if camAUsed then
        (s.writeEnt b cacheA.ctrl cacheA.mac (tailA ++ cacheA.key : BitVec (128 + 128))).setUsed cfg b
      else s
    if camBUsed then
      (s.writeEnt a cacheB.ctrl cacheB.mac (tailB ++ cacheB.key : BitVec (128 + 128))).setUsed cfg a
    else s

/-- The second state has the entries and the bits of the first one at exchanged places. -/
structure Swapped (cfg : Cfg n) (s s' : SecCam n) (a b : ℕ) : Prop where
  cache : ∀ i, s'.dvobj.camCache i = s.dvobj.camCache (Equiv.swap a b i)
  hw : ∀ i, s'.hw i = s.hw (Equiv.swap a b i)
  used : ∀ i, s'.used cfg i = s.used cfg (Equiv.swap a b i)

/-- The slots hold no half of a 256-bit key, the hardware has what the cache has, and a slot that is
not in use is as the clearing of the other one leaves it. -/
structure Exchangeable (cfg : Cfg n) (s : SecCam n) (a b : ℕ) : Prop where
  short : ∀ i, i = a ∨ i = b → s.used cfg i = true →
    (s.dvobj.camCache i).ctrl.getLsbD 9 = false ∧ s.hw i = s.dvobj.camCache i
  cleared : ∀ i j, (i = a ∧ j = b ∨ i = b ∧ j = a) → s.used cfg i = true → s.used cfg j = false →
    s.dvobj.camCache j = ⟨0, 0, 0⟩ ∧ s.hw j = ⟨0, 0, 0⟩
  same : s.used cfg a = false → s.used cfg b = false →
    s.dvobj.camCache a = s.dvobj.camCache b ∧ s.hw a = s.hw b

/-- The swap is an exchange, whatever lies behind the copies, and taken twice it changes nothing. -/
def Exchanges (cfg : Cfg n) (s : SecCam n) (a b : ℕ) : Prop :=
  ∀ tailA tailB tailA' tailB',
    let s' := rtwSecCamSwap cfg tailA tailB s a b
    let s'' := rtwSecCamSwap cfg tailA' tailB' s' a b
    Swapped cfg s s' a b ∧ s''.dvobj.camCache = s.dvobj.camCache ∧ s''.hw = s.hw ∧
      ∀ i, s''.used cfg i = s.used cfg i

section Swap

variable {cfg : Cfg n} {s : SecCam n} {a b i : ℕ} {e : SecCamEnt} {tail tailA tailB : BitVec 128}

/-- The second half that an entry with the bit for 256-bit keys is given. -/
def secondHalf (e : SecCamEnt) (tail : BitVec 128) : SecCamEnt :=
  ⟨e.ctrl ||| BitVec.twoPow 16 5, e.mac, tail⟩

theorem writeEnt_eq (s : SecCam n) (id : ℕ) (e : SecCamEnt) (tail : BitVec 128) :
    s.writeEnt id e.ctrl e.mac (tail ++ e.key : BitVec (128 + 128)) =
      if e.ctrl.getLsbD 9 then (s.write id e).write (id + 1) (secondHalf e tail)
      else s.write id e := by
  have hlow : (tail ++ e.key : BitVec (128 + 128)).extractLsb' 0 128 = e.key :=
    BitVec.extractLsb'_append_eq_right
  have hhigh : (tail ++ e.key : BitVec (128 + 128)).extractLsb' 128 128 = tail :=
    BitVec.extractLsb'_append_eq_left
  unfold SecCam.writeEnt
  rw [hlow, hhigh]
  rfl

theorem used_write (id : ℕ) : (s.write id e).used cfg i = s.used cfg i := rfl

theorem used_free (ha : a < cfg.secCamNum) :
    (s.free cfg a).used cfg i = (s.used cfg i && !decide (i = a)) := by
  unfold SecCam.used SecCam.free rtwCamidFree
  rw [if_pos ha]
  by_cases hi : i < cfg.secCamNum
  · rw [rtwSecCamidIsUsed_of_lt hi, rtwSecCamidIsUsed_of_lt hi, rtwSecCamidIsSet_clr]
  · simp [rtwSecCamidIsUsed, Nat.le_of_not_lt hi]

theorem used_setUsed (ha : a < cfg.secCamNum) :
    (s.setUsed cfg a).used cfg i = (s.used cfg i || decide (i = a)) := by
  unfold SecCam.used SecCam.setUsed
  rw [if_pos ha]
  by_cases hi : i < cfg.secCamNum
  · rw [rtwSecCamidIsUsed_of_lt hi, rtwSecCamidIsUsed_of_lt hi]
    simp [rtwSecCamidIsSet, rtwSecCamMapSet, isSet_set i (cam_lt_capacity ha), eq_comm]
  · have hne : i ≠ a := by omega
    simp [rtwSecCamidIsUsed, Nat.le_of_not_lt hi, hne]

@[simp] theorem camCache_write (id : ℕ) : (s.write id e).dvobj.camCache i =
    if i = id then e else s.dvobj.camCache i := Function.update_apply _ _ _ _

@[simp] theorem hw_write (id : ℕ) : (s.write id e).hw i = if i = id % 32 then e else s.hw i :=
  Function.update_apply _ _ _ _

@[simp] theorem camCache_free : (s.free cfg a).dvobj.camCache = s.dvobj.camCache := by
  unfold SecCam.free rtwCamidFree
  split_ifs <;> rfl

@[simp] theorem hw_free : (s.free cfg a).hw = s.hw := rfl

@[simp] theorem camCache_setUsed : (s.setUsed cfg a).dvobj.camCache = s.dvobj.camCache := by
  unfold SecCam.setUsed
  split_ifs <;> rfl

@[simp] theorem hw_setUsed : (s.setUsed cfg a).hw = s.hw := by
  unfold SecCam.setUsed
  split_ifs <;> rfl

@[simp] theorem camCache_writeEnt (id : ℕ) :
    (s.writeEnt id e.ctrl e.mac (tail ++ e.key : BitVec (128 + 128))).dvobj.camCache i =
      if e.ctrl.getLsbD 9 = true ∧ i = id + 1 then secondHalf e tail
      else if i = id then e else s.dvobj.camCache i := by
  rw [writeEnt_eq]
  cases e.ctrl.getLsbD 9 <;> simp

@[simp] theorem hw_writeEnt (id : ℕ) :
    (s.writeEnt id e.ctrl e.mac (tail ++ e.key : BitVec (128 + 128))).hw i =
      if e.ctrl.getLsbD 9 = true ∧ i = (id + 1) % 32 then secondHalf e tail
      else if i = id % 32 then e else s.hw i := by
  rw [writeEnt_eq]
  cases e.ctrl.getLsbD 9 <;> simp

@[simp] theorem used_writeEnt (id : ℕ) :
    (s.writeEnt id e.ctrl e.mac (tail ++ e.key : BitVec (128 + 128))).used cfg i =
      s.used cfg i := by
  rw [writeEnt_eq]
  split_ifs <;> rfl

theorem used_swap (ha : a < cfg.secCamNum) (hb : b < cfg.secCamNum) :
    (rtwSecCamSwap cfg tailA tailB s a b).used cfg i = s.used cfg (Equiv.swap a b i) := by
  unfold rtwSecCamSwap
  by_cases hne : a = b
  · rw [if_pos hne, hne, Equiv.swap_self]
    rfl
  · rw [if_neg hne]
    rcases eq_or_ne i a with rfl | hia
    · rw [Equiv.swap_apply_left]
      cases hua : s.used cfg i <;> cases hub : s.used cfg b <;>
        simp [hua, used_setUsed, used_free, used_write, ha, hb, hne]
    · rcases eq_or_ne i b with rfl | hib
      · rw [Equiv.swap_apply_right]
        cases hua : s.used cfg a <;> cases hub : s.used cfg i <;>
          simp [hub, used_setUsed, used_free, used_write, ha, hb, hia]
      · rw [Equiv.swap_apply_of_ne_of_ne hia hib]
        cases hua : s.used cfg a <;> cases hub : s.used cfg b <;>
          simp [used_setUsed, used_free, used_write, ha, hb, hia, hib]

/-- The cache after a swap, by the order of the writes from the last one on. -/
theorem camCache_swap (hne : a ≠ b) :
    (rtwSecCamSwap cfg tailA tailB s a b).dvobj.camCache i =
      if s.used cfg b = true ∧ (s.dvobj.camCache b).ctrl.getLsbD 9 = true ∧ i = a + 1 then
        secondHalf (s.dvobj.camCache b) tailB
      else if s.used cfg b = true ∧ i = a then s.dvobj.camCache b
      else if s.used cfg a = true ∧ (s.dvobj.camCache a).ctrl.getLsbD 9 = true ∧ i = b + 1 then
        secondHalf (s.dvobj.camCache a) tailA
      else if s.used cfg a = true ∧ i = b then s.dvobj.camCache a
      else if s.used cfg b = true ∧ i = b ∨ s.used cfg a = true ∧ i = a then ⟨0, 0, 0⟩
      else s.dvobj.camCache i := by
  unfold rtwSecCamSwap
  rw [if_neg hne]
  cases hua : s.used cfg a <;> cases hub : s.used cfg b <;> simp [ite_or]

theorem hw_swap (hne : a ≠ b) (ha : a < 32) (hb : b < 32) :
    (rtwSecCamSwap cfg tailA tailB s a b).hw i =
      if s.used cfg b = true ∧ (s.dvobj.camCache b).ctrl.getLsbD 9 = true ∧
          i = (a + 1) % 32 then secondHalf (s.dvobj.camCache b) tailB
      else if s.used cfg b = true ∧ i = a then s.dvobj.camCache b
      else if s.used cfg a = true ∧ (s.dvobj.camCache a).ctrl.getLsbD 9 = true ∧
          i = (b + 1) % 32 then secondHalf (s.dvobj.camCache a) tailA
      else if s.used cfg a = true ∧ i = b then s.dvobj.camCache a
      else if s.used cfg b = true ∧ i = b ∨ s.used cfg a = true ∧ i = a then ⟨0, 0, 0⟩
      else s.hw i := by
  have hma : a % 32 = a := Nat.mod_eq_of_lt ha
  have hmb : b % 32 = b := Nat.mod_eq_of_lt hb
  unfold rtwSecCamSwap
  rw [if_neg hne]
  cases hua : s.used cfg a <;> cases hub : s.used cfg b <;> simp [ite_or, hma, hmb]

/-- What the slots hold after the swap of exchangeable entries. -/
theorem Exchangeable.swapped (h : Exchangeable cfg s a b) (hne : a ≠ b) (ha : a < cfg.secCamNum)
    (hb : b < cfg.secCamNum) (hnum : cfg.secCamNum ≤ 32) :
    Swapped cfg s (rtwSecCamSwap cfg tailA tailB s a b) a b := by
  have hcellA := h.short a (Or.inl rfl)
  have hcellB := h.short b (Or.inr rfl)
  have hclearB := h.cleared a b (Or.inl ⟨rfl, rfl⟩)
  have hclearA := h.cleared b a (Or.inr ⟨rfl, rfl⟩)
  have hsame := h.same
  refine ⟨fun i => ?_, fun i => ?_, fun i => used_swap ha hb⟩
  · rw [camCache_swap hne, Equiv.swap_apply_def]
    cases hua : s.used cfg a <;> cases hub : s.used cfg b <;> simp_all <;> split_ifs <;> simp_all
  · rw [hw_swap hne (by omega) (by omega), Equiv.swap_apply_def]
    cases hua : s.used cfg a <;> cases hub : s.used cfg b <;> simp_all <;> split_ifs <;> simp_all

/-- Exchanged entries are exchangeable again. -/
theorem Swapped.exchangeable {s' : SecCam n} (hs : Swapped cfg s s' a b)
    (h : Exchangeable cfg s a b) : Exchangeable cfg s' a b := by
  have hmem : ∀ i, i = a ∨ i = b → Equiv.swap a b i = a ∨ Equiv.swap a b i = b := by
    rintro i (rfl | rfl)
    · exact Or.inr (Equiv.swap_apply_left _ _)
    · exact Or.inl (Equiv.swap_apply_right _ _)
  refine ⟨fun i hi hu => ?_, fun i j hij hu hj => ?_, fun hua hub => ?_⟩
  · rw [hs.used] at hu
    rw [hs.cache, hs.hw]
    exact h.short _ (hmem i hi) hu
  · rw [hs.used] at hu hj
    rw [hs.cache, hs.hw]
    refine h.cleared _ _ ?_ hu hj
    rcases hij with ⟨rfl, rfl⟩ | ⟨rfl, rfl⟩
    · exact Or.inr ⟨Equiv.swap_apply_left _ _, Equiv.swap_apply_right _ _⟩
    · exact Or.inl ⟨Equiv.swap_apply_right _ _, Equiv.swap_apply_left _ _⟩
  · rw [hs.used, Equiv.swap_apply_left] at hua
    rw [hs.used, Equiv.swap_apply_right] at hub
    rw [hs.cache, hs.cache, hs.hw, hs.hw, Equiv.swap_apply_left, Equiv.swap_apply_right]
    obtain ⟨hc, hw⟩ := h.same hub hua
    exact ⟨hc.symm, hw.symm⟩

theorem Exchangeable.exchanges (h : Exchangeable cfg s a b) (hne : a ≠ b)
    (ha : a < cfg.secCamNum) (hb : b < cfg.secCamNum) (hnum : cfg.secCamNum ≤ 32) :
    Exchanges cfg s a b := by
  intro tailA tailB tailA' tailB'
  have h1 : Swapped cfg s (rtwSecCamSwap cfg tailA tailB s a b) a b := h.swapped hne ha hb hnum
  have h2 : Swapped cfg _ (rtwSecCamSwap cfg tailA' tailB' _ a b) a b :=
    (h1.exchangeable h).swapped hne ha hb hnum
  refine ⟨h1, funext fun i => ?_, funext fun i => ?_, fun i => ?_⟩
  · rw [h2.cache, h1.cache, Equiv.swap_apply_self]
  · rw [h2.hw, h1.hw, Equiv.swap_apply_self]
  · rw [h2.used, h1.used, Equiv.swap_apply_self]

/-- A slot that takes what lies behind a copy is not what it should be. -/
theorem secondHalf_ne (e e' : SecCamEnt) : secondHalf e (~~~e'.key) ≠ e' := by
  intro h
  have hkey : ~~~e'.key = e'.key := congrArg SecCamEnt.key h
  have hbit := congrArg (fun k => k.getLsbD 0) hkey
  simp at hbit

/-- The entry written last has no second half. -/
theorem Exchanges.short_b (h : Exchanges cfg s a b) (hne : a ≠ b) (hub : s.used cfg b = true) :
    (s.dvobj.camCache b).ctrl.getLsbD 9 = false := by
  by_contra hlong
  rw [Bool.not_eq_false] at hlong
  obtain ⟨hswapped, -⟩ := h 0 (~~~(s.dvobj.camCache (Equiv.swap a b (a + 1))).key) 0 0
  have hcell := hswapped.cache (a + 1)
  rw [camCache_swap hne, if_pos ⟨hub, hlong, rfl⟩] at hcell
  exact secondHalf_ne _ _ hcell

/-- The entry written first has none either: behind the other slot it would stay, and in the other
slot it would be written behind the pair when the entries are swapped back. -/
theorem Exchanges.short_a (h : Exchanges cfg s a b) (hne : a ≠ b) (hua : s.used cfg a = true)
    (ha : a < cfg.secCamNum) (hb : b < cfg.secCamNum) :
    (s.dvobj.camCache a).ctrl.getLsbD 9 = false := by
  by_contra hlong
  rw [Bool.not_eq_false] at hlong
  by_cases hover : s.used cfg b = true ∧ b + 1 = a
  · obtain ⟨hub, rfl⟩ := hover
    obtain ⟨hswapped, hback, -⟩ := h 0 0 0 (~~~(s.dvobj.camCache (b + 1 + 1)).key)
    have hcell := congrFun hback (b + 1 + 1)
    have hb' : (rtwSecCamSwap cfg 0 0 s (b + 1) b).dvobj.camCache b =
        s.dvobj.camCache (b + 1) := by
      rw [hswapped.cache, Equiv.swap_apply_right]
    have hub' : (rtwSecCamSwap cfg 0 0 s (b + 1) b).used cfg b = true := by
      rw [used_swap ha hb, Equiv.swap_apply_right]
      exact hua
    rw [camCache_swap hne, hb', if_pos ⟨hub', hlong, rfl⟩] at hcell
    exact secondHalf_ne _ _ hcell
  · obtain ⟨hswapped, -⟩ := h (~~~(s.dvobj.camCache (Equiv.swap a b (b + 1))).key) 0 0 0
    have hcell := hswapped.cache (b + 1)
    have hfirst : ¬(s.used cfg b = true ∧ (s.dvobj.camCache b).ctrl.getLsbD 9 = true ∧
        b + 1 = a + 1) := by
      rintro ⟨-, -, hab⟩
      omega
    rw [camCache_swap hne, if_neg hfirst, if_neg hover, if_pos ⟨hua, hlong, rfl⟩] at hcell
    exact secondHalf_ne _ _ hcell

theorem Exchanges.exchangeable (h : Exchanges cfg s a b) (hne : a ≠ b)
    (ha : a < cfg.secCamNum) (hb : b < cfg.secCamNum) (hnum : cfg.secCamNum ≤ 32) :
    Exchangeable cfg s a b := by
  have hshortA := h.short_a hne
  have hshortB := h.short_b hne
  obtain ⟨hswapped, -⟩ := h 0 0 0 0
  have hcA := hswapped.cache a
  have hcB := hswapped.cache b
  have hhA := hswapped.hw a
  have hhB := hswapped.hw b
  rw [camCache_swap hne, Equiv.swap_apply_left] at hcA
  rw [camCache_swap hne, Equiv.swap_apply_right] at hcB
  rw [hw_swap hne (by omega) (by omega), Equiv.swap_apply_left] at hhA
  rw [hw_swap hne (by omega) (by omega), Equiv.swap_apply_right] at hhB
  refine ⟨?_, ?_, fun hua hub => ?_⟩
  · rintro i (rfl | rfl) hu
    · have hs := hshortA hu ha hb
      refine ⟨hs, ?_⟩
      cases hub : s.used cfg b <;> simp_all
    · have hs := hshortB hu
      refine ⟨hs, ?_⟩
      cases hua : s.used cfg a <;> simp_all
  · rintro i j (⟨rfl, rfl⟩ | ⟨rfl, rfl⟩) hu hj
    · have hs := hshortA hu ha hb
      simp only [hu, hj, hs, hne, Bool.false_eq_true, true_and, false_and, if_false, or_true,
        if_true] at hcA hhA
      exact ⟨hcA.symm, hhA.symm⟩
    · have hs := hshortB hu
      simp only [hu, hj, hs, hne.symm, Bool.false_eq_true, true_and, false_and, if_false, true_or,
        if_true] at hcB hhB
      exact ⟨hcB.symm, hhB.symm⟩
  · simp only [hua, hub, Bool.false_eq_true, false_and, if_false, or_self] at hcA hhA
    exact ⟨hcA, hhA⟩

end Swap

/-- `rtw_sec_cam_swap` exchanges two entries exactly if they are exchangeable. -/
theorem sec_cam_swap_iff (cfg : Cfg n) (hnum : cfg.secCamNum ≤ 32) (s : SecCam n) (a b : ℕ)
    (ha : a < cfg.secCamNum) (hb : b < cfg.secCamNum) :
    Exchanges cfg s a b ↔ (a ≠ b → Exchangeable cfg s a b) := by
  by_cases hne : a = b
  · refine ⟨fun _ h => absurd hne h, fun _ tailA tailB tailA' tailB' => ?_⟩
    subst hne
    have hself : ∀ tailA tailB, rtwSecCamSwap cfg tailA tailB s a a = s := fun _ _ => if_pos rfl
    dsimp only
    rw [hself, hself]
    refine ⟨⟨fun i => ?_, fun i => ?_, fun i => ?_⟩, rfl, rfl, fun _ => rfl⟩ <;>
      rw [Equiv.swap_self, Equiv.refl_apply]
  · exact ⟨fun h _ => h.exchangeable hne ha hb hnum, fun h => (h hne).exchanges hne ha hb hnum⟩

/-- A device with an entry in slot 0 and nothing else. -/
def oneEntry (e : SecCamEnt) : SecCam 1 where
  dvobj :=
    { macidCtl := rtwMacidCtlInit (cfg8821c 0)
      camUsed := rtwSecCamMapSet (cfg8821c 0) empty 0
      camCache := fun i => if i = 0 then e else ⟨0, 0, 0⟩ }
  hw i := if i = 0 then e else ⟨0, 0, 0⟩

/-- A valid AES key of 128 bits moves to slot 1 and back. -/
theorem sec_cam_swap_moves :
    Exchanges (cfg8821c 0) (oneEntry ⟨0x8010, 1, 2⟩) 0 1 := by
  refine (sec_cam_swap_iff (cfg8821c 0) (by decide) (oneEntry ⟨0x8010, 1, 2⟩) 0 1 (by decide)
    (by decide)).mpr fun _ => ⟨?_, ?_, nofun⟩
  · rintro i (rfl | rfl) hu
    · exact ⟨rfl, rfl⟩
    · cases hu
  · rintro i j (⟨rfl, rfl⟩ | ⟨rfl, rfl⟩) hu hj
    · exact ⟨rfl, rfl⟩
    · cases hu

/-- An entry for a 256-bit key takes the slot behind the one it is moved to. -/
theorem sec_cam_swap_overwrites : ¬∀ (cfg : Cfg 1) (s : SecCam 1) (a b : ℕ),
    cfg.secCamNum ≤ 32 → a < cfg.secCamNum → b < cfg.secCamNum → Exchanges cfg s a b := by
  intro h
  have hex := h (cfg8821c 0) (oneEntry ⟨0x8210, 1, 2⟩) 0 1 (by decide) (by decide) (by decide)
  have hshort := hex.short_a (by decide) rfl (by decide) (by decide)
  cases hshort

end Rtl8821cu.Dvobj
