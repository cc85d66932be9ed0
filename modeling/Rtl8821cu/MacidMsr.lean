import Rtl8821cu.Dvobj
import Rtl8821cu.LibRun

/-! The per-role operation counters kept beside the media status table
(`rtw_macid_ctl_set_h2c_msr`). -/
namespace Rtl8821cu.Dvobj
open Run

variable {n : ℕ}

def h2cMsrRoleMax : ℕ := 8

/-- `GET_H2CCMD_MSRRPT_PARM_OPMODE`: bit 0. -/
def msrOpmode (msr : BitVec 8) : Bool := msr.getLsbD 0

/-- `GET_H2CCMD_MSRRPT_PARM_ROLE`: bits 4 to 7. -/
def msrRole (msr : BitVec 8) : ℕ := msr.toNat / 16

/-- Adds `delta` to the counter of `role` and reports the role, if the role has a counter. -/
def opNumChange (m : MacidCtl n) (role : ℕ) (delta : BitVec 8) : MacidCtl n × BitVec 8 :=
  if role < h2cMsrRoleMax then
    ({ m with opNum := Function.update m.opNum role (m.opNum role + delta) }, BitVec.twoPow 8 role)
  else (m, 0)

def rtwMacidCtlSetH2cMsr (cfg : Cfg n) (m : MacidCtl n) (id : ℕ) (h2cMsr : BitVec 8) :
    MacidCtl n × BitVec 8 :=
  if cfg.macidNum ≤ id then (m, 0)
  else
    let r :=
      if msrOpmode (m.h2cMsr id) && !msrOpmode h2cMsr then
        opNumChange m (msrRole (m.h2cMsr id)) (-1)
      else if !msrOpmode (m.h2cMsr id) && msrOpmode h2cMsr then
        opNumChange m (msrRole h2cMsr) 1
      else (m, 0)
    ({ r.1 with h2cMsr := Function.update r.1.h2cMsr id h2cMsr }, r.2)

/-- The entry counts for role `r`. -/
def countsFor (msr : BitVec 8) (r : ℕ) : Bool := msrOpmode msr && decide (msrRole msr = r)

/-- The number of macids having `h2c_msr`'s OPMODE = 1 for a specific ROLE. -/
def roleCount (cfg : Cfg n) (m : MacidCtl n) (r : ℕ) : ℕ :=
  ((Finset.range cfg.macidNum).filter fun id => countsFor (m.h2cMsr id) r).card

def CountersMatch (cfg : Cfg n) (m : MacidCtl n) : Prop :=
  ∀ r < h2cMsrRoleMax, (m.opNum r).toNat = roleCount cfg m r

/-- A call of `rtw_macid_ctl_set_h2c_msr`. -/
structure MsrCall where
  id : ℕ
  msr : BitVec 8
  deriving DecidableEq

def msrStep (cfg : Cfg n) (m : MacidCtl n) (c : MsrCall) : MacidCtl n :=
  (rtwMacidCtlSetH2cMsr cfg m c.id c.msr).1

/-- The call does not change the role of an entry whose OPMODE stays set, unless neither role
has a counter. -/
def KeepsRole (m : MacidCtl n) (c : MsrCall) : Prop :=
  msrOpmode (m.h2cMsr c.id) = true → msrOpmode c.msr = true →
    msrRole (m.h2cMsr c.id) = msrRole c.msr ∨
      h2cMsrRoleMax ≤ msrRole (m.h2cMsr c.id) ∧ h2cMsrRoleMax ≤ msrRole c.msr

instance (m : MacidCtl n) (c : MsrCall) : Decidable (KeepsRole m c) :=
  inferInstanceAs (Decidable (_ → _ → _))

section Step
variable {cfg : Cfg n} {m : MacidCtl n} {c : MsrCall}

theorem macidNum_le_128 (cfg : Cfg n) : cfg.macidNum ≤ 128 :=
  cfg.macidNum_le.trans cfg.macidLimit_le

theorem roleCount_le (cfg : Cfg n) (m : MacidCtl n) (r : ℕ) : roleCount cfg m r ≤ 128 := by
  refine (Finset.card_filter_le _ _).trans ?_
  rw [Finset.card_range]
  exact macidNum_le_128 cfg

theorem msrStep_h2cMsr (hid : c.id < cfg.macidNum) :
    (msrStep cfg m c).h2cMsr = Function.update m.h2cMsr c.id c.msr := by
  have hn : ¬ cfg.macidNum ≤ c.id := by omega
  simp only [msrStep, rtwMacidCtlSetH2cMsr, hn, if_false, opNumChange]
  split_ifs <;> rfl

/-- What one call adds to a counter. -/
theorem msrStep_opNum (hid : c.id < cfg.macidNum) {r : ℕ} (hr : r < h2cMsrRoleMax) :
    (msrStep cfg m c).opNum r =
      if msrOpmode (m.h2cMsr c.id) = true ∧ msrOpmode c.msr = false ∧
          msrRole (m.h2cMsr c.id) = r then m.opNum r - 1
      else if msrOpmode (m.h2cMsr c.id) = false ∧ msrOpmode c.msr = true ∧
          msrRole c.msr = r then m.opNum r + 1
      else m.opNum r := by
  have hn : ¬ cfg.macidNum ≤ c.id := by omega
  simp only [msrStep, rtwMacidCtlSetH2cMsr, hn, if_false, opNumChange]
  cases ho : msrOpmode (m.h2cMsr c.id) <;> cases hw : msrOpmode c.msr
  · simp
  · by_cases he : msrRole c.msr = r
    · simp [he, hr]
    · by_cases hmax : msrRole c.msr < h2cMsrRoleMax
      · simp [he, hmax, Function.update_of_ne (Ne.symm he)]
      · simp [he, hmax]
  · by_cases he : msrRole (m.h2cMsr c.id) = r
    · simp [he, hr, sub_eq_add_neg]
    · by_cases hmax : msrRole (m.h2cMsr c.id) < h2cMsrRoleMax
      · simp [he, hmax, Function.update_of_ne (Ne.symm he)]
      · simp [he, hmax]
  · simp

/-- The entries other than the one written, that count for `r`. -/
def othersCount (cfg : Cfg n) (m : MacidCtl n) (id r : ℕ) : ℕ :=
  (((Finset.range cfg.macidNum).erase id).filter fun i => countsFor (m.h2cMsr i) r).card

theorem roleCount_eq_others (hid : c.id < cfg.macidNum) (r : ℕ) :
    roleCount cfg m r = othersCount cfg m c.id r + if countsFor (m.h2cMsr c.id) r then 1 else 0 := by
  have hmem : c.id ∈ Finset.range cfg.macidNum := Finset.mem_range.mpr hid
  have hnot : c.id ∉ ((Finset.range cfg.macidNum).erase c.id).filter
      fun i => countsFor (m.h2cMsr i) r := by simp
  rw [roleCount, ← Finset.insert_erase hmem, Finset.filter_insert]
  split_ifs
  · rw [Finset.card_insert_of_notMem hnot]
    rfl
  · rfl

theorem othersCount_msrStep (hid : c.id < cfg.macidNum) (r : ℕ) :
    othersCount cfg (msrStep cfg m c) c.id r = othersCount cfg m c.id r := by
  unfold othersCount
  rw [msrStep_h2cMsr hid]
  congr 1
  refine Finset.filter_congr ?_
  intro i hi
  rw [Function.update_of_ne (Finset.ne_of_mem_erase hi)]

/-- From matching counters, one counter still matches after the call exactly if the entry does
not move into or out of its role with OPMODE set on both sides. -/
theorem counter_step (h : CountersMatch cfg m) (hid : c.id < cfg.macidNum) {r : ℕ}
    (hr : r < h2cMsrRoleMax) :
    ((msrStep cfg m c).opNum r).toNat = roleCount cfg (msrStep cfg m c) r ↔
      (msrOpmode (m.h2cMsr c.id) = true → msrOpmode c.msr = true →
        (msrRole (m.h2cMsr c.id) = r ↔ msrRole c.msr = r)) := by
  have hold := h r hr
  have hle := roleCount_le cfg m r
  rw [← hold] at hle
  rw [roleCount_eq_others hid, othersCount_msrStep hid, msrStep_h2cMsr hid, msrStep_opNum hid hr,
    Function.update_self]
  rw [roleCount_eq_others hid] at hold
  unfold countsFor at *
  rcases Bool.eq_false_or_eq_true (msrOpmode (m.h2cMsr c.id)) with ho | ho <;>
    rcases Bool.eq_false_or_eq_true (msrOpmode c.msr) with hw | hw
  · by_cases h1 : msrRole (m.h2cMsr c.id) = r <;> by_cases h2 : msrRole c.msr = r <;>
      simp [ho, hw, h1, h2] at hold ⊢ <;> omega
  · by_cases h1 : msrRole (m.h2cMsr c.id) = r
    · simp only [ho, h1, decide_true, Bool.and_self, if_true] at hold
      simp [ho, hw, h1, hold]
      omega
    · simpa [ho, hw, h1] using hold
  · by_cases h2 : msrRole c.msr = r
    · simp only [ho, Bool.false_and, Bool.false_eq_true, if_false] at hold
      simp [ho, hw, h2, hold]
      omega
    · simpa [ho, hw, h2] using hold
  · simpa [ho, hw] using hold

theorem countersMatch_step_iff (h : CountersMatch cfg m) (hid : c.id < cfg.macidNum) :
    CountersMatch cfg (msrStep cfg m c) ↔ KeepsRole m c := by
  constructor
  · intro h' ho hw
    by_contra hc
    obtain ⟨hne, hmax⟩ := not_or.mp hc
    rcases Nat.lt_or_ge (msrRole (m.h2cMsr c.id)) h2cMsrRoleMax with hlt | hge
    · have := (counter_step h hid hlt).mp (h' _ hlt) ho hw
      exact hne (this.mp rfl).symm
    · have hlt : msrRole c.msr < h2cMsrRoleMax := by
        by_contra hge'
        exact hmax ⟨hge, by omega⟩
      have := (counter_step h hid hlt).mp (h' _ hlt) ho hw
      exact hne (this.mpr rfl)
  · intro hk r hr
    refine (counter_step h hid hr).mpr ?_
    intro ho hw
    rcases hk ho hw with heq | ⟨h1, h2⟩
    · rw [heq]
    · constructor
      · intro hold
        omega
      · intro hnew
        omega

end Step

theorem countersMatch_zero (cfg : Cfg n) {m : MacidCtl n} (hmsr : ∀ id, m.h2cMsr id = 0)
    (hop : ∀ r, m.opNum r = 0) : CountersMatch cfg m := by
  intro r _
  simp [hop, roleCount, countsFor, hmsr, msrOpmode]

/-- The counters are right in every state of a history exactly if no call in it changes the
role of an entry whose OPMODE stays set. -/
theorem role_counters_iff (cfg : Cfg n) (m : MacidCtl n) (hmsr : ∀ id, m.h2cMsr id = 0)
    (hop : ∀ r, m.opNum r = 0) (calls : List MsrCall)
    (hid : ∀ c ∈ calls, c.id < cfg.macidNum) :
    (∀ k, CountersMatch cfg (run (msrStep cfg) m (calls.take k))) ↔
      Along (msrStep cfg) KeepsRole m calls := by
  exact forall_take_iff_along (fun _ c hc h => countersMatch_step_iff h (hid c hc))
    (countersMatch_zero cfg hmsr hop)

/-- A macid that connects as a station and is then reported as AP without disconnecting is
still counted as a station. -/
theorem role_change_breaks_counters :
    ¬ ∀ calls : List MsrCall, (∀ c ∈ calls, c.id < (cfg8821c 0).macidNum) →
      ∀ k, CountersMatch (cfg8821c 0)
        (run (msrStep (cfg8821c 0)) (rtwMacidCtlInit (cfg8821c 0)) (calls.take k)) := by
  intro h
  have h2 := h [⟨0, 0x11⟩, ⟨0, 0x21⟩] (by decide) 2 2 (by decide)
  revert h2
  decide

theorem role_counters_iff_reconnect :
    CountersMatch (cfg8821c 0) (run (msrStep (cfg8821c 0)) (rtwMacidCtlInit (cfg8821c 0))
      ([⟨0, 0x11⟩, ⟨0, 0x10⟩, ⟨0, 0x21⟩].take 3)) :=
  (role_counters_iff (cfg8821c 0) _ (fun _ => rfl) (fun _ => rfl) _ (by decide)).mpr (by
    refine ⟨?_, ?_, ?_, trivial⟩ <;> decide) 3

end Rtl8821cu.Dvobj
