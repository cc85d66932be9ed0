import Mathlib

/-! The airtime link metric of a mesh neighbour (`core/mesh/rtw_mesh_hwmp.c`), in the 32-bit
arithmetic of the driver. -/
namespace Rtl8821cu.MeshAirtime

def rtwTestFrameLen : ℕ := 8192

def rtwMaxMetric : ℕ := 0xffffffff

def rtwArithShift : ℕ := 8

def rtwLinkFailThresh : ℕ := 95

def rtwMeshEwmaPrecision : ℕ := 20

/-- `rtw_ilog2(RTW_MESH_EWMA_WEIGHT_RCP)`. -/
def weightRcp : ℕ := 3

/-- `struct rtw_atlm_param`: `err_rate.internal` and `data_rate`. -/
structure Metrics where
  internal : ℕ
  dataRate : ℕ

/-- A value stored in a `u32`. -/
def u32 (n : ℕ) : ℕ := n % 2 ^ 32

def rtwEwmaErrRateRead (internal : ℕ) : ℕ := internal / 2 ^ rtwMeshEwmaPrecision

/-- `rtw_ewma_err_rate_add`, with an `unsigned long` of `bits` bits. -/
def rtwEwmaErrRateAdd (bits internal val : ℕ) : ℕ :=
  if internal = 0 then val * 2 ^ rtwMeshEwmaPrecision % 2 ^ bits
  else (internal * 2 ^ weightRcp % 2 ^ bits + 2 ^ bits - internal +
    val * 2 ^ rtwMeshEwmaPrecision) % 2 ^ bits / 2 ^ weightRcp

def failAvg (metrics : Metrics) : ℕ := u32 (rtwEwmaErrRateRead metrics.internal)

def txTime (plcp rate : ℕ) : ℕ :=
  u32 (plcp * 2 ^ rtwArithShift + u32 (10 * (rtwTestFrameLen * 2 ^ rtwArithShift)) / rate)

def estimatedRetx (failAvg : ℕ) : ℕ :=
  2 ^ (2 * rtwArithShift) / (2 ^ rtwArithShift - u32 (failAvg * 2 ^ rtwArithShift) / 100)

/-- `rtw_airtime_link_metric_get`. The product is one of two `u32`, before it is stored. -/
def rtwAirtimeLinkMetricGet (plcp : ℕ) (metrics : Metrics) : ℕ :=
  if rtwLinkFailThresh < failAvg metrics then rtwMaxMetric
  else if metrics.dataRate < 10 then rtwMaxMetric
  else
    let result := u32 (txTime plcp metrics.dataRate * estimatedRetx (failAvg metrics)) /
      2 ^ (2 * rtwArithShift)
    u32 (result * 100 / 2 ^ 10)

/-- The metric without the overflow of the product. -/
def airtime (plcp : ℕ) (metrics : Metrics) : ℕ :=
  txTime plcp metrics.dataRate * estimatedRetx (failAvg metrics) / 2 ^ 16 * 100 / 1024

/-- The metric of a link is exact, and no link with as few errors and as high a rate has a higher
one. -/
structure Sound (plcp : ℕ) (metrics : Metrics) : Prop where
  exact : rtwAirtimeLinkMetricGet plcp metrics = airtime plcp metrics
  mono : ∀ metrics', failAvg metrics' ≤ failAvg metrics → metrics.dataRate ≤ metrics'.dataRate →
    rtwAirtimeLinkMetricGet plcp metrics' ≤ rtwAirtimeLinkMetricGet plcp metrics

/-- The average of percentages is one, and nothing is lost of it. -/
theorem rtwEwmaErrRateAdd_le {bits internal val : ℕ} (hbits : 32 ≤ bits)
    (hinternal : internal ≤ 100 * 2 ^ rtwMeshEwmaPrecision) (hval : val ≤ 100) :
    rtwEwmaErrRateAdd bits internal val ≤ 100 * 2 ^ rtwMeshEwmaPrecision := by
  have hpow : 2 ^ 32 ≤ 2 ^ bits := Nat.pow_le_pow_right (by decide) hbits
  simp only [rtwMeshEwmaPrecision] at hinternal
  simp only [rtwEwmaErrRateAdd, rtwMeshEwmaPrecision, weightRcp]
  generalize 2 ^ bits = b at hpow
  split_ifs with h
  · exact (Nat.mod_le _ _).trans (by omega)
  · have hscaled : internal * 2 ^ 3 % b = internal * 2 ^ 3 := Nat.mod_eq_of_lt (by omega)
    have hsum : internal * 2 ^ 3 + b - internal + val * 2 ^ 20 =
        internal * 7 + val * 2 ^ 20 + b := by omega
    rw [hscaled, hsum, Nat.add_mod_right, Nat.mod_eq_of_lt (by omega)]
    omega

/-- The average error rate of a link stays a percentage, whatever its transmissions reported. -/
theorem failAvg_le {bits : ℕ} (hbits : 32 ≤ bits) {vals : List ℕ} (hvals : ∀ val ∈ vals, val ≤ 100)
    (dataRate : ℕ) : failAvg ⟨vals.foldl (rtwEwmaErrRateAdd bits) 0, dataRate⟩ ≤ 100 := by
  have hrun : ∀ internal ≤ 100 * 2 ^ rtwMeshEwmaPrecision,
      vals.foldl (rtwEwmaErrRateAdd bits) internal ≤ 100 * 2 ^ rtwMeshEwmaPrecision := by
    induction vals with
    | nil => exact fun internal h => h
    | cons val vals ih =>
      intro internal h
      rw [List.foldl_cons]
      exact ih (fun v hv => hvals v (List.mem_cons_of_mem _ hv)) _
        (rtwEwmaErrRateAdd_le hbits h (hvals val List.mem_cons_self))
  have havg := Nat.div_le_div_right (c := 2 ^ rtwMeshEwmaPrecision) (hrun 0 (Nat.zero_le _))
  rw [Nat.mul_div_cancel _ (by decide)] at havg
  exact (Nat.mod_le _ _).trans havg

section Metric

variable {plcp : ℕ} {metrics : Metrics}

theorem txTime_eq (hplcp : plcp ≤ 1023) (rate : ℕ) :
    txTime plcp rate = 256 * plcp + 20971520 / rate := by
  have hdiv := Nat.div_le_self 20971520 rate
  have hframe : u32 (10 * (rtwTestFrameLen * 2 ^ rtwArithShift)) = 20971520 := by decide
  rw [txTime, hframe, u32, rtwArithShift]
  generalize 20971520 / rate = x at hdiv
  omega

theorem estimatedRetx_eq {fail : ℕ} (hfail : fail ≤ rtwLinkFailThresh) :
    estimatedRetx fail = 65536 / (256 - 256 * fail / 100) := by
  simp only [rtwLinkFailThresh] at hfail
  simp only [estimatedRetx, rtwArithShift, u32]
  rw [Nat.mod_eq_of_lt (by omega), Nat.mul_comm fail]
  rfl

/-- A link with fewer errors and a higher rate has the smaller product. -/
theorem product_mono {fail fail' rate rate' : ℕ} (hplcp : plcp ≤ 1023)
    (hfail : fail ≤ rtwLinkFailThresh) (hrate : 0 < rate) (hf : fail' ≤ fail) (hr : rate ≤ rate') :
    txTime plcp rate' * estimatedRetx fail' ≤ txTime plcp rate * estimatedRetx fail := by
  have hpos : 0 < 256 - 256 * fail / 100 := by
    simp only [rtwLinkFailThresh] at hfail
    omega
  rw [txTime_eq hplcp, txTime_eq hplcp, estimatedRetx_eq hfail, estimatedRetx_eq (hf.trans hfail)]
  apply Nat.mul_le_mul
  · exact Nat.add_le_add_left (Nat.div_le_div_left hr hrate) _
  · exact Nat.div_le_div_left (Nat.sub_le_sub_left (Nat.div_le_div_right
      (Nat.mul_le_mul_left _ hf)) _) hpos

theorem rtwAirtimeLinkMetricGet_eq (hfail : failAvg metrics ≤ rtwLinkFailThresh)
    (hrate : 10 ≤ metrics.dataRate) :
    rtwAirtimeLinkMetricGet plcp metrics =
      u32 (u32 (txTime plcp metrics.dataRate * estimatedRetx (failAvg metrics)) / 2 ^ 16 * 100 /
        2 ^ 10) := by
  rw [rtwAirtimeLinkMetricGet, if_neg (not_lt.mpr hfail), if_neg (not_lt.mpr hrate)]
  rfl

/-- What the overflow of a product does to the metric. -/
theorem exact_iff (p : ℕ) :
    u32 (u32 p / 2 ^ 16 * 100 / 2 ^ 10) = p / 2 ^ 16 * 100 / 1024 ↔ p < 2 ^ 32 := by
  simp only [u32]
  rcases lt_or_ge p (2 ^ 32) with h | h
  · rw [Nat.mod_eq_of_lt h]
    omega
  · have hsmall : p % 2 ^ 32 / 2 ^ 16 < 2 ^ 16 := by omega
    have hlarge : 2 ^ 16 ≤ p / 2 ^ 16 := by omega
    generalize p % 2 ^ 32 / 2 ^ 16 = x at hsmall
    generalize p / 2 ^ 16 = y at hlarge
    rw [Nat.mod_eq_of_lt (by omega)]
    omega

/-- The metric is sound for exactly the links whose product fits 32 bits. -/
theorem airtime_sound_iff (plcp : ℕ) (metrics : Metrics) (hplcp : plcp ≤ 1023)
    (hfail : failAvg metrics ≤ 95) (hrate : 10 ≤ metrics.dataRate) :
    Sound plcp metrics ↔ (256 * plcp + 20971520 / metrics.dataRate) *
      (65536 / (256 - 256 * failAvg metrics / 100)) < 2 ^ 32 := by
  have hexact : rtwAirtimeLinkMetricGet plcp metrics = airtime plcp metrics ↔
      txTime plcp metrics.dataRate * estimatedRetx (failAvg metrics) < 2 ^ 32 := by
    rw [rtwAirtimeLinkMetricGet_eq hfail hrate]
    exact exact_iff _
  rw [txTime_eq hplcp, estimatedRetx_eq hfail] at hexact
  rw [← hexact]
  refine ⟨Sound.exact, fun h ↦ ⟨h, fun metrics' hf hr ↦ ?_⟩⟩
  have hmono := product_mono hplcp hfail (by omega) hf hr
  have hlt := hexact.mp h
  rw [← txTime_eq hplcp, ← estimatedRetx_eq hfail] at hlt
  have hexact' : rtwAirtimeLinkMetricGet plcp metrics' = airtime plcp metrics' := by
    rw [rtwAirtimeLinkMetricGet_eq (hf.trans hfail) (hrate.trans hr)]
    exact (exact_iff _).mpr (hmono.trans_lt hlt)
  rw [h, hexact', airtime, airtime]
  gcongr

/-- A link with half of its frames lost at 6 Mbit/s. -/
def halfLost : Metrics := ⟨50 * 2 ^ 20, 60⟩

theorem halfLost_sound : Sound 20 halfLost :=
  (airtime_sound_iff 20 halfLost (by decide) (by decide) (by decide)).mpr (by decide)

/-- A link at 1 Mbit/s with 95 of 100 frames lost. -/
def worst : Metrics := ⟨95 * 2 ^ 20, 10⟩

/-- With the PLCP constant 24 it gets 2999 for 15799. -/
theorem worst_not_sound : ¬Sound 24 worst := by
  intro h
  exact absurd h.exact (by decide)

example : rtwAirtimeLinkMetricGet 24 worst < rtwAirtimeLinkMetricGet 24 ⟨80 * 2 ^ 20, 10⟩ := by
  decide

end Metric

end Rtl8821cu.MeshAirtime
