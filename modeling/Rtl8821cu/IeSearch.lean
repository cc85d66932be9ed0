import Rtl8821cu.LibReads
import Rtl8821cu.LibWalk
import Rtl8821cu.AbsorbSsid

/-! The bytes that the searches for an element look at (`core/rtw_ieee80211.c`). -/
namespace Rtl8821cu.IeSearch
open Store Reads Walk AbsorbSsid
open Ies (wlanEidVendorSpecific)

/-- An element that was found: its place, the length written for the caller, the bytes copied. -/
structure Found where
  place : ℕ
  len : ℕ
  copy : List (BitVec 8)

/-- A search for an element. -/
abbrev Search := Reading (BitVec 8) (Option Found)

/-- The loop of `rtw_get_ie`. -/
def getIeLoop (pbuf : ℕ) (index : BitVec 8) (limit i : ℕ) : Search := do
  let id ← cell (pbuf + i)
  let tmp ← cell (pbuf + i + 1)
  if id = index then pure (some ⟨pbuf + i, tmp.toNat, []⟩)
  else if limit ≤ i + (tmp.toNat + 2) then pure none
  else getIeLoop pbuf index limit (i + (tmp.toNat + 2))
termination_by limit - i

def rtwGetIe (pbuf : ℕ) (index : BitVec 8) (limit : ℤ) : Search :=
  if limit < 1 then pure none else getIeLoop pbuf index limit.toNat 0

/-- The copy of the element at `p`, when the caller gives a buffer. -/
def copyIe (p : ℕ) (ie : Bool) : Reading (BitVec 8) (List (BitVec 8)) :=
  if ie then do
    let len ← cell (p + 1)
    cells p (len.toNat + 2)
  else pure []

/-- The length of the element at `p`, when the caller asks for it. -/
def copyIelen (p : ℕ) (ielen : Bool) : Reading (BitVec 8) ℕ :=
  if ielen then do
    let len ← cell (p + 1)
    pure (len.toNat + 2)
  else pure 0

/-- What a search gives out of the element it finds at `p`. -/
def report (p : ℕ) (ie ielen : Bool) : Search := do
  let copy ← copyIe p ie
  let len ← copyIelen p ielen
  pure (some ⟨p, len, copy⟩)

/-- `_rtw_memcmp` of the bytes from `p` on with `oui`; the comparison reads as many bytes as
`oui` has. -/
def rtwMemcmp (p : ℕ) (oui : List (BitVec 8)) : Reading (BitVec 8) Bool := do
  let l ← cells p oui.length
  pure (l == oui)

/-- The element at `p`, whose id was read, is one of those that are looked for; without `oui`
every element of the id will do. -/
def ieMatch (p : ℕ) (id eid : BitVec 8) (oui : Option (List (BitVec 8))) :
    Reading (BitVec 8) Bool :=
  if id = eid then
    match oui with
    | none => pure true
    | some oui => rtwMemcmp (p + 2) oui
  else pure false

/-- The loop of `rtw_get_ie_ex`. -/
def getIeExLoop (inIe inLen : ℕ) (eid : BitVec 8) (oui : Option (List (BitVec 8)))
    (ie ielen : Bool) (cnt : ℕ) : Search :=
  if cnt < inLen then do
    let id ← cell (inIe + cnt)
    let hit ← ieMatch (inIe + cnt) id eid oui
    if hit then report (inIe + cnt) ie ielen
    else do
      let len ← cell (inIe + cnt + 1)
      getIeExLoop inIe inLen eid oui ie ielen (cnt + (len.toNat + 2))
  else pure none
termination_by inLen - cnt

def rtwGetIeEx (inIe inLen : ℕ) (eid : BitVec 8) (oui : Option (List (BitVec 8)))
    (ie ielen : Bool) : Search :=
  getIeExLoop inIe inLen eid oui ie ielen 0

/-- The loop that `rtw_get_wps_ie` and `rtw_get_p2p_ie` share. -/
def getVendorIeLoop (oui : List (BitVec 8)) (inIe inLen : ℕ) (ie ielen : Bool) (cnt : ℕ) :
    Search :=
  if cnt + 1 + 4 < inLen then do
    let eid ← cell (inIe + cnt)
    if maxIeSz ≤ cnt + 1 + 4 then pure none
    else do
      let hit ← ieMatch (inIe + cnt) eid wlanEidVendorSpecific (some oui)
      if hit then report (inIe + cnt) ie ielen
      else do
        let len ← cell (inIe + cnt + 1)
        getVendorIeLoop oui inIe inLen ie ielen (cnt + (len.toNat + 2))
  else pure none
termination_by inLen - cnt

def wpsOui : List (BitVec 8) := [0x00, 0x50, 0xf2, 0x04]

def p2pOui : List (BitVec 8) := [0x50, 0x6f, 0x9a, 0x09]

def rtwGetWpsIe (inIe inLen : ℕ) (wpsIe wpsIelen : Bool) : Search :=
  getVendorIeLoop wpsOui inIe inLen wpsIe wpsIelen 0

/-- `rtw_get_p2p_ie`, with a length that may be negative. -/
def rtwGetP2pIe (inIe : ℕ) (inLen : ℤ) (p2pIe p2pIelen : Bool) : Search :=
  if inLen ≤ 0 then pure none else getVendorIeLoop p2pOui inIe inLen.toNat p2pIe p2pIelen 0

/-- No byte at or beyond the limit is read, and an element returned lies below it. -/
structure Confined (mem : ℕ → BitVec 8) (a limit : ℕ) (x : Search) : Prop where
  inside : x.Inside mem a limit
  found : ∀ r ∈ x.value mem, a ≤ r.place ∧ r.place + 2 + (mem (r.place + 1)).toNat ≤ a + limit

/-- Where the element at `i` ends. -/
def ieEnd (mem : ℕ → BitVec 8) (a i : ℕ) : ℕ := i + ((mem (a + i + 1)).toNat + 2)

/-- The element at `i` is one of those that are looked for. -/
def Hit (mem : ℕ → BitVec 8) (a : ℕ) (eid : BitVec 8) (oui : Option (List (BitVec 8)))
    (i : ℕ) : Prop :=
  mem (a + i) = eid ∧ ∀ u ∈ oui, load mem (a + i + 2) u.length = u

instance (mem : ℕ → BitVec 8) (a : ℕ) (eid : BitVec 8) (oui : Option (List (BitVec 8))) (i : ℕ) :
    Decidable (Hit mem a eid oui i) :=
  inferInstanceAs (Decidable (_ ∧ _))

/-- From an element that is not looked for to the next one, when that starts below `bound`. -/
def nextIe (mem : ℕ → BitVec 8) (a bound : ℕ) (eid : BitVec 8) (oui : Option (List (BitVec 8)))
    (i : ℕ) : Option ℕ :=
  if ¬Hit mem a eid oui i ∧ ieEnd mem a i < bound then some (ieEnd mem a i) else none

/-- A search below `bound` comes to the element at `i`. -/
def Visits (mem : ℕ → BitVec 8) (a bound : ℕ) (eid : BitVec 8) (oui : Option (List (BitVec 8)))
    (i : ℕ) : Prop :=
  0 < bound ∧ Reaches (nextIe mem a bound eid oui) 0 i

section Rules

variable {mem : ℕ → BitVec 8} {a n i bound : ℕ} {eid : BitVec 8}
  {oui : Option (List (BitVec 8))} {P : ℕ → Prop}

theorem confined_none : Confined mem a n (pure none) :=
  ⟨inside_pure _, fun r hr => by cases hr⟩

theorem confined_bind {α : Type} {x : Reading (BitVec 8) α} {f : α → Search} :
    Confined mem a n (x >>= f) ↔ x.Inside mem a n ∧ Confined mem a n (f (x.value mem)) := by
  constructor
  · rintro ⟨hin, hfound⟩
    rw [inside_bind] at hin
    rw [value_bind] at hfound
    exact ⟨hin.1, hin.2, hfound⟩
  · rintro ⟨hx, hf⟩
    refine ⟨inside_bind.mpr ⟨hx, hf.inside⟩, ?_⟩
    rw [value_bind]
    exact hf.found

theorem confined_cell {p : ℕ} {f : BitVec 8 → Search} :
    Confined mem a n (cell p >>= f) ↔ (a ≤ p ∧ p < a + n) ∧ Confined mem a n (f (mem p)) := by
  rw [confined_bind, inside_cell, value_cell]

theorem confined_some {r : Found} : Confined mem a n (pure (some r)) ↔
    a ≤ r.place ∧ r.place + 2 + (mem (r.place + 1)).toNat ≤ a + n := by
  constructor
  · intro h
    exact h.found r rfl
  · intro h
    refine ⟨inside_pure _, ?_⟩
    rintro _ ⟨⟩
    exact h

/-- What is given out is confined when the element is. -/
theorem confined_report {ie ielen : Bool} :
    Confined mem a n (report (a + i) ie ielen) ↔ ieEnd mem a i ≤ n := by
  rw [report, confined_bind, confined_bind, confined_some, ieEnd]
  dsimp only
  constructor
  · rintro ⟨-, -, -, h⟩
    omega
  · intro h
    refine ⟨?_, ?_, by omega, by omega⟩
    · cases ie
      · exact inside_pure []
      · simp only [copyIe, if_true, inside_bind, inside_cell, value_cell, inside_cells]
        omega
    · cases ielen
      · exact inside_pure 0
      · simp only [copyIelen, if_true, inside_bind, inside_cell, inside_pure, and_true]
        omega

theorem forall_reaches_of_hit (h : Hit mem a eid oui i) :
    (∀ j, Reaches (nextIe mem a bound eid oui) i j → P j) ↔ P i :=
  forall_reaches_of_none (if_neg fun hn => hn.1 h)

theorem forall_reaches_of_ge (h : bound ≤ ieEnd mem a i) :
    (∀ j, Reaches (nextIe mem a bound eid oui) i j → P j) ↔ P i :=
  forall_reaches_of_none (if_neg fun hn => absurd hn.2 (by omega))

theorem forall_reaches_of_lt (hn : ¬Hit mem a eid oui i) (h : ieEnd mem a i < bound) :
    (∀ j, Reaches (nextIe mem a bound eid oui) i j → P j) ↔
      P i ∧ ∀ j, Reaches (nextIe mem a bound eid oui) (ieEnd mem a i) j → P j :=
  forall_reaches_of_some (if_pos ⟨hn, h⟩)

end Rules

section Loops

variable {mem : ℕ → BitVec 8} {a limit inLen i : ℕ} {index eid : BitVec 8} {ie ielen : Bool}

theorem getIeLoop_confined_iff (hi : i < limit) :
    Confined mem a limit (getIeLoop a index limit i) ↔
      ∀ j, Reaches (nextIe mem a limit index none) i j →
        j + 2 ≤ limit ∧ (mem (a + j) = index → ieEnd mem a j ≤ limit) := by
  fun_induction getIeLoop a index limit i with
  | case1 i ih =>
    rw [confined_cell, confined_cell]
    by_cases hid : mem (a + i) = index
    · rw [forall_reaches_of_hit ⟨hid, by simp⟩, if_pos hid, confined_some, ieEnd]
      dsimp only
      constructor
      · rintro ⟨-, hlen, -, hbody⟩
        exact ⟨by omega, fun _ => by omega⟩
      · rintro ⟨hlen, hbody⟩
        have := hbody hid
        omega
    · rw [if_neg hid]
      have hnot : ¬Hit mem a index none i := fun h => hid h.1
      by_cases hend : limit ≤ ieEnd mem a i
      · rw [forall_reaches_of_ge hend, if_pos (by rwa [ieEnd] at hend)]
        constructor
        · rintro ⟨-, hlen, -⟩
          exact ⟨by omega, fun h => absurd h hid⟩
        · rintro ⟨hlen, -⟩
          exact ⟨by omega, by omega, confined_none⟩
      · rw [forall_reaches_of_lt hnot (by omega), if_neg (by rwa [ieEnd] at hend)]
        rw [ih (mem (a + i + 1)) (by rwa [ieEnd] at hend) (by rw [ieEnd] at hend; omega)]
        constructor
        · rintro ⟨-, hlen, hrest⟩
          exact ⟨⟨by omega, fun h => absurd h hid⟩, hrest⟩
        · rintro ⟨⟨hlen, -⟩, hrest⟩
          exact ⟨by omega, by omega, hrest⟩

theorem ieMatch_value {oui : Option (List (BitVec 8))} :
    (ieMatch (a + i) (mem (a + i)) eid oui).value mem = true ↔ Hit mem a eid oui i := by
  by_cases hid : mem (a + i) = eid
  · cases oui <;> simp [ieMatch, Hit, hid, rtwMemcmp]
  · simp [ieMatch, Hit, hid]

theorem ieMatch_inside {oui : Option (List (BitVec 8))} (h : i + 2 ≤ limit) :
    (ieMatch (a + i) (mem (a + i)) eid oui).Inside mem a limit ↔
      ∀ u ∈ oui, mem (a + i) = eid → i + 2 + u.length ≤ limit := by
  by_cases hid : mem (a + i) = eid
  · cases oui with
    | none => simp [ieMatch, hid]
    | some u =>
      simp only [ieMatch, hid, if_true, rtwMemcmp, inside_bind, inside_cells, inside_pure, and_true,
        Option.mem_some_iff, forall_eq', forall_const]
      omega
  · simp [ieMatch, hid]

theorem getIeExLoop_confined_iff {oui : Option (List (BitVec 8))} (hi : i < inLen) :
    Confined mem a inLen (getIeExLoop a inLen eid oui ie ielen i) ↔
      ∀ j, Reaches (nextIe mem a inLen eid oui) i j →
        j + 2 ≤ inLen ∧ (∀ u ∈ oui, mem (a + j) = eid → j + 2 + u.length ≤ inLen) ∧
          (Hit mem a eid oui j → ieEnd mem a j ≤ inLen) := by
  fun_induction getIeExLoop a inLen eid oui ie ielen i with
  | case1 i hcnt ih =>
    rw [confined_cell, confined_bind]
    by_cases hhit : Hit mem a eid oui i
    · rw [forall_reaches_of_hit hhit, if_pos (ieMatch_value.mpr hhit), confined_report]
      constructor
      · rintro ⟨-, hin, hend⟩
        have hlen : i + 2 ≤ inLen := by rw [ieEnd] at hend; omega
        exact ⟨hlen, (ieMatch_inside hlen).mp hin, fun _ => hend⟩
      · rintro ⟨hlen, houi, hend⟩
        exact ⟨by omega, (ieMatch_inside hlen).mpr houi, hend hhit⟩
    · rw [if_neg fun h => hhit (ieMatch_value.mp h), confined_cell]
      by_cases hend : inLen ≤ ieEnd mem a i
      · rw [forall_reaches_of_ge hend]
        constructor
        · rintro ⟨-, hin, hcell, -⟩
          have hlen : i + 2 ≤ inLen := by omega
          exact ⟨hlen, (ieMatch_inside hlen).mp hin, fun h => absurd h hhit⟩
        · rintro ⟨hlen, houi, -⟩
          refine ⟨by omega, (ieMatch_inside hlen).mpr houi, by omega, ?_⟩
          rw [getIeExLoop, if_neg (by rw [ieEnd] at hend; omega)]
          exact confined_none
      · rw [forall_reaches_of_lt hhit (by omega),
          ih (mem (a + i + 1)) (by rw [ieEnd] at hend; omega)]
        constructor
        · rintro ⟨-, hin, hcell, hrest⟩
          have hlen : i + 2 ≤ inLen := by omega
          exact ⟨⟨hlen, (ieMatch_inside hlen).mp hin, fun h => absurd h hhit⟩, hrest⟩
        · rintro ⟨⟨hlen, houi, -⟩, hrest⟩
          exact ⟨by omega, (ieMatch_inside hlen).mpr houi, by omega, hrest⟩
  | case2 i hcnt => exact absurd hi hcnt

section Vendor

variable {oui : List (BitVec 8)} {bound : ℕ}

theorem getVendorIeLoop_of_ge
    (hbound : ∀ j, j < bound ↔ j + 1 + 4 < inLen ∧ j + 1 + 4 < maxIeSz) (hi : bound ≤ i) :
    Confined mem a inLen (getVendorIeLoop oui a inLen ie ielen i) := by
  have hout : ¬(i + 1 + 4 < inLen ∧ i + 1 + 4 < maxIeSz) := by
    rw [← hbound i]
    omega
  rw [getVendorIeLoop]
  by_cases hcnt : i + 1 + 4 < inLen
  · rw [if_pos hcnt, confined_cell, if_pos (by omega)]
    exact ⟨by omega, confined_none⟩
  · rw [if_neg hcnt]
    exact confined_none

theorem getVendorIeLoop_confined_iff (houi : oui.length = 4)
    (hbound : ∀ j, j < bound ↔ j + 1 + 4 < inLen ∧ j + 1 + 4 < maxIeSz) (hi : i < bound) :
    Confined mem a inLen (getVendorIeLoop oui a inLen ie ielen i) ↔
      ∀ j, Reaches (nextIe mem a bound wlanEidVendorSpecific (some oui)) i j →
        Hit mem a wlanEidVendorSpecific (some oui) j → ieEnd mem a j ≤ inLen := by
  fun_induction getVendorIeLoop oui a inLen ie ielen i with
  | case1 i hcnt ih =>
    have hsz := ((hbound i).mp hi).2
    have hlook : (ieMatch (a + i) (mem (a + i)) wlanEidVendorSpecific (some oui)).Inside
        mem a inLen := by
      rw [ieMatch_inside (by omega)]
      rintro u ⟨⟩ -
      omega
    rw [confined_cell, if_neg (by omega), confined_bind]
    by_cases hhit : Hit mem a wlanEidVendorSpecific (some oui) i
    · rw [forall_reaches_of_hit hhit, if_pos (ieMatch_value.mpr hhit), confined_report]
      constructor
      · rintro ⟨-, -, hend⟩ -
        exact hend
      · intro hend
        exact ⟨by omega, hlook, hend hhit⟩
    · rw [if_neg fun h => hhit (ieMatch_value.mp h), confined_cell]
      by_cases hend : bound ≤ ieEnd mem a i
      · rw [forall_reaches_of_ge hend]
        constructor
        · intro _ h
          exact absurd h hhit
        · intro _
          exact ⟨by omega, hlook, by omega, getVendorIeLoop_of_ge hbound hend⟩
      · rw [forall_reaches_of_lt hhit (by omega),
          ih (mem (a + i + 1)) (by rw [ieEnd] at hend; omega)]
        constructor
        · rintro ⟨-, -, -, hrest⟩
          exact ⟨fun h => absurd h hhit, hrest⟩
        · rintro ⟨-, hrest⟩
          exact ⟨by omega, hlook, by omega, hrest⟩
  | case2 i hcnt => exact absurd ((hbound i).mp hi).1 hcnt

/-- Up to which place an element is looked at: its id, length and OUI lie below the limit and below
`MAX_IE_SZ`. -/
def vendorBound (inLen : ℕ) : ℕ := min inLen maxIeSz - 5

theorem lt_vendorBound (j : ℕ) :
    j < vendorBound inLen ↔ j + 1 + 4 < inLen ∧ j + 1 + 4 < maxIeSz := by
  rw [vendorBound]
  omega

theorem getVendorIe_confined_iff (houi : oui.length = 4) :
    Confined mem a inLen (getVendorIeLoop oui a inLen ie ielen 0) ↔
      ∀ j, Visits mem a (vendorBound inLen) wlanEidVendorSpecific (some oui) j →
        Hit mem a wlanEidVendorSpecific (some oui) j → ieEnd mem a j ≤ inLen := by
  rcases Nat.eq_zero_or_pos (vendorBound inLen) with hzero | hpos
  · constructor
    · rintro - j ⟨hj, -⟩
      omega
    · intro _
      exact getVendorIeLoop_of_ge lt_vendorBound (by omega)
  · rw [getVendorIeLoop_confined_iff houi lt_vendorBound hpos]
    simp [Visits, hpos]

end Vendor

end Loops

variable {mem : ℕ → BitVec 8} {a inLen : ℕ} {eid : BitVec 8} {ie ielen : Bool}

theorem rtwGetIe_confined_iff (limit : ℤ) :
    Confined mem a limit.toNat (rtwGetIe a eid limit) ↔
      ∀ j, Visits mem a limit.toNat eid none j →
        (j : ℤ) + 2 ≤ limit ∧ (mem (a + j) = eid → ieEnd mem a j ≤ limit) := by
  rw [rtwGetIe]
  split_ifs with hlimit
  · constructor
    · rintro - j ⟨hj, -⟩
      omega
    · intro _
      exact confined_none
  · rw [getIeLoop_confined_iff (by omega)]
    have hpos : 0 < limit.toNat := by omega
    simp only [Visits, hpos, true_and]
    refine forall_congr' fun j => imp_congr_right fun _ => and_congr (by omega) ?_
    exact imp_congr_right fun _ => by omega

theorem rtwGetIeEx_confined_iff {oui : Option (List (BitVec 8))} :
    Confined mem a inLen (rtwGetIeEx a inLen eid oui ie ielen) ↔
      ∀ j, Visits mem a inLen eid oui j →
        j + 2 ≤ inLen ∧ (∀ u ∈ oui, mem (a + j) = eid → j + 2 + u.length ≤ inLen) ∧
          (Hit mem a eid oui j → ieEnd mem a j ≤ inLen) := by
  rw [rtwGetIeEx]
  rcases Nat.eq_zero_or_pos inLen with rfl | hpos
  · rw [getIeExLoop, if_neg (by omega)]
    constructor
    · rintro - j ⟨hj, -⟩
      omega
    · intro _
      exact confined_none
  · rw [getIeExLoop_confined_iff hpos]
    simp [Visits, hpos]

theorem rtwGetP2pIe_confined_iff (inLen : ℤ) :
    Confined mem a inLen.toNat (rtwGetP2pIe a inLen ie ielen) ↔
      ∀ j, Visits mem a (vendorBound inLen.toNat) wlanEidVendorSpecific (some p2pOui) j →
        Hit mem a wlanEidVendorSpecific (some p2pOui) j → ieEnd mem a j ≤ inLen.toNat := by
  rw [rtwGetP2pIe]
  split_ifs with hlen
  · constructor
    · rintro - j ⟨hj, -⟩
      rw [vendorBound] at hj
      omega
    · intro _
      exact confined_none
  · exact getVendorIe_confined_iff rfl

/-- The search that reads byte by byte finds what `Ies.rtwGetIe` finds in a memory. -/
theorem rtwGetIe_value {limit : ℤ} : (rtwGetIe a eid limit).value mem =
    (Ies.rtwGetIe mem a eid limit.toNat).map fun r => ⟨r.1, r.2, []⟩ := by
  have hloop : ∀ i, (getIeLoop a eid limit.toNat i).value mem =
      (Ies.getIeLoop mem a eid limit.toNat i).map fun r => ⟨r.1, r.2, []⟩ := by
    intro i
    fun_induction Ies.getIeLoop mem a eid limit.toNat i with
    | case1 i p hp =>
      rw [getIeLoop, value_bind, value_bind, value_cell, value_cell, if_pos hp]
      rfl
    | case2 i p hp tmp hend =>
      rw [getIeLoop, value_bind, value_bind, value_cell, value_cell, if_neg hp, if_pos hend]
      rfl
    | case3 i p hp tmp hend ih =>
      rw [getIeLoop, value_bind, value_bind, value_cell, value_cell, if_neg hp, if_neg hend]
      exact ih
  rw [rtwGetIe, Ies.rtwGetIe]
  by_cases hlimit : limit < 1
  · rw [if_pos hlimit, if_pos (by omega)]
    rfl
  · rw [if_neg hlimit, if_neg (by omega), hloop]

/-- The searches stay below the limit exactly when every element they come to has its two header
bytes there, where they look at them, its compared bytes if it has the id, and all of its body if
it is looked for. -/
theorem searches_confined_iff (mem : ℕ → BitVec 8) (a inLen : ℕ) (limit len : ℤ)
    (index eid : BitVec 8) (oui : Option (List (BitVec 8))) (ie ielen : Bool) :
    (Confined mem a limit.toNat (rtwGetIe a index limit) ↔
      ∀ j, Visits mem a limit.toNat index none j →
        (j : ℤ) + 2 ≤ limit ∧ (mem (a + j) = index → ieEnd mem a j ≤ limit)) ∧
    (Confined mem a inLen (rtwGetIeEx a inLen eid oui ie ielen) ↔
      ∀ j, Visits mem a inLen eid oui j →
        j + 2 ≤ inLen ∧ (∀ u ∈ oui, mem (a + j) = eid → j + 2 + u.length ≤ inLen) ∧
          (Hit mem a eid oui j → ieEnd mem a j ≤ inLen)) ∧
    (Confined mem a inLen (rtwGetWpsIe a inLen ie ielen) ↔
      ∀ j, Visits mem a (vendorBound inLen) wlanEidVendorSpecific (some wpsOui) j →
        Hit mem a wlanEidVendorSpecific (some wpsOui) j → ieEnd mem a j ≤ inLen) ∧
    (Confined mem a len.toNat (rtwGetP2pIe a len ie ielen) ↔
      ∀ j, Visits mem a (vendorBound len.toNat) wlanEidVendorSpecific (some p2pOui) j →
        Hit mem a wlanEidVendorSpecific (some p2pOui) j → ieEnd mem a j ≤ len.toNat) :=
  ⟨rtwGetIe_confined_iff limit, rtwGetIeEx_confined_iff, getVendorIe_confined_iff rfl,
    rtwGetP2pIe_confined_iff len⟩

/-- An element of six bytes that tells of eighteen, with the OUI of WPS or of P2P. -/
def cutIe (oui : List (BitVec 8)) (i : ℕ) : BitVec 8 := (0xdd :: 0x10 :: oui).getD i 0

/-- Behind the limit of six bytes twelve more are taken for the body of the element. -/
theorem searches_not_confined :
    ¬Confined (cutIe wpsOui) 0 6 (rtwGetIe 0 0xdd 6) ∧
    ¬Confined (cutIe wpsOui) 0 6 (rtwGetIeEx 0 6 0xdd (some wpsOui) false true) ∧
    ¬Confined (cutIe wpsOui) 0 6 (rtwGetWpsIe 0 6 false true) ∧
    ¬Confined (cutIe p2pOui) 0 6 (rtwGetP2pIe 0 6 false true) := by
  have hwps : Hit (cutIe wpsOui) 0 0xdd (some wpsOui) 0 := by decide
  have hp2p : Hit (cutIe p2pOui) 0 0xdd (some p2pOui) 0 := by decide
  refine ⟨fun h => ?_, fun h => ?_, fun h => ?_, fun h => ?_⟩
  · have := ((rtwGetIe_confined_iff 6).mp h 0 ⟨by decide, .refl 0⟩).2 rfl
    exact absurd this (by decide)
  · exact absurd ((rtwGetIeEx_confined_iff.mp h 0 ⟨by decide, .refl 0⟩).2.2 hwps) (by decide)
  · exact absurd ((getVendorIe_confined_iff rfl).mp h 0 ⟨by decide, .refl 0⟩ hwps) (by decide)
  · exact absurd ((rtwGetP2pIe_confined_iff 6).mp h 0 ⟨by decide, .refl 0⟩ hp2p)
      (by decide)

end Rtl8821cu.IeSearch
