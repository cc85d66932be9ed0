import Rtl8821cu.LibLoop
import Rtl8821cu.IeSearch

/-! The searches for an attribute in a WPS, P2P or WFD element (`core/rtw_ieee80211.c`). -/
namespace Rtl8821cu.AttrSearch
open Store Reads Walk Loop IeSearch
open Ies (wlanEidVendorSpecific)

/-- An attribute that was found: its place, its length, the bytes copied. -/
structure Attr where
  place : ℕ
  len : ℕ
  copy : List (BitVec 8)

def rtwGetLe16 (b0 b1 : BitVec 8) : ℕ := b0.toNat + 256 * b1.toNat

def rtwGetBe16 (b0 b1 : BitVec 8) : ℕ := 256 * b0.toNat + b1.toNat

/-- The copy of the attribute at `p`, when the caller gives a buffer. -/
def copyAttr (p attrLen : ℕ) (bufAttr : Bool) : Reading (BitVec 8) (List (BitVec 8)) :=
  if bufAttr then cells p attrLen else pure []

/-- A turn of the loop that `rtw_get_p2p_attr` and `rtw_get_wfd_attr` share; `off` is
`attr_ptr - p2p_ie`, and `attr_len` has 16 bits. -/
def getAttrTurn (get16 : BitVec 8 → BitVec 8 → ℕ) (ie ielen : ℕ) (targetAttrId : BitVec 8)
    (bufAttr : Bool) (off : ℕ) : Reading (BitVec 8) (Turn ℕ (Option Attr)) :=
  if off + 3 ≤ ielen then do
    let attrId ← cell (ie + off)
    let b0 ← cell (ie + off + 1)
    let b1 ← cell (ie + off + 2)
    let attrLen := (get16 b0 b1 + 3) % 65536
    if ielen < off + attrLen then pure (.leave none)
    else if attrId = targetAttrId then do
      let copy ← copyAttr (ie + off) attrLen bufAttr
      pure (.leave (some ⟨ie + off, attrLen, copy⟩))
    else pure (.next (off + attrLen))
  else pure (.leave none)

/-- The body that `rtw_get_p2p_attr` and `rtw_get_wfd_attr` share. -/
def getAttr (get16 : BitVec 8 → BitVec 8 → ℕ) (oui : List (BitVec 8)) (ie ielen : ℕ)
    (targetAttrId : BitVec 8) (bufAttr : Bool) (turns : ℕ) :
    Reading (BitVec 8) (Option (Option Attr)) :=
  if ielen ≤ 6 then pure (some none)
  else do
    let id ← cell ie
    let isIe ← ieMatch ie id wlanEidVendorSpecific (some oui)
    if isIe then run (getAttrTurn get16 ie ielen targetAttrId bufAttr) turns 6
    else pure (some none)

def wfdOui : List (BitVec 8) := [0x50, 0x6f, 0x9a, 0x0a]

def rtwGetP2pAttr := getAttr rtwGetLe16 p2pOui

def rtwGetWfdAttr := getAttr rtwGetBe16 wfdOui

/-- A turn of the loop of `rtw_get_wps_attr`. -/
def getWpsAttrTurn (wpsIe wpsIelen : ℕ) (targetAttrId : BitVec 16) (bufAttr : Bool) (off : ℕ) :
    Reading (BitVec 8) (Turn ℕ (Option Attr)) :=
  if off < wpsIelen then do
    let i0 ← cell (wpsIe + off)
    let i1 ← cell (wpsIe + off + 1)
    let l0 ← cell (wpsIe + off + 2)
    let l1 ← cell (wpsIe + off + 3)
    let attrLen := (rtwGetBe16 l0 l1 + 4) % 65536
    if rtwGetBe16 i0 i1 = targetAttrId.toNat then do
      let copy ← copyAttr (wpsIe + off) attrLen bufAttr
      pure (.leave (some ⟨wpsIe + off, attrLen, copy⟩))
    else pure (.next (off + attrLen))
  else pure (.leave none)

def rtwGetWpsAttr (wpsIe wpsIelen : ℕ) (targetAttrId : BitVec 16) (bufAttr : Bool) (turns : ℕ) :
    Reading (BitVec 8) (Option (Option Attr)) := do
  let id ← cell wpsIe
  let isIe ← ieMatch wpsIe id wlanEidVendorSpecific (some wpsOui)
  if isIe then run (getWpsAttrTurn wpsIe wpsIelen targetAttrId bufAttr) turns 6
  else pure (some none)

/-- How an attribute is laid out: the bytes of its header, its id, how much data it declares. -/
structure Format where
  header : ℕ
  id : (ℕ → BitVec 8) → ℕ → ℕ
  dataLen : (ℕ → BitVec 8) → ℕ → ℕ

/-- The layout that `getAttr` reads. -/
def attrFormat (get16 : BitVec 8 → BitVec 8 → ℕ) : Format where
  header := 3
  id mem p := (mem p).toNat
  dataLen mem p := get16 (mem (p + 1)) (mem (p + 2))

def p2pFormat : Format := attrFormat rtwGetLe16

def wfdFormat : Format := attrFormat rtwGetBe16

def wpsFormat : Format where
  header := 4
  id mem p := rtwGetBe16 (mem p) (mem (p + 1))
  dataLen mem p := rtwGetBe16 (mem (p + 2)) (mem (p + 3))

namespace Format

/-- The place behind the attribute at `p`. -/
def stop (fmt : Format) (mem : ℕ → BitVec 8) (p : ℕ) : ℕ := p + fmt.header + fmt.dataLen mem p

/-- The attribute at `p` is come to from the first one over attributes with other ids. -/
def Listed (fmt : Format) (mem : ℕ → BitVec 8) (first id p : ℕ) : Prop :=
  Reaches (fun q => if fmt.id mem q = id then none else some (fmt.stop mem q)) first p

/-- The first attribute with the id; all of its data lie in the `n` bytes from `a` on. -/
structure First (fmt : Format) (mem : ℕ → BitVec 8) (a n id p : ℕ) : Prop where
  listed : fmt.Listed mem (a + 6) id p
  id_eq : fmt.id mem p = id
  stop_le : fmt.stop mem p ≤ a + n

/-- From an attribute with another id to the next one by the 16-bit length, where the loop
looks. -/
def nextAttr (fmt : Format) (mem : ℕ → BitVec 8) (a id : ℕ) (looks : ℕ → Prop)
    [DecidablePred looks] (off : ℕ) : Option ℕ :=
  if looks off ∧ fmt.id mem (a + off) ≠ id then
    some (off + (fmt.dataLen mem (a + off) + fmt.header) % 65536)
  else none

/-- No attribute that the loop steps over has a length of 65536 with its header, and the one with
the id that it comes to lies inside and is come to by the full lengths as well. -/
def Fits (fmt : Format) (mem : ℕ → BitVec 8) (a n id : ℕ) (looks : ℕ → Prop)
    [DecidablePred looks] : Prop :=
  ∀ off, Reaches (fmt.nextAttr mem a id looks) 6 off → looks off →
    (fmt.id mem (a + off) ≠ id → fmt.dataLen mem (a + off) + fmt.header ≠ 65536) ∧
    (fmt.id mem (a + off) = id →
      fmt.Listed mem (a + 6) id (a + off) ∧ fmt.stop mem (a + off) ≤ a + n)

end Format

/-- The search ends, reads inside the element only, and finds the first attribute with the id. -/
structure Searched (fmt : Format) (mem : ℕ → BitVec 8) (a n id : ℕ)
    (search : ℕ → Reading (BitVec 8) (Option (Option Attr))) : Prop where
  ends : ∃ turns, (search turns).value mem ≠ none
  inside : ∀ turns, (search turns).Inside mem a n
  found : ∀ turns, ∀ r ∈ (search turns).value mem, ∀ attr ∈ r, fmt.First mem a n id attr.place

section Rules

variable {fmt : Format} {mem : ℕ → BitVec 8} {a n id : ℕ} {looks : ℕ → Prop} [DecidablePred looks]

/-- A turn of a loop over attributes: where it looks it goes on by the 16-bit length or finds. -/
structure Turns (fmt : Format) (mem : ℕ → BitVec 8) (a id : ℕ) (looks : ℕ → Prop)
    [DecidablePred looks] (turn : ℕ → Reading (BitVec 8) (Turn ℕ (Option Attr))) : Prop where
  nextState_eq : ∀ off, nextState turn mem off = fmt.nextAttr mem a id looks off
  found : ∀ off attr, (turn off).value mem = .leave (some attr) →
    looks off ∧ fmt.id mem (a + off) = id ∧ attr.place = a + off
  finds : ∀ off, looks off → fmt.id mem (a + off) = id →
    ∃ attr, (turn off).value mem = .leave (some attr)

theorem nextAttr_of_looks {off : ℕ} (hl : looks off) (hid : fmt.id mem (a + off) ≠ id) :
    fmt.nextAttr mem a id looks off =
      some (off + (fmt.dataLen mem (a + off) + fmt.header) % 65536) :=
  if_pos ⟨hl, hid⟩

theorem looks_of_nextAttr {off next : ℕ} (h : fmt.nextAttr mem a id looks off = some next) :
    looks off ∧ fmt.id mem (a + off) ≠ id ∧
      off + (fmt.dataLen mem (a + off) + fmt.header) % 65536 = next := by
  rw [Format.nextAttr] at h
  split_ifs at h with hl
  exact ⟨hl.1, hl.2, Option.some.inj h⟩

/-- No turn stays where it is exactly when no attribute stepped over has 65536 bytes. -/
theorem Turns.halts_iff {turn : ℕ → Reading (BitVec 8) (Turn ℕ (Option Attr))}
    (h : Turns fmt mem a id looks turn) (hlen : ∀ p, fmt.dataLen mem p < 65536)
    (hheader : 0 < fmt.header ∧ fmt.header ≤ 4) (hlooks : ∀ off, looks off → off ≤ n) :
    Halts turn mem 6 ↔ ∀ off, Reaches (fmt.nextAttr mem a id looks) 6 off → looks off →
      fmt.id mem (a + off) ≠ id → fmt.dataLen mem (a + off) + fmt.header ≠ 65536 := by
  have hnext : nextState turn mem = fmt.nextAttr mem a id looks := funext h.nextState_eq
  rw [halts_iff_of_le n, hnext]
  · refine forall_congr' fun off => imp_congr_right fun _ => ?_
    have hoff := hlen (a + off)
    constructor
    · intro hstay hl hid hsum
      apply hstay
      rw [nextAttr_of_looks hl hid, hsum, Nat.mod_self, Nat.add_zero]
    · intro hsum hstay
      obtain ⟨hl, hid, heq⟩ := looks_of_nextAttr hstay
      have := hsum hl hid
      omega
  · intro off next hstep
    rw [hnext] at hstep
    obtain ⟨hl, -, rfl⟩ := looks_of_nextAttr hstep
    exact ⟨by omega, hlooks off hl⟩

theorem Turns.searched_iff {turn : ℕ → Reading (BitVec 8) (Turn ℕ (Option Attr))}
    (h : Turns fmt mem a id looks turn) (hlen : ∀ p, fmt.dataLen mem p < 65536)
    (hheader : 0 < fmt.header ∧ fmt.header ≤ 4) (hlooks : ∀ off, looks off → off ≤ n) :
    Searched fmt mem a n id (fun turns => run turn turns 6) ↔ fmt.Fits mem a n id looks ∧
      ∀ off, Reaches (fmt.nextAttr mem a id looks) 6 off → (turn off).Inside mem a n := by
  have hnext : nextState turn mem = fmt.nextAttr mem a id looks := funext h.nextState_eq
  constructor
  · rintro ⟨hends, hinside, hfound⟩
    rw [forall_inside_iff, hnext] at hinside
    rw [forall_result_iff, hnext] at hfound
    refine ⟨?_, hinside⟩
    intro off hoff hl
    refine ⟨(h.halts_iff hlen hheader hlooks).mp hends off hoff hl, ?_⟩
    intro hid
    obtain ⟨attr, hattr⟩ := h.finds off hl hid
    have hfirst := hfound off hoff _ hattr attr rfl
    rw [(h.found off attr hattr).2.2] at hfirst
    exact ⟨hfirst.listed, hfirst.stop_le⟩
  · rintro ⟨hfits, hinside⟩
    refine ⟨?_, ?_, ?_⟩
    · exact (h.halts_iff hlen hheader hlooks).mpr fun off hoff hl => (hfits off hoff hl).1
    · rw [forall_inside_iff, hnext]
      exact hinside
    · rw [forall_result_iff, hnext]
      rintro off hoff _ hleave attr ⟨⟩
      obtain ⟨hl, hid, hplace⟩ := h.found off attr hleave
      obtain ⟨hlisted, hstop⟩ := (hfits off hoff hl).2 hid
      rw [hplace]
      exact ⟨hlisted, hid, hstop⟩

theorem searched_none : Searched fmt mem a n id fun _ => pure (some none) := by
  refine ⟨⟨0, nofun⟩, fun _ => inside_pure _, ?_⟩
  intro _ r hr attr hattr
  cases hr
  cases hattr

theorem searched_bind {α : Type} {x : Reading (BitVec 8) α}
    {f : ℕ → α → Reading (BitVec 8) (Option (Option Attr))} :
    Searched fmt mem a n id (fun turns => x >>= f turns) ↔
      x.Inside mem a n ∧ Searched fmt mem a n id fun turns => f turns (x.value mem) := by
  constructor
  · rintro ⟨⟨turns, hends⟩, hin, hfound⟩
    refine ⟨(inside_bind.mp (hin turns)).1, ⟨turns, ?_⟩, fun t => (inside_bind.mp (hin t)).2, ?_⟩
    · rwa [value_bind] at hends
    · intro t r hr
      exact hfound t r (by rwa [value_bind])
  · rintro ⟨hx, ⟨turns, hends⟩, hin, hfound⟩
    refine ⟨⟨turns, ?_⟩, fun t => inside_bind.mpr ⟨hx, hin t⟩, ?_⟩
    · rwa [value_bind]
    · intro t r hr
      rw [value_bind] at hr
      exact hfound t r hr

end Rules

section Turns

variable {mem : ℕ → BitVec 8} {a n : ℕ} {buf : Bool}

/-- Where the loop of `getAttr` looks: at an attribute whose 16-bit length stays inside. -/
def attrLooks (fmt : Format) (mem : ℕ → BitVec 8) (a n off : ℕ) : Prop :=
  off + fmt.header ≤ n ∧ off + (fmt.dataLen mem (a + off) + fmt.header) % 65536 ≤ n

instance (fmt : Format) : DecidablePred (attrLooks fmt mem a n) :=
  fun _ => inferInstanceAs (Decidable (_ ∧ _))

section Attr

variable {get16 : BitVec 8 → BitVec 8 → ℕ} {target : BitVec 8} {off : ℕ}

theorem getAttrTurn_of_not_looks (h : ¬attrLooks (attrFormat get16) mem a n off) :
    (getAttrTurn get16 a n target buf off).value mem = .leave none := by
  rw [getAttrTurn]
  by_cases hroom : off + 3 ≤ n
  · have hout : n < off + (get16 (mem (a + off + 1)) (mem (a + off + 2)) + 3) % 65536 := by
      by_contra hle
      exact h ⟨hroom, not_lt.mp hle⟩
    rw [if_pos hroom, value_cell_bind, value_cell_bind, value_cell_bind]
    dsimp only
    rw [if_pos hout, value_pure]
  · rw [if_neg hroom, value_pure]

theorem getAttrTurn_found (buf : Bool) (h : attrLooks (attrFormat get16) mem a n off)
    (hid : mem (a + off) = target) : ∃ attr : Attr, attr.place = a + off ∧
      (getAttrTurn get16 a n target buf off).value mem = .leave (some attr) := by
  have hroom : off + 3 ≤ n := h.1
  have hin : ¬n < off + (get16 (mem (a + off + 1)) (mem (a + off + 2)) + 3) % 65536 :=
    not_lt.mpr h.2
  rw [getAttrTurn, if_pos hroom, value_cell_bind, value_cell_bind, value_cell_bind]
  dsimp only
  rw [if_neg hin, if_pos hid, value_bind, value_pure]
  exact ⟨_, rfl, rfl⟩

theorem getAttrTurn_next (h : attrLooks (attrFormat get16) mem a n off)
    (hid : mem (a + off) ≠ target) : (getAttrTurn get16 a n target buf off).value mem =
      .next (off + (get16 (mem (a + off + 1)) (mem (a + off + 2)) + 3) % 65536) := by
  have hroom : off + 3 ≤ n := h.1
  have hin : ¬n < off + (get16 (mem (a + off + 1)) (mem (a + off + 2)) + 3) % 65536 :=
    not_lt.mpr h.2
  rw [getAttrTurn, if_pos hroom, value_cell_bind, value_cell_bind, value_cell_bind]
  dsimp only
  rw [if_neg hin, if_neg hid, value_pure]

theorem copyAttr_inside {p len : ℕ} (ha : a ≤ p) (hn : p + len ≤ a + n) :
    (copyAttr p len buf).Inside mem a n := by
  cases buf
  · exact inside_pure []
  · exact inside_cells.mpr (Or.inr ⟨ha, hn⟩)

theorem getAttrTurn_inside : (getAttrTurn get16 a n target buf off).Inside mem a n := by
  rw [getAttrTurn]
  by_cases hroom : off + 3 ≤ n
  · rw [if_pos hroom, inside_cell_bind, inside_cell_bind, inside_cell_bind]
    refine ⟨by omega, by omega, by omega, ?_⟩
    dsimp only
    split_ifs with hout hid
    · exact inside_pure _
    · exact inside_bind.mpr ⟨copyAttr_inside (by omega) (by omega), inside_pure _⟩
    · exact inside_pure _
  · rw [if_neg hroom]
    exact inside_pure _

theorem getAttrTurn_turns : Turns (attrFormat get16) mem a target.toNat
    (attrLooks (attrFormat get16) mem a n) (getAttrTurn get16 a n target buf) := by
  refine ⟨fun off => ?_, fun off attr hleave => ?_, fun off hl hid => ?_⟩
  · by_cases hl : attrLooks (attrFormat get16) mem a n off
    · by_cases hid : mem (a + off) = target
      · obtain ⟨attr, -, hattr⟩ := getAttrTurn_found buf hl hid
        rw [nextState_leave hattr, Format.nextAttr, if_neg]
        exact fun hc => hc.2 (congrArg BitVec.toNat hid)
      · rw [nextState_next (getAttrTurn_next hl hid),
          nextAttr_of_looks hl fun hc => hid (BitVec.eq_of_toNat_eq hc)]
        rfl
    · rw [nextState_leave (getAttrTurn_of_not_looks hl), Format.nextAttr, if_neg]
      exact fun hc => hl hc.1
  · by_cases hl : attrLooks (attrFormat get16) mem a n off
    · by_cases hid : mem (a + off) = target
      · obtain ⟨attr', hplace, hattr⟩ := getAttrTurn_found buf hl hid
        rw [hattr] at hleave
        cases hleave
        exact ⟨hl, congrArg BitVec.toNat hid, hplace⟩
      · rw [getAttrTurn_next hl hid] at hleave
        cases hleave
    · rw [getAttrTurn_of_not_looks hl] at hleave
      cases hleave
  · obtain ⟨attr, -, hattr⟩ := getAttrTurn_found buf hl (BitVec.eq_of_toNat_eq hid)
    exact ⟨attr, hattr⟩

end Attr

section Wps

variable {target : BitVec 16} {off : ℕ}

theorem getWpsAttrTurn_found (buf : Bool) (h : off < n) (hid : wpsFormat.id mem (a + off) = target.toNat) :
    ∃ attr : Attr, attr.place = a + off ∧
      (getWpsAttrTurn a n target buf off).value mem = .leave (some attr) := by
  rw [getWpsAttrTurn, if_pos h, value_cell_bind, value_cell_bind, value_cell_bind,
    value_cell_bind]
  have hid' : rtwGetBe16 (mem (a + off)) (mem (a + off + 1)) = target.toNat := hid
  dsimp only
  rw [if_pos hid', value_bind, value_pure]
  exact ⟨_, rfl, rfl⟩

theorem getWpsAttrTurn_next (h : off < n) (hid : wpsFormat.id mem (a + off) ≠ target.toNat) :
    (getWpsAttrTurn a n target buf off).value mem =
      .next (off + (wpsFormat.dataLen mem (a + off) + 4) % 65536) := by
  rw [getWpsAttrTurn, if_pos h, value_cell_bind, value_cell_bind, value_cell_bind,
    value_cell_bind]
  have hid' : ¬rtwGetBe16 (mem (a + off)) (mem (a + off + 1)) = target.toNat := hid
  dsimp only
  rw [if_neg hid', value_pure]
  rfl

theorem getWpsAttrTurn_of_ge (h : ¬off < n) :
    getWpsAttrTurn a n target buf off = pure (.leave none) := by
  rw [getWpsAttrTurn, if_neg h]

theorem getWpsAttrTurn_turns : Turns wpsFormat mem a target.toNat (· < n)
    (getWpsAttrTurn a n target buf) := by
  refine ⟨fun off => ?_, fun off attr hleave => ?_, fun off hl hid => ?_⟩
  · by_cases hl : off < n
    · by_cases hid : wpsFormat.id mem (a + off) = target.toNat
      · obtain ⟨attr, -, hattr⟩ := getWpsAttrTurn_found buf hl hid
        rw [nextState_leave hattr, Format.nextAttr, if_neg]
        exact fun hc => hc.2 hid
      · rw [nextState_next (getWpsAttrTurn_next hl hid)]
        refine (nextAttr_of_looks ?_ hid).symm
        exact hl
    · rw [nextState_leave (by rw [getWpsAttrTurn_of_ge hl, value_pure]), Format.nextAttr, if_neg]
      exact fun hc => hl hc.1
  · by_cases hl : off < n
    · by_cases hid : wpsFormat.id mem (a + off) = target.toNat
      · obtain ⟨attr', hplace, hattr⟩ := getWpsAttrTurn_found buf hl hid
        rw [hattr] at hleave
        cases hleave
        exact ⟨hl, hid, hplace⟩
      · rw [getWpsAttrTurn_next hl hid] at hleave
        cases hleave
    · rw [getWpsAttrTurn_of_ge hl, value_pure] at hleave
      cases hleave
  · obtain ⟨attr, -, hattr⟩ := getWpsAttrTurn_found buf hl hid
    exact ⟨attr, hattr⟩

/-- A turn reads inside when the header it looks at is inside, and the attribute if it is found. -/
theorem getWpsAttrTurn_inside (hstop : off < n → wpsFormat.id mem (a + off) = target.toNat →
    wpsFormat.stop mem (a + off) ≤ a + n) :
    (getWpsAttrTurn a n target buf off).Inside mem a n ↔ (off < n → off + 4 ≤ n) := by
  by_cases hl : off < n
  · rw [getWpsAttrTurn, if_pos hl, inside_cell_bind, inside_cell_bind, inside_cell_bind,
      inside_cell_bind]
    dsimp only
    constructor
    · rintro ⟨-, -, -, hlast, -⟩ -
      omega
    · intro hroom
      have hhead := hroom hl
      refine ⟨by omega, by omega, by omega, by omega, ?_⟩
      split_ifs with hid
      · have hle : wpsFormat.stop mem (a + off) = a + off + 4 + rtwGetBe16 _ _ := rfl
        have hend := hstop hl hid
        rw [hle] at hend
        exact inside_bind.mpr ⟨copyAttr_inside (by omega) (by omega), inside_pure _⟩
      · exact inside_pure _
  · rw [getWpsAttrTurn_of_ge hl]
    exact ⟨fun _ h => absurd h hl, fun _ => inside_pure _⟩

end Wps

end Turns

section Searches

variable {mem : ℕ → BitVec 8} {a n : ℕ} {buf : Bool} {oui : List (BitVec 8)}

/-- The comparison with the OUI. -/
theorem isIe_inside (houi : oui.length = 4) :
    (ieMatch a (mem a) wlanEidVendorSpecific (some oui)).Inside mem a n ↔
      (mem a = wlanEidVendorSpecific → 6 ≤ n) := by
  by_cases hid : mem a = wlanEidVendorSpecific
  · rw [ieMatch, if_pos hid]
    simp only [rtwMemcmp, inside_bind, inside_cells, inside_pure, and_true, houi, hid,
      forall_const]
    omega
  · rw [ieMatch, if_neg hid]
    exact ⟨fun _ h => absurd h hid, fun _ => inside_pure false⟩

theorem isIe_value : (ieMatch a (mem a) wlanEidVendorSpecific (some oui)).value mem = true ↔
    Hit mem a wlanEidVendorSpecific (some oui) 0 :=
  ieMatch_value (i := 0)

theorem rtwGetBe16_lt (b0 b1 : BitVec 8) : rtwGetBe16 b0 b1 < 65536 := by
  rw [rtwGetBe16]
  omega

theorem rtwGetLe16_lt (b0 b1 : BitVec 8) : rtwGetLe16 b0 b1 < 65536 := by
  rw [rtwGetLe16]
  omega

theorem getAttr_searched_iff {get16 : BitVec 8 → BitVec 8 → ℕ} (target : BitVec 8)
    (hlen : ∀ b0 b1, get16 b0 b1 < 65536) (houi : oui.length = 4) :
    Searched (attrFormat get16) mem a n target.toNat (getAttr get16 oui a n target buf) ↔
      (6 < n → Hit mem a wlanEidVendorSpecific (some oui) 0 →
        (attrFormat get16).Fits mem a n target.toNat (attrLooks (attrFormat get16) mem a n)) := by
  unfold getAttr
  by_cases hn : n ≤ 6
  · simp only [if_pos hn]
    exact ⟨fun _ h => absurd h (by omega), fun _ => searched_none⟩
  · simp only [if_neg hn]
    rw [searched_bind, inside_cell, value_cell, searched_bind, isIe_inside houi]
    by_cases hie : Hit mem a wlanEidVendorSpecific (some oui) 0
    · simp only [isIe_value.mpr hie, if_true]
      rw [getAttrTurn_turns.searched_iff (fun p => hlen _ _) (show 0 < 3 ∧ 3 ≤ 4 by omega)
        fun off hl => by have := hl.1; omega]
      constructor
      · rintro ⟨-, -, hfits, -⟩ - -
        exact hfits
      · intro hfits
        exact ⟨by omega, by omega, hfits (by omega) hie, fun off _ => getAttrTurn_inside⟩
    · simp only [Bool.eq_false_iff.mpr (mt isIe_value.mp hie)]
      exact ⟨fun _ _ h => absurd h hie, fun _ => ⟨by omega, by omega, searched_none⟩⟩

theorem rtwGetWpsAttr_searched_iff (target : BitVec 16) :
    Searched wpsFormat mem a n target.toNat (rtwGetWpsAttr a n target buf) ↔
      0 < n ∧ (mem a = wlanEidVendorSpecific → 6 ≤ n) ∧
        (Hit mem a wlanEidVendorSpecific (some wpsOui) 0 →
          wpsFormat.Fits mem a n target.toNat (· < n) ∧
          ∀ off, Reaches (wpsFormat.nextAttr mem a target.toNat (· < n)) 6 off →
            off < n → off + 4 ≤ n) := by
  unfold rtwGetWpsAttr
  rw [searched_bind, inside_cell, value_cell, searched_bind, isIe_inside rfl]
  refine and_congr (by omega) (and_congr_right fun _ => ?_)
  by_cases hie : Hit mem a wlanEidVendorSpecific (some wpsOui) 0
  · simp only [isIe_value.mpr hie, if_true, hie, forall_const]
    rw [getWpsAttrTurn_turns.searched_iff (fun p => rtwGetBe16_lt _ _) ⟨by decide, by decide⟩
      fun off hl => le_of_lt hl]
    refine and_congr_right fun hfits => forall_congr' fun off => imp_congr_right fun hoff => ?_
    exact getWpsAttrTurn_inside fun hl hid => ((hfits off hoff hl).2 hid).2
  · simp only [Bool.eq_false_iff.mpr (mt isIe_value.mp hie)]
    exact ⟨fun _ h => absurd h hie, fun _ => searched_none⟩

end Searches

/-- The searches for an attribute end, stay inside the given length and find the first attribute
with the id exactly when: no attribute that is stepped over has 65536 bytes with its header; one
with the id that is come to is come to by the full lengths too and lies inside; and, as
`rtw_get_wps_attr` does not compare with the length, all headers that it looks at lie inside. -/
theorem attrs_searched_iff (mem : ℕ → BitVec 8) (a n : ℕ) (id : BitVec 8) (wpsId : BitVec 16)
    (buf : Bool) :
    (Searched p2pFormat mem a n id.toNat (rtwGetP2pAttr a n id buf) ↔
      (6 < n → Hit mem a wlanEidVendorSpecific (some p2pOui) 0 →
        p2pFormat.Fits mem a n id.toNat (attrLooks p2pFormat mem a n))) ∧
    (Searched wfdFormat mem a n id.toNat (rtwGetWfdAttr a n id buf) ↔
      (6 < n → Hit mem a wlanEidVendorSpecific (some wfdOui) 0 →
        wfdFormat.Fits mem a n id.toNat (attrLooks wfdFormat mem a n))) ∧
    (Searched wpsFormat mem a n wpsId.toNat (rtwGetWpsAttr a n wpsId buf) ↔
      0 < n ∧ (mem a = wlanEidVendorSpecific → 6 ≤ n) ∧
        (Hit mem a wlanEidVendorSpecific (some wpsOui) 0 →
          wpsFormat.Fits mem a n wpsId.toNat (· < n) ∧
          ∀ off, Reaches (wpsFormat.nextAttr mem a wpsId.toNat (· < n)) 6 off →
            off < n → off + 4 ≤ n)) :=
  ⟨getAttr_searched_iff id rtwGetLe16_lt rfl, getAttr_searched_iff id rtwGetBe16_lt rfl,
    rtwGetWpsAttr_searched_iff wpsId⟩

/-- An element of the OUI with one attribute, which has 65536 bytes with its header. -/
def loopingIe (oui attr : List (BitVec 8)) (i : ℕ) : BitVec 8 :=
  (0xdd :: BitVec.ofNat 8 (oui.length + attr.length) :: (oui ++ attr)).getD i 0

/-- The searches for another attribute stay at this one for ever. -/
theorem attrs_not_searched :
    ¬Searched p2pFormat (loopingIe p2pOui [0x01, 0xfd, 0xff]) 0 9 2
      (rtwGetP2pAttr 0 9 2 false) ∧
    ¬Searched wfdFormat (loopingIe wfdOui [0x01, 0xff, 0xfd]) 0 9 2
      (rtwGetWfdAttr 0 9 2 false) ∧
    ¬Searched wpsFormat (loopingIe wpsOui [0x10, 0x4a, 0xff, 0xfc]) 0 10 2
      (rtwGetWpsAttr 0 10 2 false) := by
  refine ⟨fun h => ?_, fun h => ?_, fun h => ?_⟩
  · have hfits := (getAttr_searched_iff 2 rtwGetLe16_lt rfl).mp h (by decide) (by decide)
    exact (hfits 6 (.refl 6) (by decide)).1 (by decide) (by decide)
  · have hfits := (getAttr_searched_iff 2 rtwGetBe16_lt rfl).mp h (by decide) (by decide)
    exact (hfits 6 (.refl 6) (by decide)).1 (by decide) (by decide)
  · have hfits := ((rtwGetWpsAttr_searched_iff 2).mp h).2.2 (by decide)
    exact (hfits.1 6 (.refl 6) (by decide)).1 (by decide) (by decide)

end Rtl8821cu.AttrSearch
