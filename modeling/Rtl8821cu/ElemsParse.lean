import Rtl8821cu.LibReads
import Rtl8821cu.Ies

/-! The element parser (`rtw_ieee802_11_parse_elems` in `core/rtw_ieee80211.c`). -/
namespace Rtl8821cu.ElemsParse
open Store Reads Elements Ies

/-- The elements that `struct rtw_ieee802_11_elems` has a pointer and a length for. -/
inductive Field
  | ssid | suppRates | fhParams | dsParams | cfParams | tim | ibssParams | challenge | erpInfo
  | extSuppRates | wpaIe | rsnIe | wme | wmeTspec | wpsIe | powerCap | suppChannels | mdie | ftie
  | timeoutInt | htCapabilities | htOperation | vendorHtCap | vhtCapabilities | vhtOperation
  | vhtOpModeNotify | rmEnCap | preq | prep | perr | rann
  deriving DecidableEq

/-- `struct rtw_ieee802_11_elems`: the place and the length of a body, or none for `NULL`. -/
abbrev Elems := Field → Option (ℕ × ℕ)

inductive ParseRes
  | ok
  | unknown
  | failed
  deriving DecidableEq

/-- The cases of the switch but the vendor's; the last four are there with `CONFIG_RTW_MESH`. -/
def fieldOf (mesh : Bool) (id : BitVec 8) : Option Field :=
  match id.toNat with
  | 0 => some .ssid
  | 1 => some .suppRates
  | 2 => some .fhParams
  | 3 => some .dsParams
  | 4 => some .cfParams
  | 5 => some .tim
  | 6 => some .ibssParams
  | 16 => some .challenge
  | 42 => some .erpInfo
  | 50 => some .extSuppRates
  | 48 => some .rsnIe
  | 33 => some .powerCap
  | 36 => some .suppChannels
  | 54 => some .mdie
  | 55 => some .ftie
  | 56 => some .timeoutInt
  | 45 => some .htCapabilities
  | 61 => some .htOperation
  | 191 => some .vhtCapabilities
  | 192 => some .vhtOperation
  | 199 => some .vhtOpModeNotify
  | 70 => some .rmEnCap
  | 130 => if mesh then some .preq else none
  | 131 => if mesh then some .prep else none
  | 132 => if mesh then some .perr else none
  | 126 => if mesh then some .rann else none
  | _ => none

def rtwGetBe24 (b0 b1 b2 : BitVec 8) : ℕ := 65536 * b0.toNat + 256 * b1.toNat + b2.toNat

def ouiMicrosoft : ℕ := 0x0050f2

def ouiBroadcom : ℕ := 0x00904c

/-- `rtw_ieee802_11_parse_vendor_specific`: the field that is set; none for the return value -1. -/
def parseVendorSpecific (pos elen : ℕ) : Reading (BitVec 8) (Option Field) :=
  if elen < 4 then pure none
  else do
    let b0 ← cell pos
    let b1 ← cell (pos + 1)
    let b2 ← cell (pos + 2)
    if rtwGetBe24 b0 b1 b2 = ouiMicrosoft then do
      let type ← cell (pos + 3)
      if type = 1 then pure (some .wpaIe)
      else if type = 2 then
        if elen < 5 then pure none
        else do
          let subtype ← cell (pos + 4)
          if subtype = 0 then pure (some .wme)
          else if subtype = 1 then pure (some .wme)
          else if subtype = 2 then pure (some .wmeTspec)
          else pure none
      else if type = 4 then pure (some .wpsIe)
      else pure none
    else if rtwGetBe24 b0 b1 b2 = ouiBroadcom then do
      let type ← cell (pos + 3)
      if type = 0x33 then pure (some .vendorHtCap) else pure none
    else pure none

/-- The field that the element at `pos` is for. -/
def parseElem (mesh : Bool) (id : BitVec 8) (pos elen : ℕ) : Reading (BitVec 8) (Option Field) :=
  if id = wlanEidVendorSpecific then parseVendorSpecific pos elen else pure (fieldOf mesh id)

/-- The loop of `rtw_ieee802_11_parse_elems`. -/
def parseLoop (mesh : Bool) (pos left unknown : ℕ) (elems : Elems) :
    Reading (BitVec 8) (ParseRes × Elems) :=
  if 2 ≤ left then do
    let id ← cell pos
    let elen ← cell (pos + 1)
    if left - 2 < elen.toNat then pure (.failed, elems)
    else do
      let rest := left - 2 - elen.toNat
      match ← parseElem mesh id (pos + 2) elen.toNat with
      | some f =>
        parseLoop mesh (pos + 2 + elen.toNat) rest unknown
          (Function.update elems f (some (pos + 2, elen.toNat)))
      | none => parseLoop mesh (pos + 2 + elen.toNat) rest (unknown + 1) elems
  else if left != 0 then pure (.failed, elems)
  else pure (if unknown != 0 then .unknown else .ok, elems)
termination_by left

def rtwIeee80211ParseElems (mesh : Bool) (start len : ℕ) : Reading (BitVec 8) (ParseRes × Elems) :=
  parseLoop mesh start len 0 fun _ => none

namespace Field

/-- The id of the field's elements. -/
def eid : Field → BitVec 8
  | ssid => 0
  | suppRates => 1
  | fhParams => 2
  | dsParams => 3
  | cfParams => 4
  | tim => 5
  | ibssParams => 6
  | challenge => 16
  | powerCap => 33
  | suppChannels => 36
  | erpInfo => 42
  | htCapabilities => 45
  | rsnIe => 48
  | extSuppRates => 50
  | mdie => 54
  | ftie => 55
  | timeoutInt => 56
  | htOperation => 61
  | rmEnCap => 70
  | rann => 126
  | preq => 130
  | prep => 131
  | perr => 132
  | vhtCapabilities => 191
  | vhtOperation => 192
  | vhtOpModeNotify => 199
  | wpaIe | wme | wmeTspec | wpsIe | vendorHtCap => 221

/-- What the bodies of the field's elements start with, one of these. -/
def leads : Field → List (List (BitVec 8))
  | wpaIe => [[0x00, 0x50, 0xf2, 1]]
  | wme => [[0x00, 0x50, 0xf2, 2, 0], [0x00, 0x50, 0xf2, 2, 1]]
  | wmeTspec => [[0x00, 0x50, 0xf2, 2, 2]]
  | wpsIe => [[0x00, 0x50, 0xf2, 4]]
  | vendorHtCap => [[0x00, 0x90, 0x4c, 0x33]]
  | _ => [[]]

/-- The field is built in. -/
def built (mesh : Bool) : Field → Prop
  | preq | prep | perr | rann => mesh = true
  | _ => True

/-- The element is one of the field's. -/
structure Of (mesh : Bool) (f : Field) (e : Element) : Prop where
  built : f.built mesh
  id_eq : e.id = f.eid
  lead : ∃ p ∈ f.leads, p <+: e.body

end Field

section Kinds

variable {mesh : Bool} {f : Field} {id : BitVec 8}

theorem fieldOf_built (h : fieldOf mesh id = some f) : f.built mesh ∧ id = f.eid := by
  unfold fieldOf at h
  split at h
  case h_23 | h_24 | h_25 | h_26 =>
    cases mesh
    · cases h
    · cases h
      exact ⟨rfl, BitVec.eq_of_toNat_eq (by assumption)⟩
  case h_27 => cases h
  all_goals
    cases h
    exact ⟨trivial, BitVec.eq_of_toNat_eq (by assumption)⟩

theorem fieldOf_eq_some_iff (h : id ≠ wlanEidVendorSpecific) :
    fieldOf mesh id = some f ↔ f.built mesh ∧ id = f.eid := by
  constructor
  · exact fieldOf_built
  · rintro ⟨hbuilt, rfl⟩
    cases f
    case wpaIe | wme | wmeTspec | wpsIe | vendorHtCap => exact absurd rfl h
    case preq | prep | perr | rann =>
      cases hbuilt
      rfl
    all_goals rfl

/-- What a field that is not of a vendor asks of the body is nothing. -/
theorem leads_of_ne (h : f.eid ≠ wlanEidVendorSpecific) : f.leads = [[]] := by
  cases f
  case wpaIe | wme | wmeTspec | wpsIe | vendorHtCap => exact absurd rfl h
  all_goals rfl

theorem rtwGetBe24_eq_iff (b0 b1 b2 c0 c1 c2 : BitVec 8) :
    rtwGetBe24 b0 b1 b2 = rtwGetBe24 c0 c1 c2 ↔ b0 = c0 ∧ b1 = c1 ∧ b2 = c2 := by
  constructor
  · intro h
    simp only [rtwGetBe24] at h
    exact ⟨BitVec.eq_of_toNat_eq (by omega), BitVec.eq_of_toNat_eq (by omega),
      BitVec.eq_of_toNat_eq (by omega)⟩
  · rintro ⟨rfl, rfl, rfl⟩
    rfl

theorem four_le_of_lead {p : List (BitVec 8)} (h : f.eid = wlanEidVendorSpecific)
    (hp : p ∈ f.leads) : 4 ≤ p.length := by
  cases f
  case wpaIe | wme | wmeTspec | wpsIe | vendorHtCap => revert p; decide
  all_goals exact absurd h (by decide)

theorem cons_prefix_iff {a b : BitVec 8} {l m : List (BitVec 8)} :
    a :: l <+: b :: m ↔ b = a ∧ l <+: m := by
  rw [List.cons_prefix_cons, eq_comm]

/-- The fields of a vendor, by the bytes of the body. -/
theorem exists_lead_iff (b0 b1 b2 b3 : BitVec 8) (rest : List (BitVec 8)) :
    (f.eid = wlanEidVendorSpecific ∧ ∃ p ∈ f.leads, p <+: b0 :: b1 :: b2 :: b3 :: rest) ↔
      (b0 = 0x00 ∧ b1 = 0x50 ∧ b2 = 0xf2 ∧
        ((b3 = 1 ∧ f = .wpaIe) ∨ (b3 = 2 ∧ rest.head? = some 0 ∧ f = .wme) ∨
          (b3 = 2 ∧ rest.head? = some 1 ∧ f = .wme) ∨
          (b3 = 2 ∧ rest.head? = some 2 ∧ f = .wmeTspec) ∨ (b3 = 4 ∧ f = .wpsIe))) ∨
      (b0 = 0x00 ∧ b1 = 0x90 ∧ b2 = 0x4c ∧ b3 = 0x33 ∧ f = .vendorHtCap) := by
  cases f
  case wme | wmeTspec =>
    cases rest <;> simp [-List.cons_prefix_cons, cons_prefix_iff, Field.eid, Field.leads,
      wlanEidVendorSpecific] <;> tauto
  all_goals
    simp [-List.cons_prefix_cons, cons_prefix_iff, Field.eid, Field.leads, wlanEidVendorSpecific]

variable {mem : ℕ → BitVec 8} {pos : ℕ} {body : List (BitVec 8)}

/-- The vendor parser finds the field by what the body starts with. -/
theorem parseVendorSpecific_value (h : HoldsAt mem pos body) :
    (parseVendorSpecific pos body.length).value mem = some f ↔
      f.eid = wlanEidVendorSpecific ∧ ∃ p ∈ f.leads, p <+: body := by
  rw [parseVendorSpecific]
  match body, h with
  | [], _ | [_], _ | [_, _], _ | [_, _, _], _ =>
    rw [if_pos (by simp), value_pure]
    refine ⟨nofun, ?_⟩
    rintro ⟨hf, p, hp, hlead⟩
    have := four_le_of_lead hf hp
    have := hlead.length_le
    simp only [List.length_cons, List.length_nil] at this
    omega
  | b0 :: b1 :: b2 :: b3 :: rest, h =>
    obtain ⟨h0, htail1⟩ := holdsAt_cons.mp h
    obtain ⟨h1, htail2⟩ := holdsAt_cons.mp htail1
    obtain ⟨h2, htail3⟩ := holdsAt_cons.mp htail2
    obtain ⟨h3, hrest⟩ := holdsAt_cons.mp htail3
    rw [exists_lead_iff, if_neg (by simp), value_cell_bind, value_cell_bind, value_cell_bind, h0, h1,
      h2]
    by_cases hms : rtwGetBe24 b0 b1 b2 = ouiMicrosoft
    · obtain ⟨rfl, rfl, rfl⟩ := (rtwGetBe24_eq_iff b0 b1 b2 0x00 0x50 0xf2).mp hms
      rw [if_pos hms, value_cell_bind, h3]
      by_cases hwpa : b3 = 1
      · rw [if_pos hwpa, value_pure]
        simp [hwpa, eq_comm]
      rw [if_neg hwpa]
      by_cases hwme : b3 = 2
      · rw [if_pos hwme]
        cases rest with
        | nil =>
          rw [if_pos (by simp), value_pure]
          simp [hwme]
        | cons b4 tail =>
          obtain ⟨h4, -⟩ := holdsAt_cons.mp hrest
          rw [if_neg (by simp), value_cell_bind, h4]
          by_cases hinfo : b4 = 0
          · rw [if_pos hinfo, value_pure]
            simp [hwme, hinfo, eq_comm]
          rw [if_neg hinfo]
          by_cases hparam : b4 = 1
          · rw [if_pos hparam, value_pure]
            simp [hwme, hparam, eq_comm]
          rw [if_neg hparam]
          by_cases htspec : b4 = 2
          · rw [if_pos htspec, value_pure]
            simp [hwme, htspec, eq_comm]
          · rw [if_neg htspec, value_pure]
            refine ⟨nofun, ?_⟩
            rintro (⟨-, -, -, ⟨h, -⟩ | ⟨-, h, -⟩ | ⟨-, h, -⟩ | ⟨-, h, -⟩ | ⟨h, -⟩⟩ | ⟨-, hb, -⟩)
            · exact absurd h hwpa
            · exact absurd (Option.some.inj h) hinfo
            · exact absurd (Option.some.inj h) hparam
            · exact absurd (Option.some.inj h) htspec
            · rw [hwme] at h
              exact absurd h (by decide)
            · exact absurd hb (by decide)
      rw [if_neg hwme]
      by_cases hwps : b3 = 4
      · rw [if_pos hwps, value_pure]
        simp [hwps, eq_comm]
      · rw [if_neg hwps, value_pure]
        refine ⟨nofun, ?_⟩
        rintro (⟨-, -, -, ⟨h, -⟩ | ⟨h, -⟩ | ⟨h, -⟩ | ⟨h, -⟩ | ⟨h, -⟩⟩ | ⟨-, hb, -⟩)
        · exact absurd h hwpa
        · exact absurd h hwme
        · exact absurd h hwme
        · exact absurd h hwme
        · exact absurd h hwps
        · exact absurd hb (by decide)
    · have hnms : ¬(b0 = 0x00 ∧ b1 = 0x50 ∧ b2 = 0xf2) := by
        rintro ⟨rfl, rfl, rfl⟩
        exact hms rfl
      rw [if_neg hms]
      by_cases hbc : rtwGetBe24 b0 b1 b2 = ouiBroadcom
      · obtain ⟨rfl, rfl, rfl⟩ := (rtwGetBe24_eq_iff b0 b1 b2 0x00 0x90 0x4c).mp hbc
        rw [if_pos hbc, value_cell_bind, h3]
        by_cases hht : b3 = 0x33
        · rw [if_pos hht, value_pure]
          simp [hht, eq_comm]
        · rw [if_neg hht, value_pure]
          refine ⟨nofun, ?_⟩
          rintro (⟨-, hb, -⟩ | ⟨-, -, -, h, -⟩)
          · exact absurd hb (by decide)
          · exact absurd h hht
      · have hnbc : ¬(b0 = 0x00 ∧ b1 = 0x90 ∧ b2 = 0x4c) := by
          rintro ⟨rfl, rfl, rfl⟩
          exact hbc rfl
        rw [if_neg hbc, value_pure]
        refine ⟨nofun, ?_⟩
        rintro (⟨h0, h1, h2, -⟩ | ⟨h0, h1, h2, -⟩)
        · exact absurd ⟨h0, h1, h2⟩ hnms
        · exact absurd ⟨h0, h1, h2⟩ hnbc

variable {a n : ℕ}

theorem parseVendorSpecific_inside {elen : ℕ} (ha : a ≤ pos) (hn : pos + elen ≤ a + n) :
    (parseVendorSpecific pos elen).Inside mem a n := by
  rw [parseVendorSpecific]
  by_cases hshort : elen < 4
  · rw [if_pos hshort]
    exact inside_pure none
  · rw [if_neg hshort, inside_cell_bind, inside_cell_bind, inside_cell_bind]
    refine ⟨by omega, by omega, by omega, inside_ite.mpr ⟨fun _ => ?_, fun _ => ?_⟩⟩
    · rw [inside_cell_bind]
      refine ⟨by omega, inside_ite.mpr ⟨fun _ => inside_pure _, fun _ => inside_ite.mpr ⟨?_, ?_⟩⟩⟩
      · intro _
        by_cases hlen : elen < 5
        · rw [if_pos hlen]
          exact inside_pure none
        · rw [if_neg hlen, inside_cell_bind]
          refine ⟨by omega, ?_⟩
          split_ifs <;> exact inside_pure _
      · intro _
        split_ifs <;> exact inside_pure _
    · refine inside_ite.mpr ⟨fun _ => ?_, fun _ => inside_pure none⟩
      rw [inside_cell_bind]
      refine ⟨by omega, ?_⟩
      split_ifs <;> exact inside_pure _

theorem parseElem_inside {elen : ℕ} (ha : a ≤ pos) (hn : pos + elen ≤ a + n) :
    (parseElem mesh id pos elen).Inside mem a n := by
  rw [parseElem]
  split_ifs
  · exact parseVendorSpecific_inside ha hn
  · exact inside_pure _

/-- An element is parsed into the field that it is one of. -/
theorem parseElem_value {e : Element} (h : HoldsAt mem pos e.body) :
    (parseElem mesh e.id pos e.body.length).value mem = some f ↔ f.Of mesh e := by
  rw [parseElem]
  by_cases hvendor : e.id = wlanEidVendorSpecific
  · rw [if_pos hvendor, parseVendorSpecific_value h]
    constructor
    · rintro ⟨hf, hlead⟩
      refine ⟨?_, hvendor.trans hf.symm, hlead⟩
      cases f
      case preq | prep | perr | rann => exact absurd hf (by decide)
      all_goals trivial
    · rintro ⟨-, hid, hlead⟩
      exact ⟨hid.symm.trans hvendor, hlead⟩
  · rw [if_neg hvendor, value_pure, fieldOf_eq_some_iff hvendor]
    constructor
    · rintro ⟨hbuilt, hid⟩
      refine ⟨hbuilt, hid, [], ?_, List.nil_prefix⟩
      rw [leads_of_ne (by rwa [← hid])]
      exact List.mem_singleton_self []
    · rintro ⟨hbuilt, hid, -⟩
      exact ⟨hbuilt, hid⟩

end Kinds

/-- The bytes are exactly the elements of a list. -/
structure Listed (mem : ℕ → BitVec 8) (start len : ℕ) (l : List Element) : Prop where
  length_eq : (encode l).length = len
  holds : HoldsAt mem start (encode l)

/-- What is recorded for a field: the body of the last of its elements, or what was there before
if there is none. -/
def Recorded (mesh : Bool) (pos : ℕ) (l : List Element) (f : Field)
    (before after : Option (ℕ × ℕ)) : Prop :=
  (∃ front e behind, l = front ++ e :: behind ∧ f.Of mesh e ∧ (∀ x ∈ behind, ¬f.Of mesh x) ∧
    after = some (pos + (encode front).length + 2, e.body.length)) ∨
  ((∀ x ∈ l, ¬f.Of mesh x) ∧ after = before)

section Loop

variable {mem : ℕ → BitVec 8} {mesh : Bool} {pos left unknown : ℕ} {elems : Elems}

theorem parseLoop_inside {a n : ℕ} (ha : a ≤ pos) (hn : pos + left = a + n) :
    (parseLoop mesh pos left unknown elems).Inside mem a n := by
  fun_induction parseLoop mesh pos left unknown elems with
  | case1 pos left unknown elems hleft ihsome ihnone =>
    rw [inside_cell_bind, inside_cell_bind]
    refine ⟨by omega, by omega, ?_⟩
    by_cases hcut : left - 2 < (mem (pos + 1)).toNat
    · rw [if_pos hcut]
      exact inside_pure _
    · rw [if_neg hcut, inside_bind]
      refine ⟨parseElem_inside (by omega) (by omega), ?_⟩
      cases (parseElem mesh (mem pos) (pos + 2) (mem (pos + 1)).toNat).value mem with
      | some f => exact ihsome (mem (pos + 1)) f (by omega) (by omega)
      | none => exact ihnone (mem (pos + 1)) (by omega) (by omega)
  | case2 pos left unknown elems hleft hne => exact inside_pure _
  | case3 pos left unknown elems hleft hne => exact inside_pure _

/-- The turn of the loop at a whole element. -/
theorem parseLoop_value (hleft : 2 ≤ left) (hlen : (mem (pos + 1)).toNat ≤ left - 2) :
    (parseLoop mesh pos left unknown elems).value mem =
      match (parseElem mesh (mem pos) (pos + 2) (mem (pos + 1)).toNat).value mem with
      | some f => (parseLoop mesh (pos + 2 + (mem (pos + 1)).toNat)
          (left - 2 - (mem (pos + 1)).toNat) unknown
          (Function.update elems f (some (pos + 2, (mem (pos + 1)).toNat)))).value mem
      | none => (parseLoop mesh (pos + 2 + (mem (pos + 1)).toNat)
          (left - 2 - (mem (pos + 1)).toNat) (unknown + 1) elems).value mem := by
  rw [parseLoop, if_pos hleft, value_cell_bind, value_cell_bind, if_neg (by omega), value_bind]
  cases (parseElem mesh (mem pos) (pos + 2) (mem (pos + 1)).toNat).value mem <;> rfl

theorem listed_elementAt {l : List Element} (hleft : (mem (pos + 1)).toNat + 2 ≤ left)
    (h : Listed mem (pos + 2 + (mem (pos + 1)).toNat) (left - 2 - (mem (pos + 1)).toNat) l) :
    Listed mem pos left (elementAt mem pos :: l) := by
  have hlen := h.length_eq
  refine ⟨?_, ?_⟩
  · rw [encode_cons, List.length_append, length_bytes, length_elementAt]
    omega
  · rw [holdsAt_encode_cons, length_elementAt]
    refine ⟨holdsAt_elementAt mem pos, ?_⟩
    rw [show pos + ((mem (pos + 1)).toNat + 2) = pos + 2 + (mem (pos + 1)).toNat by omega]
    exact h.holds

theorem parseLoop_accepts (h : ((parseLoop mesh pos left unknown elems).value mem).1 ≠ .failed) :
    ∃ l, Listed mem pos left l := by
  fun_induction parseLoop mesh pos left unknown elems with
  | case1 pos left unknown elems hleft ihsome ihnone =>
    by_cases hcut : left - 2 < (mem (pos + 1)).toNat
    · rw [value_cell_bind, value_cell_bind, if_pos hcut] at h
      exact absurd rfl h
    · rw [value_cell_bind, value_cell_bind, if_neg hcut, value_bind] at h
      cases hkind : (parseElem mesh (mem pos) (pos + 2) (mem (pos + 1)).toNat).value mem with
      | some f =>
        rw [hkind] at h
        obtain ⟨l, hl⟩ := ihsome (mem (pos + 1)) f h
        exact ⟨_, listed_elementAt (by omega) hl⟩
      | none =>
        rw [hkind] at h
        obtain ⟨l, hl⟩ := ihnone (mem (pos + 1)) h
        exact ⟨_, listed_elementAt (by omega) hl⟩
  | case2 pos left unknown elems hleft hne => exact absurd rfl h
  | case3 pos left unknown elems hleft hne =>
    have hzero : left = 0 := by simpa using hne
    exact ⟨[], hzero.symm, holdsAt_nil mem pos⟩

theorem recorded_cons {e : Element} {l : List Element} {f : Field} {r r' : Option (ℕ × ℕ)}
    {after : Option (ℕ × ℕ)} (hof : f.Of mesh e → r' = some (pos + 2, e.body.length))
    (hnot : ¬f.Of mesh e → r' = r)
    (h : Recorded mesh (pos + (e.body.length + 2)) l f r' after) :
    Recorded mesh pos (e :: l) f r after := by
  rcases h with ⟨front, x, behind, rfl, hx, hbehind, rfl⟩ | ⟨hl, rfl⟩
  · refine Or.inl ⟨e :: front, x, behind, rfl, hx, hbehind, ?_⟩
    rw [encode_cons, List.length_append, length_bytes]
    congr 2
    omega
  · by_cases he : f.Of mesh e
    · exact Or.inl ⟨[], e, l, rfl, he, hl, hof he⟩
    · refine Or.inr ⟨?_, hnot he⟩
      intro x hx
      rcases List.mem_cons.mp hx with rfl | hx
      · exact he
      · exact hl x hx

/-- Over a list of elements the loop records the last of each field, and counts those that are of
none. -/
theorem parseLoop_listed (mesh : Bool) (unknown : ℕ) (elems : Elems) {l : List Element}
    (h : Listed mem pos left l) :
    ((parseLoop mesh pos left unknown elems).value mem).1 ≠ .failed ∧
    (((parseLoop mesh pos left unknown elems).value mem).1 = .ok ↔
      unknown = 0 ∧ ∀ e ∈ l, ∃ f : Field, f.Of mesh e) ∧
    ∀ f, Recorded mesh pos l f (elems f)
      (((parseLoop mesh pos left unknown elems).value mem).2 f) := by
  induction l generalizing pos left unknown elems with
  | nil =>
    have hlen := h.length_eq
    rw [encode_nil, List.length_nil] at hlen
    rw [parseLoop, if_neg (by omega), if_neg (by simp [← hlen]), value_pure]
    refine ⟨?_, ?_, fun f => Or.inr ⟨by simp, rfl⟩⟩
    · dsimp only
      split_ifs <;> decide
    · by_cases hu : unknown = 0 <;> simp [hu]
  | cons e l ih =>
    obtain ⟨he, hrest⟩ := holdsAt_encode_cons.mp h.holds
    obtain ⟨hid, hbody, hholds⟩ := holdsAt_bytes he
    have hlen := h.length_eq
    rw [encode_cons, List.length_append, length_bytes] at hlen
    have hlisted : Listed mem (pos + 2 + e.body.length) (left - 2 - e.body.length) l := by
      refine ⟨by omega, ?_⟩
      rwa [show pos + 2 + e.body.length = pos + (e.body.length + 2) by omega]
    rw [parseLoop_value (by omega) (by omega), hid, hbody]
    rw [show pos + 2 + e.body.length = pos + (e.body.length + 2) by omega] at hlisted ⊢
    cases hkind : (parseElem mesh e.id (pos + 2) e.body.length).value mem with
    | some f =>
      have hf : f.Of mesh e := (parseElem_value hholds).mp hkind
      obtain ⟨hnot, hok, hrec⟩ :=
        ih unknown (Function.update elems f (some (pos + 2, e.body.length))) hlisted
      refine ⟨hnot, hok.trans ?_, fun g => recorded_cons ?_ ?_ (hrec g)⟩
      · simp only [List.forall_mem_cons]
        exact and_congr_right fun _ => ⟨fun h => ⟨⟨f, hf⟩, h⟩, fun h => h.2⟩
      · intro hg
        obtain rfl : f = g := Option.some.inj (hkind.symm.trans ((parseElem_value hholds).mpr hg))
        exact Function.update_self ..
      · intro hg
        refine Function.update_of_ne ?_ ..
        rintro rfl
        exact hg hf
    | none =>
      have hunknown : ∀ f : Field, ¬f.Of mesh e := by
        intro f hf
        rw [(parseElem_value hholds).mpr hf] at hkind
        cases hkind
      obtain ⟨hnot, hok, hrec⟩ := ih (unknown + 1) elems hlisted
      refine ⟨hnot, hok.trans ?_, fun g => recorded_cons ?_ (fun _ => rfl) (hrec g)⟩
      · simp only [List.forall_mem_cons]
        exact iff_of_false (fun h => absurd h.1 (by omega))
          fun h => (hunknown _ h.2.1.choose_spec).elim
      · intro hg
        exact absurd hg (hunknown g)

end Loop

/-- What a successful parse of a list of elements gives: each field is the last of its elements,
and lies inside the input. -/
structure Parsed (mesh : Bool) (start len : ℕ) (l : List Element) (elems : Elems) : Prop where
  recorded : ∀ f, Recorded mesh start l f none (elems f)
  inside : ∀ f p n, elems f = some (p, n) → start ≤ p ∧ p + n ≤ start + len

theorem Recorded.inside {mem : ℕ → BitVec 8} {mesh : Bool} {start len p n : ℕ} {l : List Element}
    {f : Field} (hl : Listed mem start len l) (h : Recorded mesh start l f none (some (p, n))) :
    start ≤ p ∧ p + n ≤ start + len := by
  rcases h with ⟨front, e, behind, rfl, -, -, hplace⟩ | ⟨-, hnone⟩
  · have hlen := hl.length_eq
    rw [encode_append, encode_cons, List.length_append, List.length_append, length_bytes] at hlen
    cases hplace
    omega
  · cases hnone

/-- The parser reads the input only; it fails exactly on bytes that are not a list of elements,
and of a list it records the last element of each field. -/
theorem parse_elems_spec (mem : ℕ → BitVec 8) (mesh : Bool) (start len : ℕ) :
    (rtwIeee80211ParseElems mesh start len).Inside mem start len ∧
    (((rtwIeee80211ParseElems mesh start len).value mem).1 = .failed ↔
      ¬∃ l, Listed mem start len l) ∧
    ∀ l, Listed mem start len l →
      Parsed mesh start len l ((rtwIeee80211ParseElems mesh start len).value mem).2 ∧
      (((rtwIeee80211ParseElems mesh start len).value mem).1 = .ok ↔
        ∀ e ∈ l, ∃ f : Field, f.Of mesh e) := by
  refine ⟨parseLoop_inside le_rfl rfl, ⟨?_, ?_⟩, ?_⟩
  · rintro hfailed ⟨l, hl⟩
    exact (parseLoop_listed mesh 0 (fun _ => none) hl).1 hfailed
  · intro hnone
    by_contra hne
    exact hnone (parseLoop_accepts hne)
  · intro l hl
    obtain ⟨-, hok, hrec⟩ := parseLoop_listed mesh 0 (fun _ => none) hl
    refine ⟨⟨hrec, ?_⟩, hok.trans (and_iff_right rfl)⟩
    intro f p n hsome
    have hf := hrec f
    rw [show ((parseLoop mesh start len 0 fun _ => none).value mem).2 f = some (p, n) from hsome]
      at hf
    exact hf.inside hl

end Rtl8821cu.ElemsParse
