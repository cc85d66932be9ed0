import Rtl8821cu.IeRemove

/-! The rates of a network are filtered by the wireless mode (`core/rtw_ieee80211.c`). -/
namespace Rtl8821cu.RateFilter
open Store Elements Ies Move AbsorbSsid IeRemove

def supportedratesIe : BitVec 8 := 1

def extSupportedratesIe : BitVec 8 := 50

/-- `NDIS_802_11_LENGTH_RATES_EX`. -/
def ndisLengthRatesEx : ℕ := 16

def beaconIeOffset : ℕ := 12

def basicRateMask : BitVec 8 := 0x80

def wifiCckrates : List (BitVec 8) := [0x02, 0x04, 0x0b, 0x16].map (· ||| basicRateMask)

def wifiOfdmrates : List (BitVec 8) := [0x0c, 0x12, 0x18, 0x24, 0x30, 0x48, 0x60, 0x6c]

def basicRateOfdm : List (BitVec 8) := [0x0c, 0x18, 0x30].map (· ||| basicRateMask)

/-- The loop over a table of rates; the basic rate flag is not compared. -/
def isRateIn (table : List (BitVec 8)) (rate : BitVec 8) : Bool :=
  table.any fun r => r &&& 0x7f == rate &&& 0x7f

def rtwIsCckRate : BitVec 8 → Bool := isRateIn wifiCckrates

def rtwIsOfdmRate : BitVec 8 → Bool := isRateIn wifiOfdmrates

def rtwIsBasicRateOfdm : BitVec 8 → Bool := isRateIn basicRateOfdm

/-- `CCK` and `OFDM` of `RATE_SECTION`. -/
inductive RateSection
  | cck
  | ofdm

/-- A rate is one of those to keep. -/
def RateSection.keeps : RateSection → BitVec 8 → Bool
  | .cck => rtwIsCckRate
  | .ofdm => rtwIsOfdmRate

/-- What is used of `WLAN_BSSID_EX` here. -/
structure Network extends BssidEx where
  dsConfig : ℕ
  supportedRates : List (BitVec 8)

/-- What the loop of `rtw_filter_suppport_rateie` writes to `new_rate`. -/
def newRate (keep : RateSection) (rates : List (BitVec 8)) : List (BitVec 8) :=
  (rates.filter keep.keeps).map fun rate =>
    if rtwIsBasicRateOfdm rate then rate ||| basicRateMask else rate

/-- `rtw_filter_suppport_rateie`. More rates than `new_rate` holds are a memory fault, as is a move
of a negative length. -/
def rtwFilterSuppportRateie (network : Network) (keep : RateSection) : Option Network :=
  match rtwGetIe network.ies beaconIeOffset supportedratesIe
      (network.ieLength - beaconIeOffset) with
  | none => some network
  | some (p, ieOrilen) =>
    let rates := newRate keep (load network.ies (p + 2) ieOrilen)
    let idx := rates.length
    let remainIes := p + 2 + ieOrilen
    if ndisLengthRatesEx < idx ∨ network.ieLength < remainIes then none
    else
      let ies := Function.update network.ies (p + 1) (BitVec.ofNat 8 idx)
      let ies := store ies (p + 2) rates
      let ies := memmove ies (p + 2 + idx) remainIes (network.ieLength - remainIes)
      some { network with ies := ies, ieLength := network.ieLength - (ieOrilen - idx) }

def wireless11b : BitVec 32 := 1

/-- `rtw_set_supported_rate`, by the values of `enum NETWORK_TYPE`. -/
def rtwSetSupportedRate (mode : BitVec 32) : List (BitVec 8) :=
  let rates :=
    if mode = 0x01 then wifiCckrates
    else if mode ∈ [0x02, 0x04, 0x10, 0x14, 0x44] then wifiOfdmrates
    else if mode ∈ [0x03, 0x0a, 0x08, 0x0b] then wifiCckrates ++ wifiOfdmrates
    else []
  rates ++ List.replicate (ndisLengthRatesEx - rates.length) 0

/-- How `rtw_update_rate_bymode` ends. -/
def setType (network : Network) (networkType : BitVec 8) : Network × BitVec 8 :=
  ({ network with supportedRates := rtwSetSupportedRate (networkType.setWidth 32) }, networkType)

/-- `rtw_update_rate_bymode`; the removal of the extended element gets `turns` turns. -/
def rtwUpdateRateBymode (turns : ℕ) (network : Network) (mode : BitVec 32) :
    Option (Network × BitVec 8) :=
  let networkIelen := network.ieLength
  if mode = wireless11b then
    match rtwFilterSuppportRateie network .cck with
    | none => none
    | some network =>
      match rtwGetIe network.ies beaconIeOffset extSupportedratesIe
          (network.ieLength - beaconIeOffset) with
      | none => some (setType network 0x01)
      | some (_, ieLen) =>
        match rtwIesRemoveIe turns network.ies 0 networkIelen beaconIeOffset extSupportedratesIe
            none with
        | none => none
        | some r => some (setType
            { network with ies := r.mem, ieLength := network.ieLength - ieLen } 0x01)
  else if 14 < network.dsConfig then
    (rtwFilterSuppportRateie network .ofdm).map (setType · 0x04)
  else if mode &&& wireless11b = 0 then
    (rtwFilterSuppportRateie network .ofdm).map (setType · 0x02)
  else some (setType network 0x03)

/-- The IE area of the network has these elements behind the fixed bytes, and ends with them. -/
structure Network.Has (network : Network) (l : List Element) : Prop where
  length : network.ieLength = beaconIeOffset + (encode l).length
  holds : HoldsAt network.ies beaconIeOffset (encode l)

/-- The section whose rates the mode allows, when it does not allow all. -/
def rateSection (mode : BitVec 32) (dsConfig : ℕ) : Option RateSection :=
  if mode = wireless11b then some .cck
  else if 14 < dsConfig ∨ mode &&& wireless11b = 0 then some .ofdm
  else none

def allowed (keep : Option RateSection) (rate : BitVec 8) : Bool :=
  keep.all (·.keeps rate)

/-- A Supported Rates or Extended Supported Rates element. -/
def IsRates (e : Element) : Prop := e.id = supportedratesIe ∨ e.id = extSupportedratesIe

instance : DecidablePred IsRates := fun _ => inferInstanceAs (Decidable (_ ∨ _))

/-- The element, with its rates without their basic rate flags. -/
def unflagged (e : Element) : Element :=
  if IsRates e then
    ⟨e.id, e.body.map (· &&& 0x7f), (List.length_map _).trans_le e.length_le⟩
  else e

def allowedOnly (keep : Option RateSection) (e : Element) : Element :=
  ⟨e.id, e.body.filter (allowed keep), (List.length_filter_le ..).trans e.length_le⟩

/-- The element with the rates that are allowed, and no extended element without a rate. -/
def reduce (keep : Option RateSection) (e : Element) : Option Element :=
  if IsRates e then
    if e.id = extSupportedratesIe ∧ (allowedOnly keep e).body = [] then none
    else some (unflagged (allowedOnly keep e))
  else some e

/-- The update ends without a memory fault, and behind it the IE area has the same elements in order,
the rates reduced to those that the mode allows. -/
def RatesReduced (turns : ℕ) (network : Network) (mode : BitVec 32) (l : List Element) : Prop :=
  ∃ network' networkType l', rtwUpdateRateBymode turns network mode =
      some (network', networkType) ∧
    l'.map unflagged = l.filterMap (reduce (rateSection mode network.dsConfig)) ∧
    network'.Has l' ∧ ∀ i < beaconIeOffset, network'.ies i = network.ies i

/-- Where a section is kept it has at most 16 of the supported rates; there is no extended element
in `WIRELESS_11B`, and else it has allowed rates only, and one at least. -/
def Reducible (mode : BitVec 32) (dsConfig : ℕ) (l : List Element) : Prop :=
  (∀ e ∈ l, e.id = supportedratesIe → ∀ keep ∈ rateSection mode dsConfig,
    (e.body.filter keep.keeps).length ≤ ndisLengthRatesEx) ∧
  ∀ e ∈ l, e.id = extSupportedratesIe → mode ≠ wireless11b ∧ e.body ≠ [] ∧
    ∀ rate ∈ e.body, allowed (rateSection mode dsConfig) rate

section Filter

variable {network : Network} {l front behind : List Element} {e : Element} {keep : RateSection}

theorem length_newRate (keep : RateSection) (rates : List (BitVec 8)) :
    (newRate keep rates).length = (rates.filter keep.keeps).length :=
  List.length_map _

theorem or_mask_and (rate : BitVec 8) : (rate ||| basicRateMask) &&& 0x7f = rate &&& 0x7f := by
  rw [BitVec.and_or_distrib_right, show basicRateMask &&& 0x7f = 0#8 by decide, BitVec.or_zero]

/-- Marking basic rates changes their flags only. -/
theorem newRate_unflagged (keep : RateSection) (rates : List (BitVec 8)) :
    (newRate keep rates).map (· &&& 0x7f) = (rates.filter keep.keeps).map (· &&& 0x7f) := by
  rw [newRate, List.map_map]
  refine List.map_congr_left fun rate _ => ?_
  rw [Function.comp_apply]
  split_ifs
  · exact or_mask_and rate
  · rfl

/-- The element with the rates that are kept, when it is the Supported Rates element. -/
def filtered (keep : RateSection) (e : Element) : Element :=
  if e.id = supportedratesIe then
    ⟨e.id, newRate keep e.body,
      (length_newRate keep e.body).trans_le ((List.length_filter_le ..).trans e.length_le)⟩
  else e

theorem filtered_of_ne (h : e.id ≠ supportedratesIe) : filtered keep e = e := if_neg h

theorem map_filtered_of_ne (h : ∀ e ∈ l, e.id ≠ supportedratesIe) : l.map (filtered keep) = l := by
  nth_rewrite 2 [← List.map_id l]
  exact List.map_congr_left fun e he => filtered_of_ne (h e he)

/-- The memory behind the changes to the Supported Rates element at `p`. -/
theorem holdsAt_filtered {m : ℕ → BitVec 8} {p : ℕ} {rates : List (BitVec 8)}
    (h : HoldsAt m beaconIeOffset (encode (front ++ e :: behind)))
    (hp : p = beaconIeOffset + (encode front).length) (hle : rates.length ≤ e.body.length)
    (hle' : rates.length ≤ 255) :
    HoldsAt (memmove (store (Function.update m (p + 1) (BitVec.ofNat 8 rates.length)) (p + 2) rates)
      (p + 2 + rates.length) (p + 2 + e.body.length) (encode behind).length) beaconIeOffset
      (encode (front ++ ⟨e.id, rates, hle'⟩ :: behind)) ∧
    ∀ i < p + 1, memmove (store (Function.update m (p + 1) (BitVec.ofNat 8 rates.length)) (p + 2)
      rates) (p + 2 + rates.length) (p + 2 + e.body.length) (encode behind).length i = m i := by
  rw [encode_split] at h ⊢
  obtain ⟨hfront, hrest⟩ := holdsAt_append.mp h
  rw [← hp] at hrest
  obtain ⟨helem, hbehind⟩ := holdsAt_append.mp hrest
  rw [length_bytes, ← Nat.add_assoc] at hbehind
  have hstore : store (Function.update m (p + 1) (BitVec.ofNat 8 rates.length)) (p + 2) rates =
      store m (p + 1) (BitVec.ofNat 8 rates.length :: rates) := rfl
  have hmoved : HoldsAt (store m (p + 1) (BitVec.ofNat 8 rates.length :: rates))
      (p + 2 + e.body.length) (encode behind) := by
    refine HoldsAt.store_disjoint (by rwa [Nat.add_right_comm]) (Or.inr ?_)
    rw [List.length_cons]
    omega
  rw [hstore, memmove, load_of_holdsAt hmoved]
  have hkeep : ∀ i < p + 1, store (store m (p + 1) (BitVec.ofNat 8 rates.length :: rates))
      (p + 2 + rates.length) (encode behind) i = m i := by
    intro i hi
    rw [store_of_lt _ _ (by omega), store_of_lt _ _ hi]
  refine ⟨?_, hkeep⟩
  rw [holdsAt_append, ← hp, holdsAt_append]
  refine ⟨hfront.congr fun i _ hi => hkeep i (by omega), ?_, ?_⟩
  · rw [Element.bytes, holdsAt_cons]
    refine ⟨?_, (holdsAt_store _ _ _).store_behind ?_ _⟩
    · rw [hkeep p (by omega)]
      exact (holdsAt_bytes helem).1
    · rw [List.length_cons]
      omega
  · rw [length_bytes, show p + (rates.length + 2) = p + 2 + rates.length by omega]
    exact holdsAt_store _ _ _

/-- The one Supported Rates element of a list. -/
theorem split_rates (h : l.countP (·.id = supportedratesIe) = 1) :
    ∃ front e behind, l = front ++ e :: behind ∧ e.id = supportedratesIe ∧
      (∀ x ∈ front, x.id ≠ supportedratesIe) ∧ ∀ x ∈ behind, x.id ≠ supportedratesIe := by
  rcases first_split (fun e : Element => e.id = supportedratesIe) l with
    hnone | ⟨front, e, behind, rfl, hfront, he⟩
  · rw [List.countP_eq_zero.mpr (by simpa using hnone)] at h
    cases h
  · refine ⟨front, e, behind, rfl, he, hfront, ?_⟩
    rw [List.countP_append, List.countP_cons_of_pos (by simpa using he)] at h
    have hbehind := List.countP_eq_zero.mp (show behind.countP (·.id = supportedratesIe) = 0 by omega)
    simpa using hbehind

/-- The filter finds the element and reads its rates. -/
theorem rtwFilterSuppportRateie_of_has (h : network.Has (front ++ e :: behind))
    (hfront : ∀ x ∈ front, x.id ≠ supportedratesIe) (he : e.id = supportedratesIe) :
    rtwFilterSuppportRateie network keep =
      if ndisLengthRatesEx < (newRate keep e.body).length then none
      else
        let p := beaconIeOffset + (encode front).length
        some { network with
          ies := memmove (store (Function.update network.ies (p + 1)
              (BitVec.ofNat 8 (newRate keep e.body).length)) (p + 2) (newRate keep e.body))
            (p + 2 + (newRate keep e.body).length) (p + 2 + e.body.length) (encode behind).length
          ieLength := network.ieLength - (e.body.length - (newRate keep e.body).length) } := by
  have hlen := h.length
  have hholds := h.holds
  rw [encode_split, List.length_append, List.length_append, length_bytes] at hlen
  have hsearch : rtwGetIe network.ies beaconIeOffset supportedratesIe
      (network.ieLength - beaconIeOffset) = some (_, e.body.length) :=
    rtwGetIe_of_holdsAt hholds hfront he (by omega)
  rw [encode_split] at hholds
  obtain ⟨-, hrest⟩ := holdsAt_append.mp hholds
  obtain ⟨helem, -⟩ := holdsAt_append.mp hrest
  have hload := load_of_holdsAt (holdsAt_bytes helem).2.2
  rw [rtwFilterSuppportRateie, hsearch]
  dsimp only
  rw [hload]
  by_cases hmany : ndisLengthRatesEx < (newRate keep e.body).length
  · rw [if_pos (Or.inl hmany), if_pos hmany]
  · rw [if_neg (by omega), if_neg hmany, show network.ieLength -
      (beaconIeOffset + (encode front).length + 2 + e.body.length) = (encode behind).length by omega]

/-- Too many rates to keep are a memory fault. -/
theorem rtwFilterSuppportRateie_none (h : network.Has l)
    (hrates : l.countP (·.id = supportedratesIe) = 1)
    (hmany : ∃ e ∈ l, e.id = supportedratesIe ∧
      ndisLengthRatesEx < (e.body.filter keep.keeps).length) :
    rtwFilterSuppportRateie network keep = none := by
  obtain ⟨front, e, behind, rfl, he, hfront, hbehind⟩ := split_rates hrates
  obtain ⟨x, hx, hid, hlen⟩ := hmany
  rcases List.mem_append.mp hx with hx | hx
  · exact absurd hid (hfront x hx)
  · rcases List.mem_cons.mp hx with rfl | hx
    · rw [rtwFilterSuppportRateie_of_has h hfront he, if_pos (by rwa [length_newRate])]
    · exact absurd hid (hbehind x hx)

theorem rtwFilterSuppportRateie_some (h : network.Has l)
    (hrates : l.countP (·.id = supportedratesIe) = 1)
    (hfew : ∀ e ∈ l, e.id = supportedratesIe →
      (e.body.filter keep.keeps).length ≤ ndisLengthRatesEx) :
    ∃ ies, rtwFilterSuppportRateie network keep = some { network with
        ies := ies, ieLength := beaconIeOffset + (encode (l.map (filtered keep))).length } ∧
      HoldsAt ies beaconIeOffset (encode (l.map (filtered keep))) ∧
      ∀ i < beaconIeOffset, ies i = network.ies i := by
  obtain ⟨front, e, behind, rfl, he, hfront, hbehind⟩ := split_rates hrates
  have hle : (newRate keep e.body).length ≤ ndisLengthRatesEx := by
    rw [length_newRate]
    exact hfew e (by simp) he
  have hless : (newRate keep e.body).length ≤ e.body.length := by
    rw [length_newRate]
    exact List.length_filter_le ..
  have hmap : (front ++ e :: behind).map (filtered keep) =
      front ++ ⟨e.id, newRate keep e.body, hle.trans (by decide)⟩ :: behind := by
    rw [List.map_append, List.map_cons, map_filtered_of_ne hfront, map_filtered_of_ne hbehind,
      filtered, if_pos he]
  obtain ⟨hholds, hkeep⟩ := holdsAt_filtered h.holds rfl hless (hle.trans (by decide))
  refine ⟨_, ?_, by rw [hmap]; exact hholds, fun i hi => hkeep i (by omega)⟩
  rw [rtwFilterSuppportRateie_of_has h hfront he, if_neg (by omega), hmap, h.length, encode_split,
    encode_split]
  simp only [List.length_append, length_bytes]
  rw [show beaconIeOffset + ((encode front).length + (e.body.length + 2 + (encode behind).length)) -
      (e.body.length - (newRate keep e.body).length) = beaconIeOffset + ((encode front).length +
        ((newRate keep e.body).length + 2 + (encode behind).length)) by omega]

/-- The elements behind the filter of a section, when one is kept. -/
def filteredBy (keep : Option RateSection) (e : Element) : Element :=
  match keep with
  | none => e
  | some keep => filtered keep e

theorem filteredBy_id {keep : Option RateSection} : (filteredBy keep e).id = e.id := by
  cases keep with
  | none => rfl
  | some keep =>
    rw [filteredBy, filtered]
    split_ifs <;> rfl

theorem filteredBy_of_ne {keep : Option RateSection} (h : e.id ≠ supportedratesIe) :
    filteredBy keep e = e := by
  cases keep with
  | none => rfl
  | some keep => exact filtered_of_ne h

/-- The supported rates are reduced to those that are allowed, but for their flags. -/
theorem unflagged_filteredBy {keep : Option RateSection} (h : e.id = supportedratesIe) :
    unflagged (filteredBy keep e) = unflagged (allowedOnly keep e) := by
  cases keep with
  | none =>
    have hall : e.body.filter (allowed none) = e.body := List.filter_eq_self.mpr fun _ _ => rfl
    simp only [filteredBy, allowedOnly, hall]
  | some keep =>
    have hrates := newRate_unflagged keep e.body
    simp only [filteredBy, filtered, unflagged, IsRates, allowedOnly, h, true_or, if_true]
    simp only [hrates]
    rfl

theorem length_unflagged (e : Element) : (unflagged e).body.length = e.body.length := by
  rw [unflagged]
  split_ifs
  · exact List.length_map _
  · rfl

/-- The filter does what is asked for exactly to the elements that are not extended ones, and to
those with allowed rates only, and one at least. -/
theorem reduce_eq_iff {keep : Option RateSection} :
    reduce keep e = some (unflagged (filteredBy keep e)) ↔
      (e.id = extSupportedratesIe → e.body ≠ [] ∧ ∀ rate ∈ e.body, allowed keep rate) := by
  by_cases hsupp : e.id = supportedratesIe
  · have hext : e.id ≠ extSupportedratesIe := by
      rw [hsupp]
      decide
    have hrates : IsRates e := Or.inl hsupp
    rw [reduce, if_pos hrates, if_neg fun h => hext h.1, unflagged_filteredBy hsupp]
    simp [hext]
  · rw [filteredBy_of_ne hsupp, reduce]
    by_cases hext : e.id = extSupportedratesIe
    · have hrates : IsRates e := Or.inr hext
      rw [if_pos hrates]
      constructor
      · intro h _
        split_ifs at h with hempty
        have hlen := congrArg (fun x : Element => x.body.length) (Option.some.inj h)
        rw [length_unflagged, length_unflagged] at hlen
        refine ⟨?_, List.length_filter_eq_length_iff.mp hlen⟩
        intro hnil
        exact hempty ⟨hext, congrArg (List.filter (allowed keep)) hnil⟩
      · intro h
        obtain ⟨hne, hall⟩ := h hext
        have hself : e.body.filter (allowed keep) = e.body := List.filter_eq_self.mpr hall
        have honly : allowedOnly keep e = e := by simp only [allowedOnly, hself]
        rw [honly, if_neg fun h => hne h.2]
    · have hrates : ¬IsRates e := fun h => h.elim hsupp hext
      rw [if_neg hrates, unflagged, if_neg hrates]
      simp [hext]

/-- What is kept by a function that may leave entries out. -/
theorem map_eq_filterMap_iff {α β : Type} {f : α → β} {g : α → Option β} {l : List α} :
    l.map f = l.filterMap g ↔ ∀ x ∈ l, g x = some (f x) := by
  constructor
  · intro h
    induction l with
    | nil => exact fun x hx => absurd hx List.not_mem_nil
    | cons x l ih =>
      cases hx : g x with
      | none =>
        have hlen := congrArg List.length h
        rw [List.filterMap_cons_none hx, List.length_map, List.length_cons] at hlen
        have := List.length_filterMap_le g l
        omega
      | some y =>
        rw [List.filterMap_cons_some hx, List.map_cons] at h
        obtain ⟨rfl, hl⟩ := List.cons.inj h
        exact List.forall_mem_cons.mpr ⟨hx, ih hl⟩
  · intro h
    induction l with
    | nil => rfl
    | cons x l ih =>
      obtain ⟨hx, hl⟩ := List.forall_mem_cons.mp h
      rw [List.map_cons, List.filterMap_cons_some hx, ih hl]

end Filter

section Update

variable {turns : ℕ} {network : Network} {mode : BitVec 32} {l : List Element}

/-- But for the extended element the update is the filter of the section that is kept. -/
theorem rtwUpdateRateBymode_of_ne (turns : ℕ) (hmode : mode ≠ wireless11b) :
    ∃ networkType, rtwUpdateRateBymode turns network mode =
      ((rateSection mode network.dsConfig).elim (some network)
        (rtwFilterSuppportRateie network)).map (setType · networkType) := by
  rw [rtwUpdateRateBymode, rateSection, if_neg hmode, if_neg hmode]
  by_cases hds : 14 < network.dsConfig
  · rw [if_pos hds, if_pos (Or.inl hds)]
    exact ⟨_, rfl⟩
  · rw [if_neg hds]
    by_cases hb : mode &&& wireless11b = 0
    · rw [if_pos hb, if_pos (Or.inr hb)]
      exact ⟨_, rfl⟩
    · rw [if_neg hb, if_neg fun h => h.elim hds hb]
      exact ⟨_, rfl⟩

theorem rateSection_11b (dsConfig : ℕ) : rateSection wireless11b dsConfig = some .cck := if_pos rfl

/-- Where a section is kept that has too many of the supported rates, the update is a memory
fault. -/
theorem update_none (h : network.Has l) (hrates : l.countP (·.id = supportedratesIe) = 1)
    {keep : RateSection} (hkeep : rateSection mode network.dsConfig = some keep)
    (hmany : ∃ e ∈ l, e.id = supportedratesIe ∧
      ndisLengthRatesEx < (e.body.filter keep.keeps).length) :
    rtwUpdateRateBymode turns network mode = none := by
  have hfault := rtwFilterSuppportRateie_none h hrates hmany
  by_cases hmode : mode = wireless11b
  · subst hmode
    rw [rateSection_11b] at hkeep
    cases hkeep
    rw [rtwUpdateRateBymode, if_pos rfl, hfault]
  · obtain ⟨networkType, hupdate⟩ := rtwUpdateRateBymode_of_ne turns hmode
    rw [hupdate, hkeep, Option.elim_some, hfault, Option.map_none]

/-- The networks behind the filter. -/
theorem filter_has (h : network.Has l) (hrates : l.countP (·.id = supportedratesIe) = 1)
    {keep : Option RateSection} (hfew : ∀ e ∈ l, e.id = supportedratesIe → ∀ k ∈ keep,
      (e.body.filter k.keeps).length ≤ ndisLengthRatesEx) :
    ∃ network' : Network, keep.elim (some network) (rtwFilterSuppportRateie network) =
        some network' ∧
      network'.Has (l.map (filteredBy keep)) ∧ ∀ i < beaconIeOffset, network'.ies i =
        network.ies i := by
  cases keep with
  | none =>
    refine ⟨network, rfl, ?_, fun _ _ => rfl⟩
    rwa [show l.map (filteredBy none) = l from List.map_id l]
  | some keep =>
    obtain ⟨ies, hrun, hholds, hfixed⟩ := rtwFilterSuppportRateie_some h hrates
      fun e he hid => hfew e he hid keep rfl
    exact ⟨_, hrun, ⟨rfl, hholds⟩, hfixed⟩

/-- Without an extended element to remove, the update is the filter. -/
theorem update_some (turns : ℕ) (h : network.Has l) (hrates : l.countP (·.id = supportedratesIe) = 1)
    (hfew : ∀ e ∈ l, e.id = supportedratesIe → ∀ keep ∈ rateSection mode network.dsConfig,
      (e.body.filter keep.keeps).length ≤ ndisLengthRatesEx)
    (hext : mode = wireless11b → ∀ e ∈ l, e.id ≠ extSupportedratesIe) :
    ∃ network' networkType,
      rtwUpdateRateBymode turns network mode = some (network', networkType) ∧
      network'.Has (l.map (filteredBy (rateSection mode network.dsConfig))) ∧
      ∀ i < beaconIeOffset, network'.ies i = network.ies i := by
  obtain ⟨network', hrun, hhas, hfixed⟩ := filter_has h hrates hfew
  by_cases hmode : mode = wireless11b
  · subst hmode
    rw [rateSection_11b] at hrun hhas ⊢
    have hnone : ∀ e ∈ l.map (filteredBy (some .cck)), e.id ≠ extSupportedratesIe := by
      intro e he
      obtain ⟨x, hx, rfl⟩ := List.mem_map.mp he
      rw [filteredBy_id]
      exact hext rfl x hx
    have hsearch := rtwGetIe_of_none hhas.holds hnone
    refine ⟨{ network' with supportedRates := rtwSetSupportedRate 0x01 }, 0x01, ?_,
      ⟨hhas.length, hhas.holds⟩, hfixed⟩
    rw [Option.elim_some] at hrun
    rw [rtwUpdateRateBymode, if_pos rfl, hrun]
    dsimp only
    rw [hhas.length, Nat.add_sub_cancel_left, hsearch]
    rfl
  · obtain ⟨networkType, hupdate⟩ := rtwUpdateRateBymode_of_ne turns hmode
    refine ⟨(setType network' networkType).1, networkType, ?_, ⟨hhas.length, hhas.holds⟩, hfixed⟩
    rw [hupdate, hrun, Option.map_some]
    rfl

theorem length_encode_unflagged (l : List Element) :
    (encode (l.map unflagged)).length = (encode l).length := by
  induction l with
  | nil => rfl
  | cons e l ih =>
    rw [List.map_cons, encode_cons, encode_cons, List.length_append, List.length_append, ih,
      length_bytes, length_bytes, length_unflagged]

/-- Without an extended element the filter keeps the length that is asked for. -/
theorem length_encode_reduce {keep : Option RateSection} (h : ∀ e ∈ l, e.id ≠ extSupportedratesIe) :
    (encode (l.filterMap (reduce keep))).length = (encode (l.map (filteredBy keep))).length := by
  rw [← length_encode_unflagged (l.map _), List.map_map]
  exact congrArg (fun l => (encode l).length) (map_eq_filterMap_iff.mpr fun e he =>
    reduce_eq_iff.mpr fun hid => absurd hid (h e he)).symm

/-- The update ends without a memory fault only where few rates are kept. -/
theorem few_of_some {r : Network × BitVec 8} (h : network.Has l)
    (hrates : l.countP (·.id = supportedratesIe) = 1)
    (hrun : rtwUpdateRateBymode turns network mode = some r) :
    ∀ e ∈ l, e.id = supportedratesIe → ∀ keep ∈ rateSection mode network.dsConfig,
      (e.body.filter keep.keeps).length ≤ ndisLengthRatesEx := by
  intro e he hid keep hkeep
  by_contra hmany
  rw [update_none h hrates hkeep ⟨e, he, hid, by omega⟩] at hrun
  cases hrun

/-- The removal of the extended element leaves `IELength` two bytes too long. -/
theorem ieLength_of_ext {front behind : List Element} {x : Element} {network' : Network}
    {networkType : BitVec 8} (h : network.Has (front ++ x :: behind))
    (hrates : (front ++ x :: behind).countP (·.id = supportedratesIe) = 1)
    (hfew : ∀ e ∈ front ++ x :: behind, e.id = supportedratesIe → ∀ k ∈ some RateSection.cck,
      (e.body.filter k.keeps).length ≤ ndisLengthRatesEx)
    (hfront : ∀ e ∈ front, e.id ≠ extSupportedratesIe) (hx : x.id = extSupportedratesIe)
    (hrun : rtwUpdateRateBymode turns network wireless11b = some (network', networkType)) :
    network'.ieLength = beaconIeOffset + (encode (front.map (filteredBy (some .cck)))).length + 2 +
      (encode (behind.map (filteredBy (some .cck)))).length := by
  obtain ⟨network₁, hfilter, hhas, -⟩ := filter_has h hrates hfew
  rw [Option.elim_some] at hfilter
  have hsplit : (front ++ x :: behind).map (filteredBy (some .cck)) =
      front.map (filteredBy (some .cck)) ++ x :: behind.map (filteredBy (some .cck)) := by
    rw [List.map_append, List.map_cons, filteredBy_of_ne (by rw [hx]; decide)]
  rw [hsplit] at hhas
  have hlen := hhas.length
  rw [encode_split, List.length_append, List.length_append, length_bytes] at hlen
  have hfront' : ∀ e ∈ front.map (filteredBy (some .cck)), e.id ≠ extSupportedratesIe := by
    intro e he
    obtain ⟨y, hy, rfl⟩ := List.mem_map.mp he
    rw [filteredBy_id]
    exact hfront y hy
  have hsearch : rtwGetIe network₁.ies beaconIeOffset extSupportedratesIe
      (network₁.ieLength - beaconIeOffset) = some (_, x.body.length) :=
    rtwGetIe_of_holdsAt hhas.holds hfront' hx (by omega)
  rw [rtwUpdateRateBymode, if_pos rfl, hfilter] at hrun
  dsimp only at hrun
  rw [hsearch] at hrun
  dsimp only at hrun
  split at hrun
  · cases hrun
  · obtain ⟨rfl, -⟩ := Prod.mk.inj (Option.some.inj hrun)
    dsimp only
    omega

/-- In `WIRELESS_11B` no network with an extended element comes out right. -/
theorem not_reduced_of_ext (h : network.Has l) (hrates : l.countP (·.id = supportedratesIe) = 1)
    (hext : l.countP (·.id = extSupportedratesIe) ≤ 1)
    (hx : ∃ e ∈ l, e.id = extSupportedratesIe) : ¬RatesReduced turns network wireless11b l := by
  rintro ⟨network', networkType, l', hrun, hmap, hhas, -⟩
  rw [rateSection_11b] at hmap
  have hfew := few_of_some h hrates hrun
  rw [rateSection_11b] at hfew
  rcases first_split (fun e : Element => e.id = extSupportedratesIe) l with
    hnone | ⟨front, x, behind, rfl, hfront, hid⟩
  · obtain ⟨x, hmem, hid⟩ := hx
    exact hnone x hmem hid
  · have hbehind : ∀ e ∈ behind, e.id ≠ extSupportedratesIe := by
      rw [List.countP_append, List.countP_cons_of_pos (by simpa using hid)] at hext
      have := List.countP_eq_zero.mp
        (show behind.countP (·.id = extSupportedratesIe) = 0 by omega)
      simpa using this
    have hlen := ieLength_of_ext h hrates hfew hfront hid hrun
    have htotal := congrArg (fun l => (encode l).length) hmap
    rw [length_encode_unflagged, List.filterMap_append, encode_append, List.length_append,
      length_encode_reduce hfront] at htotal
    rw [hhas.length] at hlen
    have hrates' : IsRates x := Or.inr hid
    by_cases hempty : (allowedOnly (some .cck) x).body = []
    · rw [List.filterMap_cons_none (by rw [reduce, if_pos hrates', if_pos ⟨hid, hempty⟩]),
        length_encode_reduce hbehind] at htotal
      omega
    · rw [List.filterMap_cons_some (by rw [reduce, if_pos hrates', if_neg fun h => hempty h.2]),
        encode_cons, List.length_append, length_bytes, length_unflagged,
        length_encode_reduce hbehind] at htotal
      have hpos := List.length_pos_of_ne_nil hempty
      omega

/-- The update keeps the IE area well formed and reduces the rates exactly when no more rates are
kept than the local buffer holds, and the extended element needs no change. -/
theorem rtwUpdateRateBymode_iff (h : network.Has l)
    (hrates : l.countP (·.id = supportedratesIe) = 1)
    (hext : l.countP (·.id = extSupportedratesIe) ≤ 1) :
    RatesReduced turns network mode l ↔ Reducible mode network.dsConfig l := by
  constructor
  · intro hreduced
    have hfew : ∀ e ∈ l, e.id = supportedratesIe → ∀ keep ∈ rateSection mode network.dsConfig,
        (e.body.filter keep.keeps).length ≤ ndisLengthRatesEx := by
      obtain ⟨network', networkType, l', hrun, -⟩ := hreduced
      exact few_of_some h hrates hrun
    have hnot : mode = wireless11b → ∀ e ∈ l, e.id ≠ extSupportedratesIe := by
      rintro rfl e he hid
      exact not_reduced_of_ext h hrates hext ⟨e, he, hid⟩ hreduced
    refine ⟨hfew, fun e he hid => ⟨fun hmode => hnot hmode e he hid, ?_⟩⟩
    obtain ⟨network₁, networkType₁, hrun₁, hhas₁, -⟩ :=
      update_some turns h hrates hfew hnot
    obtain ⟨network', networkType, l', hrun, hmap, hhas, -⟩ := hreduced
    rw [hrun₁] at hrun
    obtain ⟨rfl, -⟩ := Prod.mk.inj (Option.some.inj hrun)
    have hlen := hhas.length
    rw [hhas₁.length] at hlen
    obtain rfl := eq_of_holdsAt hhas₁.holds hhas.holds (by omega)
    rw [List.map_map] at hmap
    exact reduce_eq_iff.mp (map_eq_filterMap_iff.mp hmap e he) hid
  · rintro ⟨hfew, hexts⟩
    obtain ⟨network', networkType, hrun, hhas, hfixed⟩ := update_some turns h hrates hfew
      fun hmode e he hid => (hexts e he hid).1 hmode
    refine ⟨network', networkType, _, hrun, ?_, hhas, hfixed⟩
    rw [List.map_map]
    exact map_eq_filterMap_iff.mpr fun e he => reduce_eq_iff.mpr fun hid => (hexts e he hid).2

end Update

/-- A network with its elements behind twelve fixed bytes. -/
def networkOf (l : List Element) : Network where
  macAddress := Mac.zero
  bssType := 2
  ssid := ⟨[], AbsorbSsid.Ssid.nil_length_le⟩
  ieLength := beaconIeOffset + (encode l).length
  ies := store (fun _ => 0) beaconIeOffset (encode l)
  dsConfig := 6
  supportedRates := List.replicate ndisLengthRatesEx 0

theorem networkOf_has (l : List Element) : (networkOf l).Has l := ⟨rfl, holdsAt_store _ _ _⟩

/-- Rates of 1 and 6 Mbit/s, and an extended element with 54 Mbit/s. -/
def twoRates : List Element := [⟨1, [0x82, 0x0c], by decide⟩, ⟨50, [0x6c], by decide⟩]

theorem twoRates_reduced : RatesReduced 8 (networkOf twoRates) 0x02 twoRates :=
  (rtwUpdateRateBymode_iff (networkOf_has twoRates) (by decide) (by decide)).mpr
    ⟨by decide, by decide⟩

theorem twoRates_not_reduced : (networkOf twoRates).Has twoRates ∧
    ¬RatesReduced 8 (networkOf twoRates) wireless11b twoRates :=
  ⟨networkOf_has twoRates, not_reduced_of_ext (networkOf_has twoRates) (by decide) (by decide)
    ⟨⟨50, [0x6c], by decide⟩, by simp [twoRates], rfl⟩⟩

end Rtl8821cu.RateFilter
