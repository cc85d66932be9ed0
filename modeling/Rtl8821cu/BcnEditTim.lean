import Rtl8821cu.BcnEditIff

/-! When the TIM in the beacon is brought up to date, and when the beacon is edited well. -/
namespace Rtl8821cu.BcnEdit
open Store Elements Ies AbsorbSsid TimIe

/-- The octets of the bitmap that are in the beacon. -/
theorem StaPriv.window (sta : StaPriv) :
    Window sta.timBitmap (sentOctets sta.timBitmap).1 (sentOctets sta.timBitmap).2 := by
  apply sentOctets_window
  rw [sta.length_eq, aidBmpLen]
  split_ifs <;> omega

theorem StaPriv.length_le (sta : StaPriv) : sta.timBitmap.length ≤ 5 := by
  have := sta.maxAid_le
  rw [sta.length_eq, aidBmpLen]
  split_ifs <;> omega

/-- The TIM that is current. -/
def StaPriv.tim (sta : StaPriv) : Tim :=
  timOf 0 1 sta.timBitmap sta.window (sta.length_le.trans (by decide))

/-- The TIM that says what the bitmap does. -/
def Current (sta : StaPriv) (t : Tim) : Prop :=
  Encodes 0 1 sta.timBitmap (rtwSetTimIe 0 1 sta.timBitmap) t

/-- The length of the first element with an id, with its header. -/
def lenOf (l : List Element) (index : BitVec 8) : ℕ :=
  match l.find? (·.id = index) with
  | some e => e.body.length + 2
  | none => 0

/-- Where a new TIM is put, from the start of the list on. -/
def newTimAt (l : List Element) : ℕ := lenOf l ssidIe + lenOf l supportedratesIe + 3

section Tim

variable {rtwMalloc : ℕ → Bool} {sta : StaPriv} {n : BssidEx} {l front behind r : List Element}
  {old e : Element} {index : BitVec 8}

theorem current_tim (sta : StaPriv) : Current sta sta.tim := by
  have hle := sta.length_le
  have hlt := sta.window.lt
  exact encodes_timOf sta.window _ (by omega)

/-- The current TIM is the only one. -/
theorem Current.element_eq {t : Tim} (h : Current sta t) : t.element = sta.tim.element := by
  have hbytes := h.wellFormed.symm.trans (current_tim sta).wellFormed
  have hsingle : encode [t.element] = encode [sta.tim.element] := by
    rw [encode_cons, encode_cons, hbytes]
  exact (List.cons.inj (encode_injective hsingle)).1

theorem length_tim (sta : StaPriv) : sta.tim.element.bytes.length ≤ 10 := by
  have hle := sta.length_le
  have hlt := sta.window.lt
  have hlen := @length_timOf 0 1 _ _ _ sta.window (hle.trans (by decide))
  rw [length_element]
  show List.length sta.tim.partialBitmap + 5 ≤ 10
  rw [StaPriv.tim, hlen]
  omega

theorem rtwSetTimIe_tim (sta : StaPriv) :
    rtwSetTimIe 0 1 sta.timBitmap =
      (BitVec.ofNat 8 sta.tim.element.bytes.length, sta.tim.element.bytes) :=
  rtwSetTimIe_eq sta.window _

theorem lenOf_first (hfirst : First l index front old behind) :
    lenOf l index = old.body.length + 2 := by
  have hfind : l.find? (·.id = index) = some old := by
    rw [hfirst.split, List.find?_append, List.find?_eq_none.mpr, Option.none_or,
      List.find?_cons_of_pos (by simpa using hfirst.old)]
    intro x hx
    simpa using hfirst.front x hx
  rw [lenOf, hfind]

theorem lenOf_none (hnone : ∀ x ∈ l, x.id ≠ index) : lenOf l index = 0 := by
  have hfind : l.find? (·.id = index) = none := by
    rw [List.find?_eq_none]
    intro x hx
    simpa using hnone x hx
  rw [lenOf, hfind]

theorem ieLen_eq (h : Lists n l) (index : BitVec 8) : ieLen n index = lenOf l index := by
  rcases first_or_none l index with hnone | ⟨front, old, behind, hfirst⟩
  · rw [ieLen, rtwGetIe_none h hnone, lenOf_none hnone]
  · rw [ieLen, rtwGetIe_first h hfirst, lenOf_first hfirst]

theorem timOffset_eq (h : Lists n l) : timOffset n = fixedIeLength + newTimAt l := by
  rw [timOffset, ieLen_eq h, ieLen_eq h, newTimAt]
  omega

/-- Two elements of a list have their lengths in it. -/
theorem lenOf_add_le {index' : BitVec 8} (hne : index ≠ index') :
    lenOf l index + lenOf l index' ≤ (encode l).length := by
  induction l with
  | nil => exact le_rfl
  | cons x l ih =>
    have hcons : ∀ i, lenOf (x :: l) i = if x.id = i then x.body.length + 2 else lenOf l i := by
      intro i
      rw [lenOf, List.find?_cons]
      split_ifs with hx
      · simp [hx]
      · simp [hx, lenOf]
    rw [hcons, hcons, encode_cons, List.length_append, length_bytes]
    have h1 : lenOf l index ≤ (encode l).length := by omega
    have h2 : lenOf l index' ≤ (encode l).length := by omega
    split_ifs with hx hx'
    · exact absurd (hx.symm.trans hx') hne
    · omega
    · omega
    · omega

theorem newTimAt_le (l : List Element) : newTimAt l ≤ (encode l).length + 3 :=
  Nat.add_le_add_right (lenOf_add_le (by decide)) 3

/-- `update_BCNTIM` without a TIM that it finds. -/
def insertTim (rtwMalloc : ℕ → Bool) (sta : StaPriv) (n : BssidEx) (l : List Element) : BssidEx :=
  rewriteTail rtwMalloc n (fixedIeLength + newTimAt l) (fixedIeLength + newTimAt l)
    (uintSub n.ieLength (fixedIeLength + newTimAt l)) sta.tim.element.bytes
    sta.tim.element.bytes.length

theorem toNat_length_tim (sta : StaPriv) :
    (BitVec.ofNat 8 sta.tim.element.bytes.length).toNat = sta.tim.element.bytes.length := by
  have := length_tim sta
  rw [BitVec.toNat_ofNat]
  omega

theorem updateBcntim_first (h : Lists n l) (hfirst : First l wlanEidTim front old behind) :
    updateBcntim rtwMalloc sta n =
      if 0 < old.body.length then
        rewriteTail rtwMalloc n (fixedIeLength + (encode front).length)
          (fixedIeLength + (encode front).length + (old.body.length + 2)) (encode behind).length
          sta.tim.element.bytes sta.tim.element.bytes.length
      else insertTim rtwMalloc sta n l := by
  rw [updateBcntim, rtwGetIe_first h hfirst, rtwSetTimIe_tim]
  dsimp only
  rw [uintSub_first h hfirst, toNat_length_tim, timOffset_eq h, Nat.add_zero]
  rfl

theorem updateBcntim_none (h : Lists n l) (hnone : ∀ x ∈ l, x.id ≠ wlanEidTim) :
    updateBcntim rtwMalloc sta n = insertTim rtwMalloc sta n l := by
  rw [updateBcntim, rtwGetIe_none h hnone, rtwSetTimIe_tim]
  dsimp only
  rw [toNat_length_tim, timOffset_eq h, Nat.add_zero]
  rfl

/-- The area gets longer by a TIM. -/
theorem insertTim_ieLength (h : Lists n l) :
    (insertTim rtwMalloc sta n l).ieLength =
      fixedIeLength + (encode l).length + sta.tim.element.bytes.length := by
  have hoff := newTimAt_le l
  have htim := length_tim sta
  have hle := h.length_le
  have hlen := h.ieLength
  rw [maxIeSz] at hle
  show (fixedIeLength + newTimAt l + sta.tim.element.bytes.length +
    (n.ieLength + 2 ^ 32 - (fixedIeLength + newTimAt l)) % 2 ^ 32) % 2 ^ 32 = _
  omega

/-- What is in front of the new TIM stays. -/
theorem insertTim_of_lt {i : ℕ} (hi : i < fixedIeLength + newTimAt l) :
    (insertTim rtwMalloc sta n l).ies i = n.ies i :=
  rewriteTail_of_lt hi

theorem insertTim_holdsAt :
    HoldsAt (insertTim rtwMalloc sta n l).ies (fixedIeLength + newTimAt l)
      sta.tim.element.bytes := by
  dsimp only [insertTim, rewriteTail]
  split_ifs
  · exact (holdsAt_store _ _ _).store_behind le_rfl _
  · exact holdsAt_store _ _ _

/-- A memory does not hold the TIM at two places that are so close. -/
theorem tim_not_shifted {mem : ℕ → BitVec 8} {a g : ℕ} (h : HoldsAt mem a sta.tim.element.bytes)
    (h' : HoldsAt mem (a + g) sta.tim.element.bytes) (hpos : 0 < g) (hg : g ≤ 3) : False := by
  have hcnt : mem (a + 2) = 0 := h 2 0 rfl
  have hperiod : mem (a + 3) = 1 := h 3 1 rfl
  obtain ⟨hid, hbody, -⟩ := holdsAt_bytes h'
  have hlen : 0 < sta.tim.element.body.length := Nat.succ_pos _
  obtain rfl | rfl | rfl : g = 1 ∨ g = 2 ∨ g = 3 := by omega
  · rw [Nat.add_assoc, hcnt] at hbody
    exact absurd hbody hlen.ne
  · rw [hcnt] at hid
    change (0 : BitVec 8) = wlanEidTim at hid
    exact absurd hid (by decide)
  · rw [hperiod] at hid
    change (1 : BitVec 8) = wlanEidTim at hid
    exact absurd hid (by decide)

/-- Behind the end of the list a TIM makes no list. -/
theorem insertTim_behind_end (h : Lists n l) (hnone : ∀ x ∈ l, x.id ≠ wlanEidTim)
    (hoff : (encode l).length < newTimAt l) (hput : Put l sta.tim.element r) :
    ¬Yields n (insertTim rtwMalloc sta n l) r := by
  rintro ⟨⟨-, -, hr⟩, -⟩
  obtain ⟨front, behind, rfl, rfl⟩ := (put_iff_of_none hnone).mp hput
  rw [encode_append, holdsAt_append, encode_cons, holdsAt_append] at hr
  have htim := hr.2.1
  have hold := h.holds
  rw [encode_append, holdsAt_append] at hold
  rw [encode_append, List.length_append] at hoff
  cases behind with
  | cons x behind =>
    rw [encode_cons, List.length_append, length_bytes] at hoff
    have hid := (holdsAt_bytes (holdsAt_encode_cons.mp hold.2).1).1
    have hid' := (holdsAt_bytes htim).1
    rw [insertTim_of_lt (by omega), hid] at hid'
    exact hnone x (by simp) hid'
  | nil =>
    have hbound := newTimAt_le (front ++ [])
    rw [encode_append, List.length_append] at hbound
    rw [encode_nil, List.length_nil] at hoff hbound
    have hnew : HoldsAt (insertTim rtwMalloc sta n (front ++ [])).ies _ _ := insertTim_holdsAt
    obtain ⟨g, hg⟩ := Nat.exists_eq_add_of_le hoff.le
    rw [hg, Nat.add_zero, ← Nat.add_assoc] at hnew
    exact tim_not_shifted htim hnew (by omega) (by omega)

/-- The new TIM reads as one between two elements: it is put there, or it is put into an element
whose rest reads like the TIM. -/
def Insertable (rtwMalloc : ℕ → Bool) (sta : StaPriv) (n : BssidEx) (l : List Element) : Prop :=
  ∃ front behind, l = front ++ behind ∧ Fits (front ++ sta.tim.element :: behind) ∧
    ((encode front).length = newTimAt l ∧
        BackedAt rtwMalloc n front [] sta.tim.element.bytes.length behind ∨
      newTimAt l < (encode front).length ∧
        (encode front).drop (newTimAt l) ++ (sta.tim.element.bytes ++ encode behind) =
          sta.tim.element.bytes ++ moved rtwMalloc n
            (fixedIeLength + newTimAt l + sta.tim.element.bytes.length)
            (fixedIeLength + newTimAt l) ((encode l).length - newTimAt l))

theorem insertTim_eq (h : Lists n l) (hoff : newTimAt l ≤ (encode l).length) :
    insertTim rtwMalloc sta n l =
      rewriteTail rtwMalloc n (fixedIeLength + newTimAt l) (fixedIeLength + newTimAt l)
        ((encode l).length - newTimAt l) sta.tim.element.bytes sta.tim.element.bytes.length := by
  have hle := h.length_le
  have hlen := h.ieLength
  rw [maxIeSz] at hle
  rw [insertTim, show uintSub n.ieLength (fixedIeLength + newTimAt l) =
    (encode l).length - newTimAt l by rw [uintSub]; omega]

/-- A list that has bytes put into it has them in an element or behind it, not in front of it. -/
theorem le_of_encode_eq {off : ℕ} {tail : List (BitVec 8)} (hnone : ∀ x ∈ l, x.id ≠ e.id)
    (hl : l = front ++ behind) (hoff : off ≤ (encode l).length)
    (h : encode (front ++ e :: behind) = (encode l).take off ++ (e.bytes ++ tail)) :
    off ≤ (encode front).length := by
  by_contra hlt
  rw [hl, encode_append, List.length_append] at hoff
  cases behind with
  | nil =>
    rw [encode_nil, List.length_nil] at hoff
    omega
  | cons x behind =>
    obtain ⟨k, hk⟩ := Nat.exists_eq_add_of_lt (not_le.mp hlt)
    have htake : (encode l).take off =
        encode front ++
          x.id :: (BitVec.ofNat 8 x.body.length :: x.body ++ encode behind).take k := by
      rw [hl, encode_append, List.take_append, List.take_of_length_le (by omega), encode_cons,
        show off - (encode front).length = k + 1 by omega]
      rfl
    rw [htake, encode_append, encode_cons, List.append_assoc, List.append_cancel_left_eq] at h
    exact hnone x (by rw [hl]; simp) (List.cons.inj h).1.symm

/-- Bytes that are put into the front part of a list. -/
theorem encode_eq_iff {off : ℕ} {tail : List (BitVec 8)} (hl : l = front ++ behind)
    (hoff : off ≤ (encode front).length) :
    encode (front ++ e :: behind) = (encode l).take off ++ (e.bytes ++ tail) ↔
      (encode front).drop off ++ (e.bytes ++ encode behind) = e.bytes ++ tail := by
  rw [hl, encode_append, encode_append, encode_cons, List.take_append_of_le_length hoff]
  conv_lhs => rw [← List.take_append_drop off (encode front), List.append_assoc,
    List.take_append_drop, List.append_cancel_left_eq]

/-- What comes of a new TIM. -/
theorem insertTim_iff (h : Lists n l) (hnone : ∀ x ∈ l, x.id ≠ wlanEidTim) :
    (∃ r, Put l sta.tim.element r ∧ Yields n (insertTim rtwMalloc sta n l) r) ↔
      Insertable rtwMalloc sta n l := by
  have htim := length_tim sta
  rcases lt_or_ge (encode l).length (newTimAt l) with hoff | hoff
  · refine iff_of_false ?_ ?_
    · rintro ⟨r, hput, hyields⟩
      exact insertTim_behind_end h hnone hoff hput hyields
    · rintro ⟨front, behind, rfl, -, hcase⟩
      rw [encode_append, List.length_append] at hoff
      omega
  · have hyields_iff := fun r ↦ @rewriteTail_yields_iff rtwMalloc n l r sta.tim.element.bytes
      (newTimAt l) (fixedIeLength + newTimAt l) ((encode l).length - newTimAt l) h hoff
      (Nat.sub_le _ _) (by omega)
    have hbetween : ∀ front behind, l = front ++ behind → (encode front).length = newTimAt l →
        ((∃ r, Put l sta.tim.element r ∧ Yields n (insertTim rtwMalloc sta n l) r) ↔
          BackedAt rtwMalloc n front [] sta.tim.element.bytes.length behind ∧
            Fits (front ++ sta.tim.element :: behind)) := by
      intro front behind hl hat
      have hrest : (encode l).length - newTimAt l = (encode behind).length := by
        rw [hl, encode_append, List.length_append, ← hl]
        omega
      rw [insertTim_eq h hoff, hrest, ← hat]
      exact insert_yields_iff h hl hnone
    constructor
    · rintro ⟨r, hput, hyields⟩
      obtain ⟨front, behind, hl, rfl⟩ := (put_iff_of_none hnone).mp hput
      have hall := hyields
      rw [insertTim_eq h hoff] at hyields
      obtain ⟨hbytes, hfits⟩ := (hyields_iff _).mp hyields
      have hle := le_of_encode_eq hnone hl hoff hbytes
      refine ⟨front, behind, hl, hfits, ?_⟩
      rcases Nat.eq_or_lt_of_le hle with hat | hin
      · exact Or.inl ⟨hat.symm, ((hbetween front behind hl hat.symm).mp ⟨_, hput, hall⟩).1⟩
      · exact Or.inr ⟨hin, (encode_eq_iff hl hle).mp hbytes⟩
    · rintro ⟨front, behind, hl, hfits, ⟨hat, hbacked⟩ | ⟨hin, hbytes⟩⟩
      · exact (hbetween front behind hl hat).mpr ⟨hbacked, hfits⟩
      · refine ⟨_, (put_iff_of_none hnone).mpr ⟨front, behind, hl, rfl⟩, ?_⟩
        rw [insertTim_eq h hoff]
        exact (hyields_iff _).mpr ⟨(encode_eq_iff hl hin.le).mpr hbytes, hfits⟩

/-- A TIM with a body is there, or a new one can be put in. -/
def Updatable (rtwMalloc : ℕ → Bool) (sta : StaPriv) (n : BssidEx) (l : List Element) : Prop :=
  (∃ front old behind, First l wlanEidTim front old behind ∧ old.body ≠ [] ∧
    BackedAt rtwMalloc n front [old] sta.tim.element.bytes.length behind ∧
    Fits (front ++ sta.tim.element :: behind)) ∨
  (∀ x ∈ l, x.id ≠ wlanEidTim) ∧ Insertable rtwMalloc sta n l

/-- What `update_BCNTIM` leaves behind. -/
theorem updateBcntim_iff (h : Lists n l) :
    (∃ t, Current sta t ∧ ∃ r, Put l t.element r ∧ Yields n (updateBcntim rtwMalloc sta n) r) ↔
      Updatable rtwMalloc sta n l := by
  have hcurrent : (∃ t, Current sta t ∧ ∃ r, Put l t.element r ∧
      Yields n (updateBcntim rtwMalloc sta n) r) ↔
      ∃ r, Put l sta.tim.element r ∧ Yields n (updateBcntim rtwMalloc sta n) r := by
    constructor
    · rintro ⟨t, ht, hput⟩
      rwa [ht.element_eq] at hput
    · exact fun hput ↦ ⟨sta.tim, current_tim sta, hput⟩
  rw [hcurrent]
  rcases first_or_none l wlanEidTim with hnone | ⟨front, old, behind, hfirst⟩
  · rw [updateBcntim_none h hnone, insertTim_iff h hnone, Updatable, or_iff_right,
      and_iff_right hnone]
    rintro ⟨front, old, behind, hfirst, -⟩
    exact not_first_of_none hnone hfirst
  · have hrhs : Updatable rtwMalloc sta n l ↔ old.body ≠ [] ∧
        BackedAt rtwMalloc n front [old] sta.tim.element.bytes.length behind ∧
        Fits (front ++ sta.tim.element :: behind) := by
      constructor
      · rintro (⟨front', old', behind', hfirst', hcond⟩ | ⟨hnone, -⟩)
        · obtain ⟨rfl, rfl, rfl⟩ := hfirst.unique hfirst'
          exact hcond
        · exact absurd hfirst (not_first_of_none hnone)
      · exact fun hcond ↦ Or.inl ⟨front, old, behind, hfirst, hcond⟩
    rw [hrhs, updateBcntim_first h hfirst]
    by_cases hbody : old.body = []
    · rw [if_neg (by simp [hbody])]
      refine iff_of_false ?_ fun hcond ↦ hcond.1 hbody
      rintro ⟨r, hput, ⟨hlen, -, -⟩, -⟩
      obtain rfl := (First.put_iff hfirst).mp hput
      rw [insertTim_ieLength h, hfirst.split, encode_append, encode_append, encode_cons,
        encode_cons] at hlen
      simp only [List.length_append, length_bytes old, hbody] at hlen
      omega
    · rw [if_pos (List.length_pos_iff.mpr hbody), and_iff_right hbody]
      exact put_yields_iff h hfirst

end Tim

/-- There is nothing to take out, or the element has a body. -/
def Removable (rtwMalloc : ℕ → Bool) (n : BssidEx) (l : List Element) (index : BitVec 8) : Prop :=
  (∀ x ∈ l, x.id ≠ index) ∨ ∃ front old behind, First l index front old behind ∧
    old.body ≠ [] ∧ BackedAt rtwMalloc n front [old] 0 behind

/-- `update_BCNTIM` brings the TIM up to date and leaves the other elements. -/
def TimUpdated (rtwMalloc : ℕ → Bool) (sta : StaPriv) (n : BssidEx) (l : List Element) : Prop :=
  ∃ t, Current sta t ∧ ∃ r, Put l t.element r ∧ Yields n (updateBcntim rtwMalloc sta n) r

/-- `rtw_add_bcn_ie` puts the element in and leaves the others. -/
def IeAdded (rtwMalloc : ℕ → Bool) (n : BssidEx) (l : List Element) (e : Element) : Prop :=
  ∃ r, Put l e r ∧ Yields n (rtwAddBcnIe rtwMalloc n e.id e.body) r

/-- `rtw_remove_bcn_ie` takes the first element with the id out and leaves the others. -/
def IeRemoved (rtwMalloc : ℕ → Bool) (n : BssidEx) (l : List Element) (index : BitVec 8) : Prop :=
  ∃ r, Dropped l index r ∧ Yields n (rtwRemoveBcnIe rtwMalloc n index) r

/-- The beacon is edited well in exactly these cases. -/
theorem bcn_edit_iff (rtwMalloc : ℕ → Bool) (sta : StaPriv) (n : BssidEx) (l : List Element)
    (h : Lists n l) :
    (TimUpdated rtwMalloc sta n l ↔ Updatable rtwMalloc sta n l) ∧
    ((l.Pairwise fun x y ↦ x.id ≤ y.id) → ∀ e,
      (IeAdded rtwMalloc n l e ↔ Addable rtwMalloc n l e)) ∧
    ∀ index, IeRemoved rtwMalloc n l index ↔ Removable rtwMalloc n l index :=
  ⟨updateBcntim_iff h, fun hsorted e ↦ rtwAddBcnIe_iff h hsorted e, rtwRemoveBcnIe_iff h⟩

/-- A record whose elements are given. -/
def beacon (l : List Element) : BssidEx :=
  ⟨Mac.zero, 0, ⟨[], AbsorbSsid.Ssid.nil_length_le⟩, fixedIeLength + (encode l).length,
    store (fun _ ↦ 0) fixedIeLength (encode l)⟩

theorem beacon_lists {l : List Element} (hl : fixedIeLength + (encode l).length ≤ maxIeSz) :
    Lists (beacon l) l :=
  ⟨rfl, hl, holdsAt_store _ _ _⟩

/-- A name, one rate and a channel. -/
def smallBeacon : List Element :=
  [⟨0, [0x61, 0x70], by decide⟩, ⟨1, [0x82], by decide⟩, ⟨3, [6], by decide⟩]

/-- The multicast bit is set. -/
def groupOnly : StaPriv := ⟨7, [1], by decide, rfl⟩

theorem smallBeacon_edited :
    TimUpdated (fun _ ↦ true) groupOnly (beacon smallBeacon) smallBeacon ∧
      IeAdded (fun _ ↦ true) (beacon smallBeacon) smallBeacon ⟨42, [4], by decide⟩ ∧
      IeRemoved (fun _ ↦ true) (beacon smallBeacon) smallBeacon 3 := by
  have hlists : Lists (beacon smallBeacon) smallBeacon := beacon_lists (by decide)
  obtain ⟨htim, hadd, hremove⟩ := bcn_edit_iff (fun _ ↦ true) groupOnly _ smallBeacon hlists
  refine ⟨htim.mpr (Or.inr ⟨by decide, smallBeacon, [], rfl, ?_, ?_⟩),
    (hadd (by decide) _).mpr (Or.inr ⟨smallBeacon.take 2, smallBeacon[2], [], rfl, by decide,
      by decide, nofun, by decide, Or.inl rfl, ?_⟩),
    (hremove 3).mpr (Or.inr ⟨smallBeacon.take 2, smallBeacon[2], [], ⟨rfl, by decide, rfl⟩,
      by decide, Or.inl rfl⟩)⟩
  · have htim := length_tim groupOnly
    have hlen : (encode smallBeacon).length = 10 := rfl
    rw [Fits, encode_append, encode_cons, List.length_append, List.length_append, encode_nil,
      List.length_nil, hlen, fixedIeLength, maxIeSz]
    omega
  · exact Or.inl ⟨by decide, Or.inl rfl⟩
  · rw [Fits]
    decide

/-- A beacon that hides its name. -/
def hiddenBeacon : List Element := [⟨0, [], Elements.nil_length_le⟩]

/-- The rates are not put in behind the empty name. -/
theorem hiddenBeacon_not_added :
    ¬IeAdded (fun _ ↦ true) (beacon hiddenBeacon) hiddenBeacon ⟨1, [0x82], by decide⟩ := by
  have hlists : Lists (beacon hiddenBeacon) hiddenBeacon := beacon_lists (by decide)
  rintro ⟨r, hput, hyields⟩
  rw [@rtwAddBcnIe_between _ _ _ [] [] ⟨1, [0x82], by decide⟩ ⟨0, [], by decide⟩ hlists rfl nofun
    (by decide) nofun, if_neg (by decide)] at hyields
  obtain rfl := hlists.yields_self_iff.mp hyields
  exact not_put_self (by decide) hput

end Rtl8821cu.BcnEdit
