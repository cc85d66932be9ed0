import Rtl8821cu.AbsorbSsid
import Rtl8821cu.TimIe

/-! The elements of the beacon of an access point (`core/rtw_ap.c`): the TIM is brought up to date,
an element is put in, and one is taken out. Places are counted from `IEs` on. -/
namespace Rtl8821cu.BcnEdit
open Store Elements Ies AbsorbSsid TimIe

def fixedIeLength : ℕ := 12

def supportedratesIe : BitVec 8 := 1

def aidBmpLen (maxAid : ℕ) : ℕ := (maxAid + 1) / 8 + if (maxAid + 1) % 8 = 0 then 0 else 1

/-- What is used of `struct sta_priv`; `max_aid` is at most `MACID_NUM_SW_LIMIT`. -/
structure StaPriv where
  maxAid : ℕ
  timBitmap : List (BitVec 8)
  maxAid_le : maxAid ≤ 32
  length_eq : timBitmap.length = aidBmpLen maxAid

/-- A `uint` difference. -/
def uintSub (a b : ℕ) : ℕ := (a + 2 ^ 32 - b) % 2 ^ 32

/-- The end of the routines: what follows is saved if there is memory for it, the element is written
over `dst_ie`, and what was saved is put behind it. -/
def rewriteTail (rtwMalloc : ℕ → Bool) (pnetwork : BssidEx) (dstIe premainderIe remainderIelen : ℕ)
    (ie : List (BitVec 8)) (len : ℕ) : BssidEx :=
  let ies := store pnetwork.ies dstIe ie
  { pnetwork with
    ies :=
      if 0 < remainderIelen ∧ rtwMalloc remainderIelen = true then
        store ies (dstIe + len) (load pnetwork.ies premainderIe remainderIelen)
      else ies
    ieLength := (dstIe + len + remainderIelen) % 2 ^ 32 }

/-- The length of an element that `rtw_get_ie` finds, with its header. -/
def ieLen (pnetwork : BssidEx) (index : BitVec 8) : ℕ :=
  match rtwGetIe pnetwork.ies fixedIeLength index (pnetwork.ieLength - fixedIeLength) with
  | some (_, tmpLen) => tmpLen + 2
  | none => 0

/-- The place of a new TIM, behind the SSID, the rates and a DS parameter set. -/
def timOffset (pnetwork : BssidEx) : ℕ :=
  fixedIeLength + ieLen pnetwork ssidIe + ieLen pnetwork supportedratesIe + 3

def updateBcntim (rtwMalloc : ℕ → Bool) (pstapriv : StaPriv) (pnetwork : BssidEx) : BssidEx :=
  let (len, ie) := rtwSetTimIe 0 1 pstapriv.timBitmap
  let append (dstIe timIelen : ℕ) : BssidEx :=
    rewriteTail rtwMalloc pnetwork dstIe (dstIe + timIelen)
      (uintSub pnetwork.ieLength (dstIe + timIelen)) ie len.toNat
  match rtwGetIe pnetwork.ies fixedIeLength wlanEidTim (pnetwork.ieLength - fixedIeLength) with
  | some (p, timIelen) =>
    if 0 < timIelen then append p (timIelen + 2) else append (timOffset pnetwork) 0
  | none => append (timOffset pnetwork) 0

/-- `p`, `ielen` and `bmatch` of `rtw_add_bcn_ie`. -/
structure Scan where
  p : Option ℕ
  ielen : ℕ
  bmatch : Bool

/-- The loop of `rtw_add_bcn_ie`. -/
def addBcnLoop (pnetwork : BssidEx) (index : BitVec 8) (i : ℕ) (s : Scan) : Scan :=
  if i < pnetwork.ieLength then
    let length := (pnetwork.ies (i + 1)).toNat
    if index < pnetwork.ies i then s
    else if pnetwork.ies i = index then ⟨some i, length, true⟩
    else addBcnLoop pnetwork index (i + (length + 2)) ⟨some i, length, false⟩
  else s
termination_by pnetwork.ieLength - i

def rtwAddBcnIe (rtwMalloc : ℕ → Bool) (pnetwork : BssidEx) (index : BitVec 8)
    (data : List (BitVec 8)) : BssidEx :=
  let s := addBcnLoop pnetwork index fixedIeLength ⟨none, 0, false⟩
  match s.p with
  | none => pnetwork
  | some p =>
    if 0 < s.ielen then
      let premainderIe := p + (s.ielen + 2)
      rewriteTail rtwMalloc pnetwork (if s.bmatch then p else premainderIe) premainderIe
        (uintSub pnetwork.ieLength premainderIe)
        (index :: BitVec.ofNat 8 data.length :: data) (2 + data.length)
    else pnetwork

def rtwRemoveBcnIe (rtwMalloc : ℕ → Bool) (pnetwork : BssidEx) (index : BitVec 8) : BssidEx :=
  match rtwGetIe pnetwork.ies fixedIeLength index (pnetwork.ieLength - fixedIeLength) with
  | none => pnetwork
  | some (p, ielen) =>
    if 0 < ielen then
      rewriteTail rtwMalloc pnetwork p (p + (ielen + 2))
        (uintSub pnetwork.ieLength (p + (ielen + 2))) [] 0
    else pnetwork

/-- The area is a list of elements behind the fixed fields. -/
structure Lists (pnetwork : BssidEx) (l : List Element) : Prop where
  ieLength : pnetwork.ieLength = fixedIeLength + (encode l).length
  length_le : pnetwork.ieLength ≤ maxIeSz
  holds : HoldsAt pnetwork.ies fixedIeLength (encode l)

/-- The area has become a list of elements, behind the same fixed fields. -/
structure Yields (pnetwork pnetwork' : BssidEx) (r : List Element) : Prop where
  lists : Lists pnetwork' r
  fixed : ∀ i < fixedIeLength, pnetwork'.ies i = pnetwork.ies i

/-- The first element with an id, and those around it. -/
structure First (l : List Element) (index : BitVec 8) (front : List Element) (old : Element)
    (behind : List Element) : Prop where
  split : l = front ++ old :: behind
  front : ∀ x ∈ front, x.id ≠ index
  old : old.id = index

/-- The element is in the place of the first one with its id, or between two others if there was
none. -/
def Put (l : List Element) (e : Element) (r : List Element) : Prop :=
  (∃ front old behind, First l e.id front old behind ∧ r = front ++ e :: behind) ∨
    (∀ x ∈ l, x.id ≠ e.id) ∧ ∃ front behind, l = front ++ behind ∧ r = front ++ e :: behind

/-- The first element with the id is gone. -/
def Dropped (l : List Element) (index : BitVec 8) (r : List Element) : Prop :=
  (∃ front old behind, First l index front old behind ∧ r = front ++ behind) ∨
    (∀ x ∈ l, x.id ≠ index) ∧ r = l

/-- What stands behind the new element: what was saved, or what is there anyway. -/
def moved (rtwMalloc : ℕ → Bool) (pnetwork : BssidEx) (dst premainderIe n : ℕ) : List (BitVec 8) :=
  if rtwMalloc n then load pnetwork.ies premainderIe n else load pnetwork.ies dst n

/-- What follows can be saved, or needs not be moved. -/
def Backed (rtwMalloc : ℕ → Bool) (pnetwork : BssidEx) (dst premainderIe n : ℕ) : Prop :=
  rtwMalloc n = true ∨ load pnetwork.ies dst n = load pnetwork.ies premainderIe n

section Lists

variable {rtwMalloc : ℕ → Bool} {n : BssidEx} {l front behind r : List Element} {old e : Element}
  {index : BitVec 8}

theorem moved_eq_iff {dst premainderIe k : ℕ} :
    moved rtwMalloc n dst premainderIe k = load n.ies premainderIe k ↔
      Backed rtwMalloc n dst premainderIe k := by
  rw [moved, Backed]
  split_ifs with h
  · exact iff_of_true rfl (Or.inl h)
  · rw [or_iff_right h]

theorem length_moved (dst premainderIe k : ℕ) :
    (moved rtwMalloc n dst premainderIe k).length = k := by
  rw [moved]
  split_ifs <;> exact length_load ..

theorem Lists.yields_self_iff (h : Lists n l) : Yields n n r ↔ r = l := by
  constructor
  · rintro ⟨⟨hlen, -, hr⟩, -⟩
    have := h.ieLength
    exact eq_of_holdsAt hr h.holds (by omega)
  · rintro rfl
    exact ⟨h, fun _ _ ↦ rfl⟩

theorem First.unique {front' behind' : List Element} {old' : Element}
    (h : First l index front old behind) (h' : First l index front' old' behind') :
    front = front' ∧ old = old' ∧ behind = behind' := by
  obtain ⟨rfl, hfront, hold⟩ := h
  obtain ⟨hsplit, hfront', hold'⟩ := h'
  induction front generalizing front' with
  | nil =>
    cases front' with
    | nil =>
      obtain ⟨rfl, rfl⟩ := List.cons.inj hsplit
      exact ⟨rfl, rfl, rfl⟩
    | cons x front' =>
      obtain ⟨rfl, -⟩ := List.cons.inj hsplit
      exact absurd hold (hfront' old (by simp))
  | cons x front ih =>
    cases front' with
    | nil =>
      obtain ⟨rfl, -⟩ := List.cons.inj hsplit
      exact absurd hold' (hfront x (by simp))
    | cons y front' =>
      obtain ⟨rfl, htail⟩ := List.cons.inj hsplit
      obtain ⟨rfl, rest⟩ := ih (fun z hz ↦ hfront z (by simp [hz])) htail
        fun z hz ↦ hfront' z (by simp [hz])
      exact ⟨rfl, rest⟩

theorem First.put_iff (h : First l e.id front old behind) :
    Put l e r ↔ r = front ++ e :: behind := by
  constructor
  · rintro (⟨front', old', behind', h', rfl⟩ | ⟨hnone, -⟩)
    · obtain ⟨rfl, -, rfl⟩ := h.unique h'
      rfl
    · exact absurd h.old (hnone old (by rw [h.split]; simp))
  · rintro rfl
    exact Or.inl ⟨front, old, behind, h, rfl⟩

theorem First.dropped_iff (h : First l index front old behind) :
    Dropped l index r ↔ r = front ++ behind := by
  constructor
  · rintro (⟨front', old', behind', h', rfl⟩ | ⟨hnone, -⟩)
    · obtain ⟨rfl, -, rfl⟩ := h.unique h'
      rfl
    · exact absurd h.old (hnone old (by rw [h.split]; simp))
  · rintro rfl
    exact Or.inl ⟨front, old, behind, h, rfl⟩

theorem not_first_of_none (h : ∀ x ∈ l, x.id ≠ index) : ¬First l index front old behind :=
  fun hfirst ↦ h old (by rw [hfirst.split]; simp) hfirst.old

theorem put_iff_of_none (h : ∀ x ∈ l, x.id ≠ e.id) :
    Put l e r ↔ ∃ front behind, l = front ++ behind ∧ r = front ++ e :: behind := by
  rw [Put, or_iff_right, and_iff_right h]
  rintro ⟨front, old, behind, hfirst, -⟩
  exact not_first_of_none h hfirst

theorem dropped_iff_of_none (h : ∀ x ∈ l, x.id ≠ index) : Dropped l index r ↔ r = l := by
  rw [Dropped, or_iff_right, and_iff_right h]
  rintro ⟨front, old, behind, hfirst, -⟩
  exact not_first_of_none h hfirst

/-- There is a first element with an id, or none at all. -/
theorem first_or_none (l : List Element) (index : BitVec 8) :
    (∀ x ∈ l, x.id ≠ index) ∨ ∃ front old behind, First l index front old behind := by
  rcases first_split (fun e : Element ↦ e.id = index) l with h | ⟨front, e, behind, hl, hf, he⟩
  · exact Or.inl h
  · exact Or.inr ⟨front, e, behind, hl, hf, he⟩

end Lists

end Rtl8821cu.BcnEdit
