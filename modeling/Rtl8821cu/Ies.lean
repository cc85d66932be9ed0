import Rtl8821cu.LibElements

/-! Elements of frames: how one is written, and the search for one (`core/rtw_ieee80211.c`). -/
namespace Rtl8821cu.Ies
open Store Elements

def wlanEidVendorSpecific : BitVec 8 := 221

def rtwSetIe (index : BitVec 8) (source : List (BitVec 8)) : List (BitVec 8) :=
  index :: BitVec.ofNat 8 source.length :: source

/-- The loop of `rtw_get_ie` from `p = pbuf + i` on. -/
def getIeLoop (mem : ℕ → BitVec 8) (pbuf : ℕ) (index : BitVec 8) (limit i : ℕ) : Option (ℕ × ℕ) :=
  let p := pbuf + i
  if mem p = index then some (p, (mem (p + 1)).toNat)
  else
    let tmp := (mem (p + 1)).toNat
    if limit ≤ i + (tmp + 2) then none else getIeLoop mem pbuf index limit (i + (tmp + 2))
termination_by limit - i

/-- `rtw_get_ie`: the place of the element and the length of its body. -/
def rtwGetIe (mem : ℕ → BitVec 8) (pbuf : ℕ) (index : BitVec 8) (limit : ℕ) : Option (ℕ × ℕ) :=
  if limit < 1 then none else getIeLoop mem pbuf index limit 0

theorem getIeLoop_some {mem : ℕ → BitVec 8} {pbuf limit i p len : ℕ} {index : BitVec 8}
    (h : getIeLoop mem pbuf index limit i = some (p, len)) :
    mem p = index ∧ len = (mem (p + 1)).toNat := by
  fun_induction getIeLoop mem pbuf index limit i with
  | case1 i q hq =>
    obtain ⟨rfl, rfl⟩ : q = p ∧ _ = len := by simpa using h
    exact ⟨hq, rfl⟩
  | case2 => cases h
  | case3 i q hq tmp hlt ih => exact ih h

/-- What is found is an element of the id, with its length. -/
theorem rtwGetIe_some {mem : ℕ → BitVec 8} {pbuf limit p len : ℕ} {index : BitVec 8}
    (h : rtwGetIe mem pbuf index limit = some (p, len)) :
    mem p = index ∧ len = (mem (p + 1)).toNat := by
  rw [rtwGetIe] at h
  split_ifs at h
  exact getIeLoop_some h

section Found

variable {mem : ℕ → BitVec 8} {pbuf limit : ℕ} {index : BitVec 8} {front behind : List Element}
  {e : Element}

theorem getIeLoop_of_holdsAt {i : ℕ}
    (h : HoldsAt mem (pbuf + i) (encode (front ++ e :: behind)))
    (hfront : ∀ x ∈ front, x.id ≠ index) (he : e.id = index)
    (hlimit : i + (encode front).length < limit) :
    getIeLoop mem pbuf index limit i = some (pbuf + i + (encode front).length, e.body.length) := by
  induction front generalizing i with
  | nil =>
    obtain ⟨hid, hlen, -⟩ := holdsAt_bytes (holdsAt_encode_cons.mp h).1
    rw [getIeLoop]
    dsimp only
    rw [if_pos (hid.trans he), hlen, encode_nil, List.length_nil, Nat.add_zero]
  | cons x front ih =>
    rw [List.cons_append, holdsAt_encode_cons] at h
    obtain ⟨hid, hlen, -⟩ := holdsAt_bytes h.1
    have hx : mem (pbuf + i) ≠ index := by
      rw [hid]
      exact hfront x (by simp)
    rw [encode_cons, List.length_append, length_bytes] at hlimit
    rw [getIeLoop]
    dsimp only
    rw [if_neg hx, hlen, if_neg (by omega), ih (by rw [← Nat.add_assoc]; exact h.2)
      (fun y hy => hfront y (List.mem_cons_of_mem x hy)) (by omega), encode_cons,
      List.length_append, length_bytes]
    congr 2
    omega

/-- In an element list the first element with the id is found. -/
theorem rtwGetIe_of_holdsAt (h : HoldsAt mem pbuf (encode (front ++ e :: behind)))
    (hfront : ∀ x ∈ front, x.id ≠ index) (he : e.id = index)
    (hlimit : (encode front).length < limit) :
    rtwGetIe mem pbuf index limit = some (pbuf + (encode front).length, e.body.length) := by
  rw [rtwGetIe, if_neg (by omega)]
  exact getIeLoop_of_holdsAt (i := 0) h hfront he (by omega)

theorem getIeLoop_of_none {i : ℕ} {l : List Element} (h : HoldsAt mem (pbuf + i) (encode l))
    (hnone : ∀ x ∈ l, x.id ≠ index) (hne : l ≠ []) (hlimit : limit = i + (encode l).length) :
    getIeLoop mem pbuf index limit i = none := by
  induction l generalizing i with
  | nil => exact absurd rfl hne
  | cons e l ih =>
    obtain ⟨he, hl⟩ := List.forall_mem_cons.mp hnone
    rw [holdsAt_encode_cons] at h
    obtain ⟨hid, hlen, -⟩ := holdsAt_bytes h.1
    rw [encode_cons, List.length_append, length_bytes] at hlimit
    rw [getIeLoop]
    dsimp only
    rw [if_neg (by rwa [hid]), hlen]
    split_ifs with hend
    · rfl
    · refine ih (by rw [← Nat.add_assoc]; exact h.2) hl ?_ (by omega)
      rintro rfl
      rw [encode_nil, List.length_nil] at hlimit
      omega

/-- Without the id nothing is found. -/
theorem rtwGetIe_of_none {l : List Element} (h : HoldsAt mem pbuf (encode l))
    (hnone : ∀ x ∈ l, x.id ≠ index) : rtwGetIe mem pbuf index (encode l).length = none := by
  rw [rtwGetIe]
  split_ifs with hempty
  · rfl
  · refine getIeLoop_of_none (i := 0) h hnone ?_ (Nat.zero_add _).symm
    rintro rfl
    exact hempty (by decide)

/-- In front of what is found there are elements of other ids. -/
theorem getIeLoop_front {i p len : ℕ} (hi : i < limit)
    (h : getIeLoop mem pbuf index limit i = some (p, len)) :
    ∃ front, HoldsAt mem (pbuf + i) (encode front) ∧ (∀ x ∈ front, x.id ≠ index) ∧
      p = pbuf + i + (encode front).length ∧ i + (encode front).length < limit := by
  fun_induction getIeLoop mem pbuf index limit i with
  | case1 i q hq =>
    obtain ⟨rfl, -⟩ : q = p ∧ _ = len := by simpa using h
    exact ⟨[], holdsAt_nil _ _, nofun, rfl, hi⟩
  | case2 => cases h
  | case3 i q hq tmp hlt ih =>
    obtain ⟨front, hfront, hids, hp, hend⟩ := ih (by omega) h
    have hlen : (elementAt mem q).body.length = tmp := length_elementAt mem q
    refine ⟨elementAt mem q :: front, ?_, ?_, ?_, ?_⟩
    · rw [holdsAt_encode_cons, hlen]
      exact ⟨holdsAt_elementAt mem q, by rwa [← Nat.add_assoc] at hfront⟩
    · exact List.forall_mem_cons.mpr ⟨hq, hids⟩
    · rw [encode_cons, List.length_append, length_bytes, hlen, hp]
      omega
    · rw [encode_cons, List.length_append, length_bytes, hlen]
      omega

theorem rtwGetIe_front {p len : ℕ} (h : rtwGetIe mem pbuf index limit = some (p, len)) :
    ∃ front, HoldsAt mem pbuf (encode front) ∧ (∀ x ∈ front, x.id ≠ index) ∧
      p = pbuf + (encode front).length ∧ (encode front).length < limit := by
  rw [rtwGetIe] at h
  split_ifs at h with hlimit
  obtain ⟨front, hfront, hids, hp, hend⟩ := getIeLoop_front (by omega) h
  exact ⟨front, hfront, hids, hp, by omega⟩

end Found

end Rtl8821cu.Ies
