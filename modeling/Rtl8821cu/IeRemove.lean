import Rtl8821cu.LibMove
import Rtl8821cu.IeSearch

/-! Elements are removed from a list in place (`core/rtw_ieee80211.c`). -/
namespace Rtl8821cu.IeRemove
open Store Elements Reads Move AbsorbSsid IeSearch
open Ies (wlanEidVendorSpecific)

/-- What `rtw_ies_remove_ie` leaves: the memory, `*ies_len`, whether something was removed. -/
structure Removal where
  mem : ℕ → BitVec 8
  iesLen : ℕ
  ret : Bool

/-- The loop of `rtw_ies_remove_ie`, for as many turns as are allowed. The move of a negative length
is a memory fault. -/
def removeIeLoop (eid : BitVec 8) (oui : Option (List (BitVec 8))) :
    ℕ → ℕ → ℕ → Removal → Option Removal
  | 0, _, _, _ => none
  | turns + 1, start, searchLen, r =>
    match (rtwGetIeEx start searchLen eid oui false true).value r.mem with
    | none => some r
    | some target =>
      if target.len = 0 then some r
      else
        let remainIes := target.place + target.len
        if start + searchLen < remainIes then none
        else
          let remainLen := searchLen - (remainIes - start)
          removeIeLoop eid oui turns target.place remainLen
            { mem := memmove r.mem target.place remainIes remainLen
              iesLen := r.iesLen - target.len
              ret := true }

def rtwIesRemoveIe (turns : ℕ) (mem : ℕ → BitVec 8) (ies iesLen offset : ℕ) (eid : BitVec 8)
    (oui : Option (List (BitVec 8))) : Option Removal :=
  if iesLen ≤ offset then some ⟨mem, iesLen, false⟩
  else removeIeLoop eid oui turns (ies + offset) (iesLen - offset) ⟨mem, iesLen, false⟩

/-- A `uint` that is handed over as an `int`. -/
def toInt (n : ℕ) : ℤ := (BitVec.ofNat 32 n).toInt

/-- `rtw_del_p2p_ie`: the memory and the new length. -/
def rtwDelP2pIe (ies : ℕ) : ℕ → (ℕ → BitVec 8) → ℕ → Option ((ℕ → BitVec 8) × ℕ)
  | 0, _, _ => none
  | turns + 1, mem, iesLen =>
    match (rtwGetP2pIe ies (toInt iesLen) false true).value mem with
    | none => some (mem, iesLen)
    | some target =>
      if target.len = 0 then some (mem, iesLen)
      else
        let nextIe := target.place + target.len
        if ies + iesLen < nextIe then none
        else
          let remainLen := iesLen - (nextIe - ies)
          let mem := memmove mem target.place nextIe remainLen
          let mem := memset mem (target.place + remainLen) 0 target.len
          rtwDelP2pIe ies turns mem (iesLen - target.len)

/-- The element has the id, and it starts with the OUI if there is one. -/
def Matches (eid : BitVec 8) (oui : Option (List (BitVec 8))) (e : Element) : Prop :=
  e.id = eid ∧ ∀ u ∈ oui, u <+: e.body

instance (eid : BitVec 8) (oui : Option (List (BitVec 8))) : DecidablePred (Matches eid oui) :=
  fun _ => inferInstanceAs (Decidable (_ ∧ _))

/-- A P2P element. -/
abbrev IsP2p : Element → Prop := Matches wlanEidVendorSpecific (some p2pOui)

/-- The elements of the id are not shorter than the OUI. -/
def Comparable (eid : BitVec 8) (oui : Option (List (BitVec 8))) (l : List Element) : Prop :=
  ∀ e ∈ l, e.id = eid → ∀ u ∈ oui, u.length ≤ e.body.length

/-- The first element with a property in a list that lies from `p` on. -/
def firstAt (P : Element → Prop) [DecidablePred P] (p : ℕ) : List Element → Option Found
  | [] => none
  | e :: l =>
    if P e then some ⟨p, e.body.length + 2, []⟩ else firstAt P (p + (e.body.length + 2)) l

section First

variable {P : Element → Prop} [DecidablePred P] {p : ℕ} {l front behind : List Element}
  {e : Element}

theorem firstAt_of_none (h : ∀ e ∈ l, ¬P e) : firstAt P p l = none := by
  induction l generalizing p with
  | nil => rfl
  | cons e l ih =>
    obtain ⟨he, hl⟩ := List.forall_mem_cons.mp h
    rw [firstAt, if_neg he, ih hl]

theorem firstAt_append (hfront : ∀ x ∈ front, ¬P x) (he : P e) :
    firstAt P p (front ++ e :: behind) =
      some ⟨p + (encode front).length, e.body.length + 2, []⟩ := by
  induction front generalizing p with
  | nil =>
    rw [List.nil_append, firstAt, if_pos he]
    rfl
  | cons x front ih =>
    obtain ⟨hx, hfront⟩ := List.forall_mem_cons.mp hfront
    rw [List.cons_append, firstAt, if_neg hx, ih hfront, encode_cons, List.length_append,
      length_bytes, Nat.add_assoc]

theorem le_place_firstAt {r : Found} (h : firstAt P p l = some r) : p ≤ r.place := by
  induction l generalizing p with
  | nil => cases h
  | cons e l ih =>
    rw [firstAt] at h
    split_ifs at h
    · cases h
      exact le_rfl
    · have := ih h
      omega

end First

section Search

variable {mem : ℕ → BitVec 8} {a i inLen : ℕ} {eid : BitVec 8} {oui : Option (List (BitVec 8))}
  {l : List Element} {e : Element}

theorem report_value (p : ℕ) : (report p false true).value mem =
    some ⟨p, (mem (p + 1)).toNat + 2, []⟩ := rfl

/-- What is compared in an element that is long enough is its own body. -/
theorem hit_iff (h : HoldsAt mem (a + i) e.bytes)
    (hc : e.id = eid → ∀ u ∈ oui, u.length ≤ e.body.length) :
    Hit mem a eid oui i ↔ Matches eid oui e := by
  obtain ⟨hid, -, hbody⟩ := holdsAt_bytes h
  rw [Hit, Matches, hid]
  refine and_congr_right fun heid => forall₂_congr fun u hu => ?_
  have hlen := hc heid u hu
  have hload := load_of_holdsAt hbody
  rw [← hload, show e.body.length = u.length + (e.body.length - u.length) by omega, load_add,
    List.prefix_iff_eq_take, List.take_left' (length_load ..), eq_comm]

theorem ieMatch_of_holdsAt (h : HoldsAt mem (a + i) e.bytes)
    (hc : e.id = eid → ∀ u ∈ oui, u.length ≤ e.body.length) :
    (ieMatch (a + i) (mem (a + i)) eid oui).value mem = true ↔ Matches eid oui e :=
  ieMatch_value.trans (hit_iff h hc)

/-- The search of a list is the search for its first match. -/
theorem getIeExLoop_of_holdsAt (h : HoldsAt mem (a + i) (encode l)) (hc : Comparable eid oui l)
    (hlen : inLen = i + (encode l).length) :
    (getIeExLoop a inLen eid oui false true i).value mem =
      firstAt (Matches eid oui) (a + i) l := by
  induction l generalizing i with
  | nil =>
    rw [encode_nil, List.length_nil] at hlen
    rw [getIeExLoop, if_neg (by omega)]
    rfl
  | cons e l ih =>
    obtain ⟨hce, hcl⟩ := List.forall_mem_cons.mp hc
    obtain ⟨he, hl⟩ := holdsAt_encode_cons.mp h
    obtain ⟨-, hbody, -⟩ := holdsAt_bytes he
    rw [encode_cons, List.length_append, length_bytes] at hlen
    rw [getIeExLoop, if_pos (by omega), value_cell_bind, value_bind, firstAt, value_ite]
    simp only [ieMatch_of_holdsAt he hce, report_value, value_cell_bind, hbody]
    rw [ih (by rwa [← Nat.add_assoc]) hcl (by omega), ← Nat.add_assoc]

/-- The search for a vendor element looks at those only that start below `MAX_IE_SZ - 5`. -/
theorem getVendorIeLoop_of_holdsAt {oui : List (BitVec 8)} (houi : oui.length = 4)
    (h : HoldsAt mem (a + i) (encode l)) (hc : Comparable wlanEidVendorSpecific (some oui) l)
    (hlen : inLen = i + (encode l).length) :
    (getVendorIeLoop oui a inLen false true i).value mem =
      (firstAt (Matches wlanEidVendorSpecific (some oui)) (a + i) l).filter
        fun r => r.place + 5 < a + maxIeSz := by
  induction l generalizing i with
  | nil =>
    rw [encode_nil, List.length_nil] at hlen
    rw [getVendorIeLoop, if_neg (by omega)]
    rfl
  | cons e l ih =>
    obtain ⟨hce, hcl⟩ := List.forall_mem_cons.mp hc
    obtain ⟨he, hl⟩ := holdsAt_encode_cons.mp h
    obtain ⟨-, hbody, -⟩ := holdsAt_bytes he
    rw [encode_cons, List.length_append, length_bytes] at hlen
    have hrest := ih (by rwa [← Nat.add_assoc]) hcl
      (show inLen = i + (e.body.length + 2) + _ by omega)
    rw [getVendorIeLoop, firstAt]
    by_cases hmatch : Matches wlanEidVendorSpecific (some oui) e
    · have hle : oui.length ≤ e.body.length := hce hmatch.1 oui rfl
      rw [if_pos (by omega), if_pos hmatch, value_cell_bind]
      by_cases hsz : maxIeSz ≤ i + 1 + 4
      · rw [if_pos hsz, Option.filter_some, if_neg (by simp; omega),
          value_pure]
      · rw [if_neg hsz, value_bind, (ieMatch_of_holdsAt he hce).mpr hmatch, if_pos rfl,
          report_value, hbody, Option.filter_some, if_pos (by simp; omega)]
    · rw [if_neg hmatch]
      by_cases hcnt : i + 1 + 4 < inLen
      · rw [if_pos hcnt, value_cell_bind]
        by_cases hsz : maxIeSz ≤ i + 1 + 4
        · rw [if_pos hsz]
          symm
          rw [value_pure, Option.filter_eq_none_iff]
          intro r hr
          have := le_place_firstAt hr
          simp only [decide_eq_true_eq]
          omega
        · rw [if_neg hsz, value_bind, if_neg fun h => hmatch ((ieMatch_of_holdsAt he hce).mp h),
            value_cell_bind, hbody, hrest, ← Nat.add_assoc]
      · rw [if_neg hcnt, Nat.add_assoc a, ← hrest, getVendorIeLoop, if_neg (by omega)]

end Search

/-- What does not match, in order. -/
abbrev without (eid : BitVec 8) (oui : Option (List (BitVec 8))) (l : List Element) :
    List Element :=
  l.filter (¬Matches eid oui ·)

section RemoveIe

variable {mem : ℕ → BitVec 8} {turns start : ℕ} {eid : BitVec 8} {oui : Option (List (BitVec 8))}
  {l front behind : List Element} {x : Element} {r : Removal}

theorem rtwGetIeEx_of_holdsAt (h : HoldsAt mem start (encode l)) (hc : Comparable eid oui l) :
    (rtwGetIeEx start (encode l).length eid oui false true).value mem =
      firstAt (Matches eid oui) start l := by
  have := getIeExLoop_of_holdsAt (i := 0) h hc (Nat.zero_add _).symm
  rwa [Nat.add_zero] at this

theorem without_of_none (h : ∀ e ∈ l, ¬Matches eid oui e) : without eid oui l = l := by
  apply List.filter_eq_self.mpr
  intro e he
  exact decide_eq_true (h e he)

theorem without_append (hfront : ∀ e ∈ front, ¬Matches eid oui e) (hx : Matches eid oui x) :
    without eid oui (front ++ x :: behind) = front ++ without eid oui behind := by
  rw [without, List.filter_append, List.filter_cons_of_neg (by simpa using hx)]
  exact congrArg (· ++ _) (without_of_none hfront)

theorem encode_split : encode (front ++ x :: behind) =
    encode front ++ (x.bytes ++ encode behind) := by
  rw [encode_append, encode_cons]

/-- Without a match nothing changes. -/
theorem removeIeLoop_of_none (h : HoldsAt r.mem start (encode l)) (hc : Comparable eid oui l)
    (hnone : ∀ e ∈ l, ¬Matches eid oui e) :
    removeIeLoop eid oui (turns + 1) start (encode l).length r = some r := by
  rw [removeIeLoop, rtwGetIeEx_of_holdsAt h hc, firstAt_of_none hnone]

/-- A turn cuts the first match out and goes on behind it. -/
theorem removeIeLoop_step (h : HoldsAt r.mem start (encode (front ++ x :: behind)))
    (hc : Comparable eid oui (front ++ x :: behind)) (hfront : ∀ e ∈ front, ¬Matches eid oui e)
    (hx : Matches eid oui x) :
    removeIeLoop eid oui (turns + 1) start (encode (front ++ x :: behind)).length r =
      removeIeLoop eid oui turns (start + (encode front).length) (encode behind).length
        { mem := memmove r.mem (start + (encode front).length)
            (start + (encode front).length + x.bytes.length) (encode behind).length
          iesLen := r.iesLen - x.bytes.length
          ret := true } := by
  rw [removeIeLoop, rtwGetIeEx_of_holdsAt h hc, firstAt_append hfront hx]
  have hlen : (encode (front ++ x :: behind)).length =
      (encode front).length + (x.bytes.length + (encode behind).length) := by
    rw [encode_split, List.length_append, List.length_append]
  rw [length_bytes] at hlen ⊢
  dsimp only
  rw [if_neg (by omega), if_neg (by omega), show (encode (front ++ x :: behind)).length -
    (start + (encode front).length + (x.body.length + 2) - start) = (encode behind).length by omega]

theorem removeIeLoop_spec (h : HoldsAt r.mem start (encode l)) (hc : Comparable eid oui l)
    (hlen : (encode l).length ≤ r.iesLen) (hturns : l.length < turns) :
    ∃ r', removeIeLoop eid oui turns start (encode l).length r = some r' ∧
      Rewritten (fun _ => True) r.mem r'.mem start (encode l).length
        (encode (without eid oui l)) ∧
      r'.iesLen + (encode l).length = r.iesLen + (encode (without eid oui l)).length ∧
      (r'.ret = true ↔ r.ret = true ∨ ∃ e ∈ l, Matches eid oui e) := by
  induction turns generalizing start l r with
  | zero => omega
  | succ turns ih =>
    rcases first_split (Matches eid oui) l with hnone | ⟨front, x, behind, rfl, hfront, hx⟩
    · refine ⟨r, removeIeLoop_of_none h hc hnone, ?_, ?_, ?_⟩
      · rw [without_of_none hnone]
        exact .refl h
      · rw [without_of_none hnone]
      · constructor
        · exact Or.inl
        · rintro (hret | ⟨e, he, hmatch⟩)
          · exact hret
          · exact absurd hmatch (hnone e he)
    · rw [removeIeLoop_step h hc hfront hx, without_append hfront hx]
      rw [encode_split] at h hlen ⊢
      obtain ⟨hholds, htail⟩ := holdsAt_append.mp h
      have hmove := Rewritten.move htail
      rw [List.length_append, List.length_append] at hlen
      rw [List.length_append, List.length_cons] at hturns
      obtain ⟨r', hrun, hrest, hlen', hret⟩ :=
        ih (r := ⟨_, r.iesLen - x.bytes.length, true⟩) hmove.holds
          (fun e he => hc e (by simp [he])) (Nat.le_sub_of_add_le (by omega)) (by omega)
      refine ⟨r', hrun, ?_, ?_, ?_⟩
      · rw [encode_append, List.length_append, List.length_append]
        exact .cons_front hholds (hmove.trans hrest)
      · rw [encode_append, List.length_append, List.length_append, List.length_append]
        simp only at hlen'
        omega
      · exact ⟨fun _ => Or.inr ⟨x, by simp, hx⟩, fun _ => hret.mpr (Or.inl rfl)⟩

theorem forall_mem_without : ∀ e ∈ without eid oui l, ¬Matches eid oui e := by
  intro e he
  exact of_decide_eq_true (List.mem_filter.mp he).2

/-- Where there is no match the list stays. -/
theorem rtwIesRemoveIe_of_none {ies offset : ℕ} (h : HoldsAt mem (ies + offset) (encode l))
    (hc : Comparable eid oui l) (hnone : ∀ e ∈ l, ¬Matches eid oui e) (hturns : 0 < turns) :
    rtwIesRemoveIe turns mem ies (offset + (encode l).length) offset eid oui =
      some ⟨mem, offset + (encode l).length, false⟩ := by
  obtain ⟨turns, rfl⟩ := Nat.exists_eq_add_of_lt hturns
  rw [rtwIesRemoveIe, Nat.zero_add, Nat.add_sub_cancel_left,
    removeIeLoop_of_none (r := ⟨mem, _, false⟩) h hc hnone, ite_self]

/-- All matches are removed and nothing else is, and another call removes nothing. -/
theorem rtwIesRemoveIe_spec {ies offset : ℕ} (h : HoldsAt mem (ies + offset) (encode l))
    (hc : Comparable eid oui l) (hturns : l.length < turns) :
    ∃ r, rtwIesRemoveIe turns mem ies (offset + (encode l).length) offset eid oui = some r ∧
      Rewritten (fun _ => True) mem r.mem (ies + offset) (encode l).length
        (encode (without eid oui l)) ∧
      r.iesLen = offset + (encode (without eid oui l)).length ∧
      (r.ret = true ↔ ∃ e ∈ l, Matches eid oui e) ∧
      rtwIesRemoveIe turns r.mem ies r.iesLen offset eid oui = some { r with ret := false } := by
  have hagain : ∀ r : Removal, HoldsAt r.mem (ies + offset) (encode (without eid oui l)) →
      r.iesLen = offset + (encode (without eid oui l)).length →
      rtwIesRemoveIe turns r.mem ies r.iesLen offset eid oui = some { r with ret := false } := by
    intro r hr hlen
    rw [hlen, rtwIesRemoveIe_of_none hr (fun e he => hc e (List.mem_filter.mp he).1)
      forall_mem_without (by omega), ← hlen]
  by_cases hempty : (encode l).length = 0
  · obtain rfl : l = [] := by
      cases l with
      | nil => rfl
      | cons e l => simp [encode_cons] at hempty
    refine ⟨⟨mem, offset, false⟩, ?_, .refl h, rfl, by simp, hagain ⟨mem, offset, false⟩ h rfl⟩
    rw [rtwIesRemoveIe, if_pos (by omega)]
    rfl
  · obtain ⟨r, hrun, hrest, hlen, hret⟩ :=
      removeIeLoop_spec (r := ⟨mem, offset + (encode l).length, false⟩) h hc (Nat.le_add_left ..)
        hturns
    have hiesLen : r.iesLen = offset + (encode (without eid oui l)).length := by
      dsimp only at hlen
      omega
    refine ⟨r, ?_, hrest, hiesLen, by simpa using hret, hagain r hrest.holds hiesLen⟩
    rw [rtwIesRemoveIe, if_neg (by omega), Nat.add_sub_cancel_left]
    exact hrun

end RemoveIe

/-- The P2P elements are left out that start below `MAX_IE_SZ - 5` once those in front are. -/
def keptFrom (off : ℕ) : List Element → List Element
  | [] => []
  | e :: l =>
    if IsP2p e ∧ off + 5 < maxIeSz then keptFrom off l
    else e :: keptFrom (off + (e.body.length + 2)) l

section Kept

variable {off : ℕ} {l front behind : List Element} {x : Element}

theorem keptFrom_append (h : ∀ e ∈ front, ¬IsP2p e) :
    keptFrom off (front ++ l) = front ++ keptFrom (off + (encode front).length) l := by
  induction front generalizing off with
  | nil => rfl
  | cons e front ih =>
    obtain ⟨he, hfront⟩ := List.forall_mem_cons.mp h
    rw [List.cons_append, keptFrom, if_neg fun hp => he hp.1, ih hfront, encode_cons,
      List.length_append, length_bytes, Nat.add_assoc, List.cons_append]

theorem keptFrom_of_none (h : ∀ e ∈ l, ¬IsP2p e) : keptFrom off l = l := by
  rw [← List.append_nil l, keptFrom_append h, keptFrom]

theorem keptFrom_of_ge (h : maxIeSz ≤ off + 5) : keptFrom off l = l := by
  induction l generalizing off with
  | nil => rfl
  | cons e l ih =>
    rw [keptFrom, if_neg fun hp => absurd hp.2 (by omega), ih (by omega)]

theorem keptFrom_keptFrom : keptFrom off (keptFrom off l) = keptFrom off l := by
  induction l generalizing off with
  | nil => rfl
  | cons e l ih =>
    by_cases he : IsP2p e ∧ off + 5 < maxIeSz
    · rw [keptFrom, if_pos he, ih]
    · rw [keptFrom, if_neg he, keptFrom, if_neg he, ih]

theorem keptFrom_sublist : (keptFrom off l).Sublist l := by
  induction l generalizing off with
  | nil => exact .slnil
  | cons e l ih =>
    rw [keptFrom]
    split_ifs
    · exact .cons e ih
    · exact .cons_cons e ih

/-- In a list that fits in `MAX_IE_SZ` bytes no P2P element is kept. -/
theorem keptFrom_eq_without (hlen : off + (encode l).length ≤ maxIeSz) :
    keptFrom off l = without wlanEidVendorSpecific (some p2pOui) l := by
  induction l generalizing off with
  | nil => rfl
  | cons e l ih =>
    rw [encode_cons, List.length_append, length_bytes] at hlen
    by_cases he : IsP2p e
    · have hbody : 4 ≤ e.body.length := (he.2 p2pOui rfl).length_le
      rw [keptFrom, if_pos ⟨he, by omega⟩, ih (by omega)]
      exact (List.filter_cons_of_neg (by simpa using he)).symm
    · rw [keptFrom, if_neg fun hp => he hp.1, ih (by omega)]
      exact (List.filter_cons_of_pos (by simpa using he)).symm

end Kept

section DelP2pIe

variable {mem : ℕ → BitVec 8} {turns ies : ℕ} {l front behind : List Element} {x : Element}

theorem toInt_of_lt {n : ℕ} (h : n < 2 ^ 31) : toInt n = n := by
  rw [toInt, BitVec.toInt_eq_toNat_cond, BitVec.toNat_ofNat]
  split_ifs <;> omega

theorem rtwGetP2pIe_of_holdsAt (h : HoldsAt mem ies (encode l))
    (hc : Comparable wlanEidVendorSpecific (some p2pOui) l) (hlen : (encode l).length < 2 ^ 31) :
    (rtwGetP2pIe ies (toInt (encode l).length) false true).value mem =
      (firstAt IsP2p ies l).filter fun r => r.place + 5 < ies + maxIeSz := by
  rw [toInt_of_lt hlen, rtwGetP2pIe]
  have hloop := getVendorIeLoop_of_holdsAt (i := 0) rfl h hc (Nat.zero_add _).symm
  rw [Nat.add_zero] at hloop
  split_ifs with hempty
  · rw [← hloop, getVendorIeLoop, if_neg (by omega)]
  · rw [Int.toNat_natCast]
    exact hloop

/-- Where no P2P element is in reach nothing changes. -/
theorem rtwDelP2pIe_of_kept (h : HoldsAt mem ies (encode l))
    (hc : Comparable wlanEidVendorSpecific (some p2pOui) l) (hlen : (encode l).length < 2 ^ 31)
    (hkept : keptFrom 0 l = l) :
    rtwDelP2pIe ies (turns + 1) mem (encode l).length = some (mem, (encode l).length) := by
  rw [rtwDelP2pIe, rtwGetP2pIe_of_holdsAt h hc hlen]
  rcases first_split IsP2p l with hnone | ⟨front, x, behind, rfl, hfront, hx⟩
  · rw [firstAt_of_none hnone]
    rfl
  · rw [firstAt_append hfront hx, Option.filter_some, if_neg]
    simp only [decide_eq_true_eq]
    intro hreach
    rw [keptFrom_append hfront, keptFrom, if_pos ⟨hx, by omega⟩] at hkept
    have hlength := congrArg List.length hkept
    have hle : (keptFrom (0 + (encode front).length) behind).length ≤ behind.length :=
      keptFrom_sublist.length_le
    rw [List.length_append, List.length_append, List.length_cons] at hlength
    omega

/-- A turn cuts the first P2P element out, when it is in reach. -/
theorem rtwDelP2pIe_step (h : HoldsAt mem ies (encode (front ++ x :: behind)))
    (hc : Comparable wlanEidVendorSpecific (some p2pOui) (front ++ x :: behind))
    (hlen : (encode (front ++ x :: behind)).length < 2 ^ 31) (hfront : ∀ e ∈ front, ¬IsP2p e)
    (hx : IsP2p x) (hreach : (encode front).length + 5 < maxIeSz) :
    rtwDelP2pIe ies (turns + 1) mem (encode (front ++ x :: behind)).length =
      rtwDelP2pIe ies turns
        (memset (memmove mem (ies + (encode front).length)
          (ies + (encode front).length + x.bytes.length) (encode behind).length)
          (ies + (encode front).length + (encode behind).length) 0 x.bytes.length)
        (encode (front ++ behind)).length := by
  rw [rtwDelP2pIe, rtwGetP2pIe_of_holdsAt h hc hlen, firstAt_append hfront hx, Option.filter_some,
    if_pos (by simp only [decide_eq_true_eq]; omega)]
  have htotal : (encode (front ++ x :: behind)).length =
      (encode front).length + (x.bytes.length + (encode behind).length) := by
    rw [encode_split, List.length_append, List.length_append]
  rw [length_bytes] at htotal ⊢
  dsimp only
  rw [if_neg (by omega), if_neg (by omega), show (encode (front ++ x :: behind)).length -
    (ies + (encode front).length + (x.body.length + 2) - ies) = (encode behind).length by omega,
    show (encode (front ++ x :: behind)).length - (x.body.length + 2) =
      (encode (front ++ behind)).length by
        rw [encode_append front behind, List.length_append]
        omega]

theorem rtwDelP2pIe_run (h : HoldsAt mem ies (encode l))
    (hc : Comparable wlanEidVendorSpecific (some p2pOui) l) (hlen : (encode l).length < 2 ^ 31)
    (hturns : l.length < turns) :
    ∃ mem', rtwDelP2pIe ies turns mem (encode l).length =
        some (mem', (encode (keptFrom 0 l)).length) ∧
      Rewritten (· = 0) mem mem' ies (encode l).length (encode (keptFrom 0 l)) := by
  induction turns generalizing mem l with
  | zero => omega
  | succ turns ih =>
    by_cases hkept : keptFrom 0 l = l
    · rw [hkept]
      exact ⟨mem, rtwDelP2pIe_of_kept h hc hlen hkept, .refl h⟩
    · rcases first_split IsP2p l with hnone | ⟨front, x, behind, rfl, hfront, hx⟩
      · exact absurd (keptFrom_of_none hnone) hkept
      · rw [keptFrom_append hfront] at hkept ⊢
        have hreach : (encode front).length + 5 < maxIeSz := by
          by_contra hfar
          exact hkept (by rw [keptFrom_of_ge (by omega)])
        rw [keptFrom, if_pos ⟨hx, by omega⟩, ← keptFrom_append hfront,
          rtwDelP2pIe_step h hc hlen hfront hx hreach]
        rw [List.length_append, List.length_cons] at hturns
        rw [encode_split] at h hlen ⊢
        obtain ⟨hholds, htail⟩ := holdsAt_append.mp h
        have hcut := Rewritten.cons_front hholds (Rewritten.cut (v := 0) htail)
        rw [← encode_append] at hcut
        rw [List.length_append, List.length_append] at hlen ⊢
        obtain ⟨mem', hrun, hrest⟩ := ih hcut.holds (fun e he => hc e (by
          rcases List.mem_append.mp he with he | he <;> simp [he]))
          (by rw [encode_append, List.length_append]; omega)
          (by rw [List.length_append]; omega)
        exact ⟨mem', hrun, hcut.trans hrest⟩

/-- The P2P elements in reach are removed and nothing else is, the bytes that become free are
cleared, and another call removes nothing. -/
theorem rtwDelP2pIe_spec (h : HoldsAt mem ies (encode l))
    (hc : Comparable wlanEidVendorSpecific (some p2pOui) l) (hlen : (encode l).length < 2 ^ 31)
    (hturns : l.length < turns) :
    ∃ mem', rtwDelP2pIe ies turns mem (encode l).length =
        some (mem', (encode (keptFrom 0 l)).length) ∧
      Rewritten (· = 0) mem mem' ies (encode l).length (encode (keptFrom 0 l)) ∧
      rtwDelP2pIe ies turns mem' (encode (keptFrom 0 l)).length =
        some (mem', (encode (keptFrom 0 l)).length) := by
  obtain ⟨mem', hrun, hrest⟩ := rtwDelP2pIe_run h hc hlen hturns
  refine ⟨mem', hrun, hrest, ?_⟩
  obtain ⟨turns, rfl⟩ := Nat.exists_eq_add_of_lt (Nat.zero_lt_of_lt hturns)
  rw [Nat.zero_add]
  have hle := hrest.length_le
  exact rtwDelP2pIe_of_kept hrest.holds (fun e he => hc e (keptFrom_sublist.subset he)) (by omega)
    keptFrom_keptFrom

end DelP2pIe

end Rtl8821cu.IeRemove
