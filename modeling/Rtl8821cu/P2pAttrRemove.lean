import Rtl8821cu.LibBytes
import Rtl8821cu.AttrSearch
import Rtl8821cu.IeRemove

/-! Attributes are removed from the P2P elements of a network (`core/rtw_ieee80211.c`). -/
namespace Rtl8821cu.P2pAttrRemove
open Store Elements Bytes Reads Loop Move AbsorbSsid IeSearch AttrSearch IeRemove
open Ies (wlanEidVendorSpecific)

/-- `rtw_del_p2p_attr`, for as many turns as are allowed: the memory and the new length. -/
def rtwDelP2pAttr (ie : ℕ) (attrId : BitVec 8) :
    ℕ → (ℕ → BitVec 8) → ℕ → Option ((ℕ → BitVec 8) × ℕ)
  | 0, _, _ => none
  | turns + 1, mem, ielen =>
    match (rtwGetP2pAttr ie ielen attrId false (turns + 1)).value mem with
    | none => none
    | some none => some (mem, ielen)
    | some (some target) =>
      if target.len = 0 then some (mem, ielen)
      else
        let nextAttr := target.place + target.len
        if ie + ielen < nextAttr then none
        else
          let remainLen := ielen - (nextAttr - ie)
          let mem := memmove mem target.place nextAttr remainLen
          let mem := memset mem (target.place + remainLen) 0 target.len
          let mem := Function.update mem (ie + 1) (mem (ie + 1) - BitVec.ofNat 8 target.len)
          rtwDelP2pAttr ie attrId turns mem (ielen - target.len)

/-- The loop of `rtw_bss_ex_del_p2p_attr`; the removal in one element gets `attrTurns` turns. -/
def bssExDelAttrLoop (attrId : BitVec 8) (attrTurns : ℕ) : ℕ → ℕ → ℕ → BssidEx → Option BssidEx
  | 0, _, _, _ => none
  | turns + 1, ies, iesLen, bssEx =>
    match (rtwGetP2pIe ies (toInt iesLen) false true).value bssEx.ies with
    | none => some bssEx
    | some ie =>
      let nextIeOri := ie.place + ie.len
      if bssEx.ieLength < nextIeOri then none
      else
        let remainLen := bssEx.ieLength - nextIeOri
        match rtwDelP2pAttr ie.place attrId attrTurns bssEx.ies ie.len with
        | none => none
        | some (mem, ieLen) =>
          if ieLen ≠ ie.len then
            let nextIe := ie.place + ieLen
            let mem := memmove mem nextIe nextIeOri remainLen
            let mem := memset mem (nextIe + remainLen) 0 (ie.len - ieLen)
            bssExDelAttrLoop attrId attrTurns turns nextIe remainLen
              { bssEx with ies := mem, ieLength := bssEx.ieLength - (ie.len - ieLen) }
          else bssExDelAttrLoop attrId attrTurns turns nextIeOri remainLen { bssEx with ies := mem }

/-- `BSS_EX_FIXED_IE_OFFSET`; `BSS_TYPE_PROB_REQ` is 1. -/
def fixedIeOffset (bssEx : BssidEx) : ℕ := if bssEx.bssType = 1 then 0 else 12

def rtwBssExDelP2pAttr (turns attrTurns : ℕ) (bssEx : BssidEx) (attrId : BitVec 8) :
    Option BssidEx :=
  bssExDelAttrLoop attrId attrTurns turns (fixedIeOffset bssEx)
    (bssEx.ieLength - fixedIeOffset bssEx) bssEx

/-- An attribute; two bytes tell the length of its data. -/
structure Attribute where
  id : BitVec 8
  data : List (BitVec 8)

/-- The attribute as it is sent, the length little-endian. -/
def Attribute.bytes (t : Attribute) : List (BitVec 8) :=
  t.id :: (leBytes 2 t.data.length ++ t.data)

def encodeAttrs (l : List Attribute) : List (BitVec 8) := l.flatMap Attribute.bytes

@[simp] theorem length_attrBytes (t : Attribute) : t.bytes.length = t.data.length + 3 := by
  rw [Attribute.bytes, List.length_cons, List.length_append, length_leBytes]
  omega

theorem encodeAttrs_cons (t : Attribute) (l : List Attribute) :
    encodeAttrs (t :: l) = t.bytes ++ encodeAttrs l :=
  List.flatMap_cons

theorem encodeAttrs_split (front behind : List Attribute) (t : Attribute) :
    encodeAttrs (front ++ t :: behind) = encodeAttrs front ++ (t.bytes ++ encodeAttrs behind) := by
  rw [encodeAttrs, List.flatMap_append, List.flatMap_cons]
  rfl

/-- The attributes with other ids, in order. -/
def otherAttrs (attrId : BitVec 8) (l : List Attribute) : List Attribute :=
  l.filter (·.id ≠ attrId)

/-- The first attribute of an id in a list that lies from `p` on. -/
def firstAttr (attrId : BitVec 8) (p : ℕ) : List Attribute → Option Attr
  | [] => none
  | t :: l =>
    if t.id = attrId then some ⟨p, t.data.length + 3, []⟩
    else firstAttr attrId (p + (t.data.length + 3)) l

section Attrs

variable {mem : ℕ → BitVec 8} {ie ielen off p turns : ℕ} {attrId : BitVec 8}
  {l front behind : List Attribute} {t : Attribute}

theorem firstAttr_of_none (h : ∀ t ∈ l, t.id ≠ attrId) : firstAttr attrId p l = none := by
  induction l generalizing p with
  | nil => rfl
  | cons t l ih =>
    obtain ⟨ht, hl⟩ := List.forall_mem_cons.mp h
    rw [firstAttr, if_neg ht, ih hl]

theorem firstAttr_append (hfront : ∀ y ∈ front, y.id ≠ attrId) (ht : t.id = attrId) :
    firstAttr attrId p (front ++ t :: behind) =
      some ⟨p + (encodeAttrs front).length, t.data.length + 3, []⟩ := by
  induction front generalizing p with
  | nil =>
    rw [List.nil_append, firstAttr, if_pos ht]
    rfl
  | cons y front ih =>
    obtain ⟨hy, hfront⟩ := List.forall_mem_cons.mp hfront
    rw [List.cons_append, firstAttr, if_neg hy, ih hfront, encodeAttrs_cons, List.length_append,
      length_attrBytes, Nat.add_assoc]

theorem otherAttrs_of_none (h : ∀ t ∈ l, t.id ≠ attrId) : otherAttrs attrId l = l :=
  List.filter_eq_self.mpr fun t ht => decide_eq_true (h t ht)

theorem otherAttrs_append (ht : t.id = attrId) :
    otherAttrs attrId (front ++ t :: behind) = otherAttrs attrId (front ++ behind) := by
  rw [otherAttrs, otherAttrs, List.filter_append, List.filter_append,
    List.filter_cons_of_neg (by simpa using ht)]

theorem forall_mem_otherAttrs : ∀ t ∈ otherAttrs attrId l, t.id ≠ attrId := by
  intro t ht
  exact of_decide_eq_true (List.mem_filter.mp ht).2

/-- What a memory shows of an attribute it holds. -/
theorem holdsAt_attrBytes (h : HoldsAt mem p t.bytes) (hlen : t.data.length < 65536) :
    mem p = t.id ∧ rtwGetLe16 (mem (p + 1)) (mem (p + 2)) = t.data.length := by
  obtain ⟨hid, hrest⟩ := holdsAt_cons.mp h
  obtain ⟨hlow, hrest⟩ := holdsAt_cons.mp hrest
  obtain ⟨hhigh, -⟩ := holdsAt_cons.mp hrest
  refine ⟨hid, ?_⟩
  rw [rtwGetLe16, hlow, show p + 2 = p + 1 + 1 from rfl, hhigh, BitVec.toNat_ofNat,
    BitVec.toNat_ofNat]
  omega

/-- The search of an element is the search for its first attribute of the id. -/
theorem run_getAttrTurn (h : HoldsAt mem (ie + off) (encodeAttrs l))
    (hlen : ielen = off + (encodeAttrs l).length) (hle : ielen < 65536)
    (hturns : l.length < turns) :
    (run (getAttrTurn rtwGetLe16 ie ielen attrId false) turns off).value mem =
      some (firstAttr attrId (ie + off) l) := by
  induction l generalizing off turns with
  | nil =>
    obtain ⟨turns, rfl⟩ := Nat.exists_eq_add_of_lt hturns
    rw [List.length_nil, Nat.zero_add]
    refine value_run_leave ?_
    rw [getAttrTurn, if_neg (by rw [hlen]; simp [encodeAttrs]), value_pure, firstAttr]
  | cons t l ih =>
    obtain ⟨turns, rfl⟩ := Nat.exists_eq_add_of_lt (Nat.zero_lt_of_lt hturns)
    rw [Nat.zero_add] at hturns ⊢
    rw [encodeAttrs_cons, List.length_append, length_attrBytes] at hlen
    rw [encodeAttrs_cons, holdsAt_append, length_attrBytes] at h
    obtain ⟨hid, hget⟩ := holdsAt_attrBytes h.1 (by omega)
    have hattrLen : (rtwGetLe16 (mem (ie + off + 1)) (mem (ie + off + 2)) + 3) % 65536 =
        t.data.length + 3 := by
      rw [hget, Nat.mod_eq_of_lt (by omega)]
    have hlooks : attrLooks (attrFormat rtwGetLe16) mem ie ielen off :=
      ⟨show off + 3 ≤ ielen by omega, hattrLen ▸ (show off + (t.data.length + 3) ≤ ielen by omega)⟩
    rw [firstAttr]
    by_cases ht : t.id = attrId
    · rw [if_pos ht]
      refine value_run_leave ?_
      rw [getAttrTurn, if_pos (by omega), value_cell_bind, value_cell_bind, value_cell_bind]
      dsimp only
      rw [hattrLen, if_neg (by omega), if_pos (hid.trans ht)]
      rfl
    · rw [if_neg ht, value_run_next (getAttrTurn_next hlooks (by rwa [hid])), hattrLen]
      rw [Nat.add_assoc]
      rw [List.length_cons] at hturns
      exact ih (by rw [← Nat.add_assoc]; exact h.2) (by omega) (by omega)

end Attrs

/-- A P2P element with a list of attributes. -/
def p2pElement (attrs : List Attribute) (h : (encodeAttrs attrs).length ≤ 251) : Element where
  id := wlanEidVendorSpecific
  body := p2pOui ++ encodeAttrs attrs
  length_le := by
    rw [List.length_append]
    exact Nat.add_le_add_left h 4

theorem length_otherAttrs_le {attrId : BitVec 8} {attrs : List Attribute} :
    (encodeAttrs (otherAttrs attrId attrs)).length ≤ (encodeAttrs attrs).length :=
  (List.filter_sublist.flatMap Attribute.bytes).length_le

section DelAttr

variable {mem : ℕ → BitVec 8} {ie turns : ℕ} {attrId : BitVec 8}
  {attrs front behind : List Attribute} {t : Attribute}

theorem isP2p_p2pElement (hle : (encodeAttrs attrs).length ≤ 251) : IsP2p (p2pElement attrs hle) := by
  refine ⟨rfl, ?_⟩
  rintro u ⟨⟩
  exact List.prefix_append ..

/-- A P2P element with the length byte `len`, up to the end of the given attributes. -/
def p2pHead (len : BitVec 8) (front : List Attribute) : List (BitVec 8) :=
  wlanEidVendorSpecific :: len :: (p2pOui ++ encodeAttrs front)

theorem p2pHead_eq (len : BitVec 8) (l : List Attribute) :
    p2pHead len l = [wlanEidVendorSpecific] ++ len :: (p2pOui ++ encodeAttrs l) := rfl

theorem length_p2pHead (len : BitVec 8) : (p2pHead len front).length = 6 + (encodeAttrs front).length := by
  rw [p2pHead, List.length_cons, List.length_cons, List.length_append]
  simp only [p2pOui, List.length_cons, List.length_nil]
  omega

theorem p2pBytes_eq (hle : (encodeAttrs attrs).length ≤ 251) : (p2pElement attrs hle).bytes =
    p2pHead (BitVec.ofNat 8 (4 + (encodeAttrs attrs).length)) attrs := by
  rw [Element.bytes, p2pElement, List.length_append]
  rfl

theorem length_p2pBytes (hle : (encodeAttrs attrs).length ≤ 251) :
    (p2pElement attrs hle).bytes.length = 6 + (encodeAttrs attrs).length := by
  rw [p2pBytes_eq, length_p2pHead]

theorem encodeAttrs_append (l l' : List Attribute) :
    encodeAttrs (l ++ l') = encodeAttrs l ++ encodeAttrs l' :=
  List.flatMap_append

theorem p2pHead_append (len : BitVec 8) (l : List Attribute) :
    p2pHead len (front ++ l) = p2pHead len front ++ encodeAttrs l := by
  rw [p2pHead, encodeAttrs_append, ← List.append_assoc]
  rfl

theorem holdsAt_attrs {hle : (encodeAttrs attrs).length ≤ 251}
    (h : HoldsAt mem ie (p2pElement attrs hle).bytes) : HoldsAt mem (ie + 6) (encodeAttrs attrs) :=
  (holdsAt_append.mp (holdsAt_bytes h).2.2).2

theorem rtwGetP2pAttr_of_holdsAt {hle : (encodeAttrs attrs).length ≤ 251}
    (h : HoldsAt mem ie (p2pElement attrs hle).bytes) (hturns : attrs.length < turns) :
    (rtwGetP2pAttr ie (p2pElement attrs hle).bytes.length attrId false turns).value mem =
      some (firstAttr attrId (ie + 6) attrs) := by
  rw [rtwGetP2pAttr, getAttr, length_p2pBytes]
  by_cases hempty : 6 + (encodeAttrs attrs).length ≤ 6
  · obtain rfl : attrs = [] := by
      cases attrs with
      | nil => rfl
      | cons t l =>
        rw [encodeAttrs_cons, List.length_append, length_attrBytes] at hempty
        omega
    rw [if_pos hempty]
    rfl
  · have hmatch : (ieMatch (ie + 0) (mem (ie + 0)) wlanEidVendorSpecific
        (some p2pOui)).value mem = true :=
      (ieMatch_of_holdsAt h fun _ u hu => ((isP2p_p2pElement hle).2 u hu).length_le).mpr
        (isP2p_p2pElement hle)
    rw [Nat.add_zero] at hmatch
    rw [if_neg hempty, value_cell_bind, value_bind, hmatch, if_pos rfl]
    exact run_getAttrTurn (holdsAt_attrs h) rfl (by omega) hturns

/-- Without an attribute of the id nothing changes. -/
theorem rtwDelP2pAttr_of_none {hle : (encodeAttrs attrs).length ≤ 251}
    (h : HoldsAt mem ie (p2pElement attrs hle).bytes) (hturns : attrs.length < turns + 1)
    (hnone : ∀ t ∈ attrs, t.id ≠ attrId) :
    rtwDelP2pAttr ie attrId (turns + 1) mem (p2pElement attrs hle).bytes.length =
      some (mem, (p2pElement attrs hle).bytes.length) := by
  rw [rtwDelP2pAttr, rtwGetP2pAttr_of_holdsAt h hturns, firstAttr_of_none hnone]

/-- The memory behind a turn that cuts out the attribute `t` behind those of `front`. -/
def cutAttr (mem : ℕ → BitVec 8) (ie : ℕ) (front : List Attribute) (t : Attribute)
    (behind : List Attribute) : ℕ → BitVec 8 :=
  let p := ie + 6 + (encodeAttrs front).length
  let n := (encodeAttrs behind).length
  let mem := memset (memmove mem p (p + t.bytes.length) n) (p + n) 0 t.bytes.length
  Function.update mem (ie + 1) (mem (ie + 1) - BitVec.ofNat 8 t.bytes.length)

/-- A turn leaves the element without its first attribute of the id. -/
theorem cutAttr_rewritten {hle : (encodeAttrs (front ++ t :: behind)).length ≤ 251}
    (h : HoldsAt mem ie (p2pElement (front ++ t :: behind) hle).bytes)
    (hle' : (encodeAttrs (front ++ behind)).length ≤ 251) :
    Rewritten (· = 0) mem (cutAttr mem ie front t behind) ie
      (p2pElement (front ++ t :: behind) hle).bytes.length
      (p2pElement (front ++ behind) hle').bytes := by
  rw [p2pBytes_eq, p2pHead_append, encodeAttrs_cons] at h ⊢
  obtain ⟨hhead, htail⟩ := holdsAt_append.mp h
  have hcut := Rewritten.cons_front hhead (Rewritten.cut (v := 0) htail)
  rw [← List.length_append, ← List.length_append, ← p2pHead_append, length_p2pHead,
    ← Nat.add_assoc] at hcut
  have hlen := (holdsAt_cons.mp (holdsAt_cons.mp hcut.holds).2).1
  have hnew : BitVec.ofNat 8 (4 + (encodeAttrs (front ++ t :: behind)).length) -
      BitVec.ofNat 8 t.bytes.length = BitVec.ofNat 8 (4 + (encodeAttrs (front ++ behind)).length) := by
    rw [encodeAttrs_split, encodeAttrs_append, List.length_append, List.length_append,
      List.length_append, show ∀ a b c : ℕ, 4 + (a + (b + c)) = 4 + (a + c) + b by omega,
      BitVec.ofNat_add, add_sub_cancel_right]
  rw [p2pBytes_eq, cutAttr, hlen, hnew]
  rw [p2pHead_eq _ (front ++ behind)] at hcut ⊢
  exact hcut.update

theorem rtwDelP2pAttr_step {hle : (encodeAttrs (front ++ t :: behind)).length ≤ 251}
    (h : HoldsAt mem ie (p2pElement (front ++ t :: behind) hle).bytes)
    (hturns : (front ++ t :: behind).length < turns + 1) (hfront : ∀ y ∈ front, y.id ≠ attrId)
    (ht : t.id = attrId) (hle' : (encodeAttrs (front ++ behind)).length ≤ 251) :
    rtwDelP2pAttr ie attrId (turns + 1) mem (p2pElement (front ++ t :: behind) hle).bytes.length =
      rtwDelP2pAttr ie attrId turns (cutAttr mem ie front t behind)
        (p2pElement (front ++ behind) hle').bytes.length := by
  rw [rtwDelP2pAttr, rtwGetP2pAttr_of_holdsAt h hturns, firstAttr_append hfront ht]
  have htotal := length_p2pBytes hle
  rw [encodeAttrs_split, List.length_append, List.length_append, length_attrBytes] at htotal
  have htotal' := length_p2pBytes hle'
  rw [encodeAttrs_append, List.length_append] at htotal'
  dsimp only
  rw [if_neg (by omega), if_neg (by omega), cutAttr, length_attrBytes, htotal, htotal']
  rw [show 6 + ((encodeAttrs front).length + (t.data.length + 3 + (encodeAttrs behind).length)) -
      (ie + 6 + (encodeAttrs front).length + (t.data.length + 3) - ie) =
        (encodeAttrs behind).length by omega,
    show 6 + ((encodeAttrs front).length + (t.data.length + 3 + (encodeAttrs behind).length)) -
      (t.data.length + 3) = 6 + ((encodeAttrs front).length + (encodeAttrs behind).length) by omega,
    Nat.add_assoc ie 6]

theorem length_le_encodeAttrs (l : List Attribute) : 3 * l.length ≤ (encodeAttrs l).length := by
  induction l with
  | nil => rfl
  | cons t l ih =>
    rw [encodeAttrs_cons, List.length_append, length_attrBytes, List.length_cons]
    omega

theorem rtwDelP2pAttr_run {hle : (encodeAttrs attrs).length ≤ 251}
    (h : HoldsAt mem ie (p2pElement attrs hle).bytes) (hturns : attrs.length < turns)
    (hle' : (encodeAttrs (otherAttrs attrId attrs)).length ≤ 251) :
    ∃ mem', rtwDelP2pAttr ie attrId turns mem (p2pElement attrs hle).bytes.length =
        some (mem', (p2pElement (otherAttrs attrId attrs) hle').bytes.length) ∧
      Rewritten (· = 0) mem mem' ie (p2pElement attrs hle).bytes.length
        (p2pElement (otherAttrs attrId attrs) hle').bytes := by
  induction turns generalizing mem attrs with
  | zero => omega
  | succ turns ih =>
    rcases first_split (fun t : Attribute => t.id = attrId) attrs with
      hnone | ⟨front, t, behind, rfl, hfront, ht⟩
    · have hother := otherAttrs_of_none hnone
      refine ⟨mem, ?_, ?_⟩
      · rw [rtwDelP2pAttr_of_none h hturns hnone]
        simp only [hother]
      · simp only [hother]
        exact .refl h
    · have hless : (encodeAttrs (front ++ behind)).length ≤ 251 := by
        rw [encodeAttrs_split, List.length_append, List.length_append] at hle
        rw [encodeAttrs_append, List.length_append]
        omega
      have hcut := cutAttr_rewritten h hless
      rw [rtwDelP2pAttr_step h hturns hfront ht hless]
      rw [List.length_append, List.length_cons] at hturns
      simp only [otherAttrs_append ht] at hle' ⊢
      obtain ⟨mem', hrun, hrest⟩ := ih hcut.holds (by rw [List.length_append]; omega) hle'
      exact ⟨mem', hrun, hcut.trans hrest⟩

/-- The attributes of the id are removed and nothing else is, the length byte follows, and another
call removes nothing. -/
theorem rtwDelP2pAttr_spec {hle : (encodeAttrs attrs).length ≤ 251}
    (h : HoldsAt mem ie (p2pElement attrs hle).bytes) (hturns : 84 ≤ turns)
    (hle' : (encodeAttrs (otherAttrs attrId attrs)).length ≤ 251) :
    ∃ mem', rtwDelP2pAttr ie attrId turns mem (p2pElement attrs hle).bytes.length =
        some (mem', (p2pElement (otherAttrs attrId attrs) hle').bytes.length) ∧
      Rewritten (· = 0) mem mem' ie (p2pElement attrs hle).bytes.length
        (p2pElement (otherAttrs attrId attrs) hle').bytes ∧
      rtwDelP2pAttr ie attrId turns mem' (p2pElement (otherAttrs attrId attrs) hle').bytes.length =
        some (mem', (p2pElement (otherAttrs attrId attrs) hle').bytes.length) := by
  have hlength := length_le_encodeAttrs attrs
  obtain ⟨mem', hrun, hrest⟩ := rtwDelP2pAttr_run h (show attrs.length < turns by omega) hle'
  refine ⟨mem', hrun, hrest, ?_⟩
  obtain ⟨turns, rfl⟩ := Nat.exists_eq_add_of_lt (show 0 < turns by omega)
  rw [Nat.zero_add] at hturns ⊢
  have hlength' := length_le_encodeAttrs (otherAttrs attrId attrs)
  exact rtwDelP2pAttr_of_none hrest.holds (by omega) forall_mem_otherAttrs

end DelAttr

/-- An element of a network: a P2P element has a list of attributes. -/
inductive Ie
  | p2p (attrs : List Attribute) (h : (encodeAttrs attrs).length ≤ 251)
  | other (e : Element) (h : ¬IsP2p e)

namespace Ie

def element : Ie → Element
  | p2p attrs h => p2pElement attrs h
  | other e _ => e

/-- The element without the attributes of the id. -/
def without (attrId : BitVec 8) : Ie → Ie
  | p2p attrs h => p2p (otherAttrs attrId attrs) (length_otherAttrs_le.trans h)
  | other e h => other e h

/-- The element has an attribute of the id. -/
def Has (attrId : BitVec 8) : Ie → Prop
  | p2p attrs _ => ∃ t ∈ attrs, t.id = attrId
  | other _ _ => False

end Ie

/-- The elements as they are sent. -/
def encodeIes (L : List Ie) : List (BitVec 8) := encode (L.map Ie.element)

/-- The elements without the attributes of the id. -/
def withoutAttr (attrId : BitVec 8) (L : List Ie) : List Ie := L.map (Ie.without attrId)

/-- The network with another list of elements behind the fixed bytes. -/
def withIes (b : BssidEx) (mem : ℕ → BitVec 8) (L : List Ie) : BssidEx :=
  { b with ies := mem, ieLength := fixedIeOffset b + (encodeIes L).length }

section BssEx

variable {b : BssidEx} {p turns attrTurns : ℕ} {attrId : BitVec 8} {L front behind : List Ie}
  {attrs : List Attribute}

theorem encodeIes_append : encodeIes (front ++ L) = encodeIes front ++ encodeIes L := by
  rw [encodeIes, List.map_append, encode_append]
  rfl

theorem encodeIes_cons {x : Ie} : encodeIes (x :: L) = x.element.bytes ++ encodeIes L := by
  rw [encodeIes, List.map_cons, encode_cons]
  rfl

theorem without_other {x : Ie} (h : ¬IsP2p x.element) : x.without attrId = x := by
  cases x with
  | p2p attrs hle => exact absurd (isP2p_p2pElement hle) h
  | other e he => rfl

theorem without_of_not_has {x : Ie} (h : ¬x.Has attrId) : x.without attrId = x := by
  cases x with
  | p2p attrs hle =>
    have hother : otherAttrs attrId attrs = attrs :=
      otherAttrs_of_none fun t ht hid => h ⟨t, ht, hid⟩
    simp only [Ie.without, hother]
  | other e he => rfl

theorem withoutAttr_of_other (h : ∀ x ∈ L, ¬IsP2p x.element) : withoutAttr attrId L = L := by
  rw [withoutAttr]
  nth_rewrite 2 [← List.map_id L]
  exact List.map_congr_left fun x hx => without_other (h x hx)

theorem encodeIes_withoutAttr {x : Ie} (h : ∀ y ∈ front, ¬IsP2p y.element) :
    encodeIes (withoutAttr attrId (front ++ x :: behind)) = encodeIes front ++
      ((x.without attrId).element.bytes ++ encodeIes (withoutAttr attrId behind)) := by
  rw [withoutAttr, List.map_append, List.map_cons, encodeIes_append, encodeIes_cons,
    ← withoutAttr, withoutAttr_of_other h, withoutAttr]

/-- The search finds the first P2P element. -/
theorem rtwGetP2pIe_encodeIes (h : HoldsAt b.ies p (encodeIes L))
    (hc : Comparable wlanEidVendorSpecific (some p2pOui) (L.map Ie.element))
    (hle : (encodeIes L).length ≤ maxIeSz) :
    (rtwGetP2pIe p (toInt (encodeIes L).length) false true).value b.ies =
      firstAt IsP2p p (L.map Ie.element) := by
  rw [encodeIes] at h hle ⊢
  rw [rtwGetP2pIe_of_holdsAt h hc (by rw [maxIeSz] at hle; omega)]
  rcases first_split IsP2p (L.map Ie.element) with hnone | ⟨front, x, behind, hL, hfront, hx⟩
  · rw [firstAt_of_none hnone]
    rfl
  · have hbody : 4 ≤ x.body.length := (hx.2 p2pOui rfl).length_le
    rw [hL, encode_split, List.length_append, List.length_append, length_bytes] at hle
    rw [hL, firstAt_append hfront hx, Option.filter_some, if_pos]
    simp only [decide_eq_true_eq]
    omega

/-- Without a P2P element nothing changes. -/
theorem bssExDelAttrLoop_of_other (h : HoldsAt b.ies p (encodeIes L))
    (hc : Comparable wlanEidVendorSpecific (some p2pOui) (L.map Ie.element))
    (hle : (encodeIes L).length ≤ maxIeSz) (hother : ∀ x ∈ L, ¬IsP2p x.element) :
    bssExDelAttrLoop attrId attrTurns (turns + 1) p (encodeIes L).length b = some b := by
  rw [bssExDelAttrLoop, rtwGetP2pIe_encodeIes h hc hle, firstAt_of_none]
  simpa using hother

/-- The removal in one element, which does nothing where there is nothing to remove. -/
theorem rtwDelP2pAttr_ie (attrId : BitVec 8) {mem : ℕ → BitVec 8} {ie : ℕ} {x : Ie} (hx : IsP2p x.element)
    (h : HoldsAt mem ie x.element.bytes) (hturns : 84 ≤ turns) :
    ∃ mem', rtwDelP2pAttr ie attrId turns mem x.element.bytes.length =
        some (mem', (x.without attrId).element.bytes.length) ∧
      Rewritten (· = 0) mem mem' ie x.element.bytes.length (x.without attrId).element.bytes ∧
      (¬x.Has attrId → mem' = mem) := by
  cases x with
  | other e he => exact absurd hx he
  | p2p attrs hle =>
    change HoldsAt mem ie (p2pElement attrs hle).bytes at h
    have hle' : (encodeAttrs (otherAttrs attrId attrs)).length ≤ 251 :=
      length_otherAttrs_le.trans hle
    obtain ⟨mem', hrun, hrest, -⟩ := rtwDelP2pAttr_spec h hturns hle'
    refine ⟨mem', hrun, hrest, fun hnone => ?_⟩
    have hlength := length_le_encodeAttrs attrs
    obtain ⟨turns, rfl⟩ := Nat.exists_eq_add_of_lt (show 0 < turns by omega)
    rw [Nat.zero_add] at hrun hturns
    rw [rtwDelP2pAttr_of_none h (by omega) fun t ht hid => hnone ⟨t, ht, hid⟩] at hrun
    exact (Prod.mk.inj (Option.some.inj hrun)).1.symm

/-- A turn removes the attributes from the first P2P element and goes on behind it. -/
theorem bssExDelAttrLoop_step {x : Ie} (h : HoldsAt b.ies p (encodeIes (front ++ x :: behind)))
    (hc : Comparable wlanEidVendorSpecific (some p2pOui)
      ((front ++ x :: behind).map Ie.element))
    (hsz : (encodeIes (front ++ x :: behind)).length ≤ maxIeSz)
    (hlen : b.ieLength = p + (encodeIes (front ++ x :: behind)).length)
    (hfront : ∀ y ∈ front, ¬IsP2p y.element) (hx : IsP2p x.element) (hturns : 84 ≤ attrTurns) :
    ∃ mem', bssExDelAttrLoop attrId attrTurns (turns + 1) p
          (encodeIes (front ++ x :: behind)).length b =
        bssExDelAttrLoop attrId attrTurns turns
          (p + (encodeIes front).length + (x.without attrId).element.bytes.length)
          (encodeIes behind).length
          { b with
            ies := mem'
            ieLength := p + (encodeIes front).length +
              (x.without attrId).element.bytes.length + (encodeIes behind).length } ∧
      Rewritten (· = 0) b.ies mem' (p + (encodeIes front).length)
        (x.element.bytes.length + (encodeIes behind).length)
        ((x.without attrId).element.bytes ++ encodeIes behind) ∧
      (¬x.Has attrId → mem' = b.ies) := by
  have hsearch : (rtwGetP2pIe p (toInt (encodeIes (front ++ x :: behind)).length) false
      true).value b.ies = some ⟨p + (encodeIes front).length, x.element.bytes.length, []⟩ := by
    rw [rtwGetP2pIe_encodeIes h hc hsz, List.map_append, List.map_cons,
      firstAt_append (by simpa using hfront) hx]
    rfl
  rw [bssExDelAttrLoop, hsearch]
  rw [encodeIes_append, encodeIes_cons] at h hlen
  rw [List.length_append, List.length_append] at hlen
  obtain ⟨-, htail⟩ := holdsAt_append.mp h
  obtain ⟨helem, hbehind⟩ := holdsAt_append.mp htail
  obtain ⟨mem', hdel, hrest, hsame⟩ := rtwDelP2pAttr_ie attrId hx helem hturns
  have hle := hrest.length_le
  dsimp only
  rw [if_neg (by omega), hdel, show b.ieLength -
    (p + (encodeIes front).length + x.element.bytes.length) = (encodeIes behind).length by omega]
  dsimp only
  by_cases hshort : (x.without attrId).element.bytes.length = x.element.bytes.length
  · refine ⟨mem', ?_, ?_, hsame⟩
    · rw [if_neg (not_not.mpr hshort), hshort, hlen, ← Nat.add_assoc, ← Nat.add_assoc]
    · exact hrest.append_behind hshort hbehind
  · refine ⟨_, ?_, hrest.squeeze hbehind, fun hnone => ?_⟩
    · rw [if_pos hshort, hlen, show p + ((encodeIes front).length + (x.element.bytes.length +
          (encodeIes behind).length)) -
            (x.element.bytes.length - (x.without attrId).element.bytes.length) =
          p + (encodeIes front).length + (x.without attrId).element.bytes.length +
            (encodeIes behind).length by omega]
    · exact absurd (by rw [without_of_not_has hnone]) hshort

theorem bssExDelAttrLoop_run (attrId : BitVec 8) (h : HoldsAt b.ies p (encodeIes L))
    (hc : Comparable wlanEidVendorSpecific (some p2pOui) (L.map Ie.element))
    (hsz : (encodeIes L).length ≤ maxIeSz) (hlen : b.ieLength = p + (encodeIes L).length)
    (hturns : L.length < turns) (hattr : 84 ≤ attrTurns) :
    ∃ mem', bssExDelAttrLoop attrId attrTurns turns p (encodeIes L).length b =
        some { b with
          ies := mem', ieLength := p + (encodeIes (withoutAttr attrId L)).length } ∧
      Rewritten (· = 0) b.ies mem' p (encodeIes L).length (encodeIes (withoutAttr attrId L)) ∧
      ((∀ x ∈ L, ¬x.Has attrId) → mem' = b.ies) := by
  induction turns generalizing p b L with
  | zero => omega
  | succ turns ih =>
    rcases first_split (fun x : Ie => IsP2p x.element) L with
      hother | ⟨front, x, behind, rfl, hfront, hx⟩
    · rw [withoutAttr_of_other hother, bssExDelAttrLoop_of_other h hc hsz hother, ← hlen]
      exact ⟨b.ies, rfl, .refl h, fun _ => rfl⟩
    · obtain ⟨mem, hstep, hturn, hsame⟩ :=
        bssExDelAttrLoop_step h hc hsz hlen hfront hx hattr
      rw [hstep]
      rw [encodeIes_append, encodeIes_cons] at h hsz hlen ⊢
      rw [List.length_append, List.length_append] at hsz ⊢
      obtain ⟨hhead, -⟩ := holdsAt_append.mp h
      obtain ⟨hx', hbehind⟩ := holdsAt_append.mp hturn.holds
      rw [List.length_append, List.length_cons] at hturns
      obtain ⟨mem', hrun, hrest, hsame'⟩ := ih (b := { b with ies := mem, ieLength := _ }) hbehind
        (fun e he => hc e (by
          rw [List.map_append, List.map_cons]
          exact List.mem_append_right _ (List.mem_cons_of_mem _ he))) (by omega) rfl (by omega)
      rw [encodeIes_withoutAttr hfront]
      refine ⟨mem', ?_, ?_, ?_⟩
      · rw [hrun, List.length_append, List.length_append]
        simp only [Nat.add_assoc]
      · exact .cons_front hhead (hturn.trans
          (by simpa only [List.length_append] using Rewritten.cons_front hx' hrest))
      · intro hnone
        rw [hsame' fun y hy => hnone y (by simp [hy])]
        exact hsame (hnone x (by simp))

/-- Behind the removal no element has an attribute of the id. -/
theorem not_has_without (x : Ie) : ¬(x.without attrId).Has attrId := by
  cases x with
  | p2p attrs hle =>
    rintro ⟨t, ht, hid⟩
    exact forall_mem_otherAttrs t ht hid
  | other e he => exact id

theorem comparable_withoutAttr
    (hc : Comparable wlanEidVendorSpecific (some p2pOui) (L.map Ie.element)) :
    Comparable wlanEidVendorSpecific (some p2pOui) ((withoutAttr attrId L).map Ie.element) := by
  intro e he hid
  rw [withoutAttr, List.map_map] at he
  obtain ⟨x, hx, rfl⟩ := List.mem_map.mp he
  cases x with
  | p2p attrs hle =>
    have hle' : (encodeAttrs (otherAttrs attrId attrs)).length ≤ 251 :=
      length_otherAttrs_le.trans hle
    exact fun u hu => ((isP2p_p2pElement hle').2 u hu).length_le
  | other e he => exact hc e (List.mem_map.mpr ⟨_, hx, rfl⟩) hid

/-- The attributes of the id are removed from every P2P element and nothing else is, and another
call removes nothing. -/
theorem rtwBssExDelP2pAttr_spec (attrId : BitVec 8)
    (h : HoldsAt b.ies (fixedIeOffset b) (encodeIes L))
    (hc : Comparable wlanEidVendorSpecific (some p2pOui) (L.map Ie.element))
    (hlen : b.ieLength = fixedIeOffset b + (encodeIes L).length) (hsz : b.ieLength ≤ maxIeSz)
    (hturns : L.length < turns) (hattr : 84 ≤ attrTurns) :
    ∃ mem', rtwBssExDelP2pAttr turns attrTurns b attrId =
        some (withIes b mem' (withoutAttr attrId L)) ∧
      Rewritten (· = 0) b.ies mem' (fixedIeOffset b) (encodeIes L).length
        (encodeIes (withoutAttr attrId L)) ∧
      rtwBssExDelP2pAttr turns attrTurns (withIes b mem' (withoutAttr attrId L)) attrId =
        some (withIes b mem' (withoutAttr attrId L)) := by
  obtain ⟨mem', hrun, hrest, -⟩ :=
    bssExDelAttrLoop_run attrId h hc (by omega) hlen hturns hattr
  have hshort := hrest.length_le
  have hnone : ∀ x ∈ withoutAttr attrId L, ¬x.Has attrId := by
    intro x hx
    obtain ⟨y, -, rfl⟩ := List.mem_map.mp hx
    exact not_has_without y
  have hsame : withoutAttr attrId (withoutAttr attrId L) = withoutAttr attrId L := by
    rw [withoutAttr]
    nth_rewrite 2 [← List.map_id (withoutAttr attrId L)]
    exact List.map_congr_left fun x hx => without_of_not_has (hnone x hx)
  have hlength : (withoutAttr attrId L).length < turns := by rwa [withoutAttr, List.length_map]
  obtain ⟨mem'', hrun', -, hmem⟩ := bssExDelAttrLoop_run (b := withIes b mem' (withoutAttr attrId L))
    attrId hrest.holds (comparable_withoutAttr hc) (by omega) rfl hlength hattr
  rw [hmem hnone, hsame] at hrun'
  refine ⟨mem', ?_, hrest, ?_⟩
  · rw [rtwBssExDelP2pAttr, hlen, Nat.add_sub_cancel_left]
    exact hrun
  · rw [rtwBssExDelP2pAttr]
    change bssExDelAttrLoop attrId attrTurns turns (fixedIeOffset b) (fixedIeOffset b +
      (encodeIes (withoutAttr attrId L)).length - fixedIeOffset b) _ = _
    rw [Nat.add_sub_cancel_left]
    exact hrun'

end BssEx

/-- From a list of elements exactly the matches are removed: elements by `rtw_ies_remove_ie` and, up
to `MAX_IE_SZ - 5`, by `rtw_del_p2p_ie`; attributes by `rtw_del_p2p_attr` and
`rtw_bss_ex_del_p2p_attr`. -/
theorem removes_exactly {mem : ℕ → BitVec 8} {ies offset turns attrTurns : ℕ} {l : List Element}
    (h : HoldsAt mem (ies + offset) (encode l))
    (hvendor : ∀ e ∈ l, e.id = wlanEidVendorSpecific → 4 ≤ e.body.length)
    (hturns : l.length < turns) (hattr : 84 ≤ attrTurns) :
    (∀ eid oui, Comparable eid oui l →
      ∃ r, rtwIesRemoveIe turns mem ies (offset + (encode l).length) offset eid oui = some r ∧
        Rewritten (fun _ => True) mem r.mem (ies + offset) (encode l).length
          (encode (without eid oui l)) ∧
        r.iesLen = offset + (encode (without eid oui l)).length ∧
        (r.ret = true ↔ ∃ e ∈ l, Matches eid oui e) ∧
        rtwIesRemoveIe turns r.mem ies r.iesLen offset eid oui = some { r with ret := false }) ∧
    ((encode l).length < 2 ^ 31 →
      ∃ mem', rtwDelP2pIe (ies + offset) turns mem (encode l).length =
          some (mem', (encode (keptFrom 0 l)).length) ∧
        Rewritten (· = 0) mem mem' (ies + offset) (encode l).length (encode (keptFrom 0 l)) ∧
        ((encode l).length ≤ maxIeSz →
          keptFrom 0 l = without wlanEidVendorSpecific (some p2pOui) l) ∧
        rtwDelP2pIe (ies + offset) turns mem' (encode (keptFrom 0 l)).length =
          some (mem', (encode (keptFrom 0 l)).length)) ∧
    (∀ attrs hle attrId, l = [p2pElement attrs hle] →
      ∃ mem' hle', rtwDelP2pAttr (ies + offset) attrId attrTurns mem (encode l).length =
          some (mem', (p2pElement (otherAttrs attrId attrs) hle').bytes.length) ∧
        Rewritten (· = 0) mem mem' (ies + offset) (encode l).length
          (p2pElement (otherAttrs attrId attrs) hle').bytes ∧
        rtwDelP2pAttr (ies + offset) attrId attrTurns mem'
            (p2pElement (otherAttrs attrId attrs) hle').bytes.length =
          some (mem', (p2pElement (otherAttrs attrId attrs) hle').bytes.length)) ∧
    ∀ (b : BssidEx) (L : List Ie) (attrId : BitVec 8), b.ies = mem → L.map Ie.element = l →
      fixedIeOffset b = ies + offset → b.ieLength = fixedIeOffset b + (encode l).length →
      b.ieLength ≤ maxIeSz →
      ∃ mem', rtwBssExDelP2pAttr turns attrTurns b attrId =
          some (withIes b mem' (withoutAttr attrId L)) ∧
        Rewritten (· = 0) mem mem' (fixedIeOffset b) (encode l).length
          (encodeIes (withoutAttr attrId L)) ∧
        rtwBssExDelP2pAttr turns attrTurns (withIes b mem' (withoutAttr attrId L)) attrId =
          some (withIes b mem' (withoutAttr attrId L)) := by
  have hc : Comparable wlanEidVendorSpecific (some p2pOui) l := by
    rintro e he hid u ⟨⟩
    exact hvendor e he hid
  refine ⟨?_, ?_, ?_, ?_⟩
  · intro eid oui hcomparable
    exact rtwIesRemoveIe_spec h hcomparable hturns
  · intro hlen
    obtain ⟨mem', hrun, hrest, hagain⟩ := rtwDelP2pIe_spec h hc hlen hturns
    refine ⟨mem', hrun, hrest, fun hle => keptFrom_eq_without (by omega), hagain⟩
  · rintro attrs hle attrId rfl
    have hle' : (encodeAttrs (otherAttrs attrId attrs)).length ≤ 251 :=
      length_otherAttrs_le.trans hle
    have hone : encode [p2pElement attrs hle] = (p2pElement attrs hle).bytes := by
      rw [encode_cons, encode_nil, List.append_nil]
    rw [hone] at h ⊢
    obtain ⟨mem', hspec⟩ := rtwDelP2pAttr_spec h hattr hle'
    exact ⟨mem', hle', hspec⟩
  · rintro b L attrId rfl rfl hoff hlen hsz
    rw [← hoff] at h
    rw [List.length_map] at hturns
    exact rtwBssExDelP2pAttr_spec attrId h hc hlen hsz hturns hattr

/-- A P2P element with one attribute. -/
def oneP2p : Element := p2pElement [⟨2, [1]⟩] (by decide)

/-- An SSID and a list of rates. -/
def ssidAndRates : List Element := [⟨0, [0x61], by decide⟩, ⟨1, [2], by decide⟩]

def withP2p : List Element := [⟨0, [0x61], by decide⟩, oneP2p, ⟨1, [2], by decide⟩]

theorem removes_p2p_between :
    (∃ r, rtwIesRemoveIe 4 (store (fun _ => 0) 0 (encode withP2p)) 0 16 0 wlanEidVendorSpecific
        (some p2pOui) = some r ∧ HoldsAt r.mem 0 (encode ssidAndRates) ∧ r.iesLen = 6 ∧
        r.ret = true) ∧
      ∃ mem, rtwDelP2pIe 0 4 (store (fun _ => 0) 0 (encode withP2p)) 16 = some (mem, 6) ∧
        HoldsAt mem 0 (encode ssidAndRates) := by
  have hvendor : ∀ e ∈ withP2p, e.id = wlanEidVendorSpecific → 4 ≤ e.body.length := by decide
  have h : HoldsAt (store (fun _ => 0) 0 (encode withP2p)) (0 + 0) (encode withP2p) :=
    holdsAt_store _ _ _
  have hturns : withP2p.length < 4 := by decide
  have hkept : encode (without wlanEidVendorSpecific (some p2pOui) withP2p) =
      encode ssidAndRates := by decide
  obtain ⟨hremove, hdel, -⟩ := removes_exactly h hvendor hturns (le_refl 84)
  obtain ⟨r, hrun, hrest, hlen, hret, -⟩ := hremove wlanEidVendorSpecific (some p2pOui) (by
    rintro e he hid u ⟨⟩
    exact hvendor e he hid)
  obtain ⟨mem, hrun', hrest', hsame, -⟩ := hdel (by decide)
  rw [hkept] at hrest hlen
  rw [hsame (by decide), hkept] at hrun' hrest'
  have hmatch : Matches wlanEidVendorSpecific (some p2pOui) oneP2p := by decide
  have hmem : oneP2p ∈ withP2p := List.mem_cons_of_mem _ List.mem_cons_self
  exact ⟨⟨r, hrun, hrest.holds, hlen, hret.mpr ⟨oneP2p, hmem, hmatch⟩⟩, mem, hrun',
    hrest'.holds⟩

/-- An element of 255 bytes. -/
def filler : Element := ⟨0, List.replicate 253 0, by rw [List.length_replicate]; decide⟩

def farP2p : List Element := List.replicate 3 filler ++ [p2pElement [] (by decide)]

/-- A vendor element of four bytes in front of an element whose id goes on with its OUI. -/
def shortVendor : List Element := [p2pElement [] (by decide), ⟨7, [], by decide⟩]

theorem length_fillers : (encode (List.replicate 3 filler)).length = 765 := by
  have hfiller : filler.bytes.length = 255 := by
    rw [length_bytes]
    exact congrArg (· + 2) List.length_replicate
  rw [show List.replicate 3 filler = [filler, filler, filler] from rfl, encode_cons, encode_cons,
    encode_cons, encode_nil]
  simp only [List.length_append, hfiller, List.length_nil]

theorem not_isP2p_fillers : ∀ e ∈ List.replicate 3 filler, ¬IsP2p e := by
  intro e he
  rw [List.eq_of_mem_replicate he]
  exact fun hp => absurd hp.1 (by decide)

/-- A P2P element behind `MAX_IE_SZ - 5` bytes stays, and an OUI that is longer than an element is
compared with what follows it. -/
theorem removes_more_and_less :
    (rtwDelP2pIe 0 5 (store (fun _ => 0) 0 (encode farP2p)) (encode farP2p).length =
        some (store (fun _ => 0) 0 (encode farP2p), (encode farP2p).length) ∧
      (encode (without wlanEidVendorSpecific (some p2pOui) farP2p)).length <
        (encode farP2p).length) ∧
    without wlanEidVendorSpecific (some (p2pOui ++ [7])) shortVendor = shortVendor ∧
    ∃ r, rtwIesRemoveIe 5 (store (fun _ => 0) 0 (encode shortVendor)) 0 8 0 wlanEidVendorSpecific
      (some (p2pOui ++ [7])) = some r ∧ r.iesLen = 2 := by
  have hlen : (encode farP2p).length = 771 := by
    rw [farP2p, encode_append, List.length_append, length_fillers]
    rfl
  refine ⟨⟨?_, ?_⟩, ?_, ?_⟩
  · refine rtwDelP2pIe_of_kept (holdsAt_store _ _ _) ?_ (by omega) ?_
    · rintro e he hid u ⟨⟩
      rcases List.mem_append.mp he with he | he
      · rw [List.eq_of_mem_replicate he] at hid
        exact absurd hid (by decide)
      · rw [List.mem_singleton.mp he]
        decide
    · rw [farP2p, keptFrom_append not_isP2p_fillers, keptFrom_of_ge]
      rw [length_fillers]
      decide
  · have hwithout : without wlanEidVendorSpecific (some p2pOui) farP2p =
        List.replicate 3 filler := by
      rw [farP2p, without_append not_isP2p_fillers (isP2p_p2pElement (by decide))]
      rfl
    rw [hwithout, length_fillers, hlen]
    decide
  · exact without_of_none (by decide)
  · refine ⟨⟨memmove (store (fun _ => 0) 0 (encode shortVendor)) 0 6 2, 2, true⟩, ?_, rfl⟩
    have hfirst : (rtwGetIeEx 0 8 wlanEidVendorSpecific (some (p2pOui ++ [7])) false true).value
        (store (fun _ => 0) 0 (encode shortVendor)) = some ⟨0, 6, []⟩ := by
      rw [rtwGetIeEx, getIeExLoop, if_pos (by decide), value_cell_bind, value_bind,
        if_pos (by decide)]
      rfl
    have hsecond : (rtwGetIeEx 0 2 wlanEidVendorSpecific (some (p2pOui ++ [7])) false true).value
        (memmove (store (fun _ => 0) 0 (encode shortVendor)) 0 6 2) = none := by
      rw [rtwGetIeEx, getIeExLoop, if_pos (by decide), value_cell_bind, value_bind,
        if_neg (by decide), value_cell_bind, getIeExLoop, if_neg (by decide), value_pure]
    rw [rtwIesRemoveIe, if_neg (by decide), removeIeLoop, hfirst]
    dsimp only
    rw [if_neg (by decide), if_neg (by decide), removeIeLoop, hsecond]

end Rtl8821cu.P2pAttrRemove
