import Rtl8821cu.LibElements

/-! The TIM element of an access point: `rtw_set_tim_ie` (`core/rtw_ap.c`). -/
namespace Rtl8821cu.TimIe
open Elements

def wlanEidTim : BitVec 8 := 5

/-- `bmp[i]`. -/
def octet (bmp : List (BitVec 8)) (i : ℕ) : BitVec 8 := bmp.getD i 0

def rtwBmpNotEmpty (bmp : List (BitVec 8)) : Bool := bmp.any (· ≠ 0)

def rtwBmpIsSet (bmp : List (BitVec 8)) (id : ℕ) : Bool :=
  if bmp.length ≤ id / 8 then false else (octet bmp (id / 8)).getLsbD (id % 8)

/-- The search for the first octet that is not zero, from octet `i` on. -/
def firstOctet (bmp : List (BitVec 8)) (i : ℕ) : ℕ :=
  if i < bmp.length then
    if octet bmp i ≠ 0 then i else firstOctet bmp (i + 1)
  else i
termination_by bmp.length - i

/-- The search for the last octet that is not zero, from octet `i` down to octet 1. -/
def lastOctet (bmp : List (BitVec 8)) : ℕ → ℕ
  | 0 => 0
  | i + 1 => if octet bmp (i + 1) ≠ 0 then i + 1 else lastOctet bmp i

/-- `n1` and `n2`, the octets of the bitmap that are sent. -/
def sentOctets (bmp : List (BitVec 8)) : ℕ × ℕ :=
  if rtwBmpNotEmpty bmp then
    (firstOctet bmp 0 / 2 * 2, lastOctet bmp (bmp.length - 1))
  else (0, 0)

/-- `rtw_set_tim_ie`: the length it returns and what it writes. -/
def rtwSetTimIe (dtimCnt dtimPeriod : BitVec 8) (timBmp : List (BitVec 8)) :
    BitVec 8 × List (BitVec 8) :=
  let (n1, n2) := sentOctets timBmp
  let bmpLen := n2 - n1 + 1
  (BitVec.ofNat 8 (2 + 2 + 1 + bmpLen),
    [wlanEidTim, BitVec.ofNat 8 (2 + 1 + bmpLen), dtimCnt, dtimPeriod,
      (if rtwBmpIsSet timBmp 0 then 1 else 0) ||| BitVec.ofNat 8 n1] ++
    (timBmp.drop n1).take bmpLen)

/-- A TIM as the standard has it. -/
structure Tim where
  dtimCnt : BitVec 8
  dtimPeriod : BitVec 8
  bitmapCtl : BitVec 8
  partialBitmap : List (BitVec 8)
  length_pos : 0 < partialBitmap.length
  length_le : partialBitmap.length ≤ 251

namespace Tim

/-- The element that carries it. -/
def element (t : Tim) : Element where
  id := wlanEidTim
  body := t.dtimCnt :: t.dtimPeriod :: t.bitmapCtl :: t.partialBitmap
  length_le := by
    have := t.length_le
    simp only [List.length_cons]
    omega

/-- Where the partial virtual bitmap starts. -/
def offset (t : Tim) : ℕ := 2 * (t.bitmapCtl >>> 1).toNat

/-- The traffic indication of an AID. -/
def traffic (t : Tim) (aid : ℕ) : Bool :=
  decide (t.offset ≤ aid / 8) && (octet t.partialBitmap (aid / 8 - t.offset)).getLsbD (aid % 8)

/-- The group traffic indication. -/
def group (t : Tim) : Bool := t.bitmapCtl.getLsbD 0

end Tim

/-- The element says what the bitmap does, and has the length that is returned. -/
structure Encodes (dtimCnt dtimPeriod : BitVec 8) (bmp : List (BitVec 8))
    (r : BitVec 8 × List (BitVec 8)) (t : Tim) : Prop where
  wellFormed : r.2 = t.element.bytes
  length : r.1.toNat = r.2.length
  dtim : t.dtimCnt = dtimCnt ∧ t.dtimPeriod = dtimPeriod
  traffic : ∀ aid, 1 ≤ aid → aid ≤ 8 * bmp.length - 1 →
    (t.traffic aid = true ↔ (octet bmp (aid / 8)).getLsbD (aid % 8) = true)
  group : t.group = (octet bmp 0).getLsbD 0

section Octets

variable {bmp : List (BitVec 8)}

theorem firstOctet_zero {i j : ℕ} (hi : i ≤ j) (hj : j < firstOctet bmp i) : octet bmp j = 0 := by
  fun_induction firstOctet bmp i with
  | case1 i hlt hne => omega
  | case2 i hlt heq ih =>
    rcases Nat.eq_or_lt_of_le hi with rfl | hi
    · exact not_not.mp heq
    · exact ih hi hj
  | case3 i hge => omega

theorem firstOctet_spec {i k : ℕ} (hk : k < bmp.length) (hi : i ≤ k) (hne : octet bmp k ≠ 0) :
    firstOctet bmp i ≤ k ∧ octet bmp (firstOctet bmp i) ≠ 0 := by
  fun_induction firstOctet bmp i with
  | case1 i hlt h => exact ⟨hi, h⟩
  | case2 i hlt heq ih =>
    refine ih ?_
    rcases Nat.eq_or_lt_of_le hi with rfl | hi
    · exact absurd (not_not.mp heq) hne
    · exact hi
  | case3 i hge => omega

theorem lastOctet_le (i : ℕ) : lastOctet bmp i ≤ i := by
  fun_induction lastOctet bmp i with
  | case1 => exact le_rfl
  | case2 i h => exact le_rfl
  | case3 i h ih => omega

theorem lastOctet_zero {i j : ℕ} (hj : lastOctet bmp i < j) (hi : j ≤ i) : octet bmp j = 0 := by
  fun_induction lastOctet bmp i with
  | case1 => omega
  | case2 i h => omega
  | case3 i h ih =>
    rcases Nat.eq_or_lt_of_le hi with rfl | hi
    · exact not_not.mp h
    · exact ih hj (by omega)

theorem le_lastOctet {i k : ℕ} (hk : k ≤ i) (hne : octet bmp k ≠ 0) : k ≤ lastOctet bmp i := by
  by_contra h
  exact hne (lastOctet_zero (not_le.mp h) hk)

theorem octet_of_length_le {i : ℕ} (h : bmp.length ≤ i) : octet bmp i = 0 := by
  rw [octet, List.getD_eq_getElem?_getD, List.getElem?_eq_none h, Option.getD_none]

theorem exists_octet (h : rtwBmpNotEmpty bmp = true) : ∃ k < bmp.length, octet bmp k ≠ 0 := by
  obtain ⟨b, hb, hne⟩ := List.any_eq_true.mp h
  obtain ⟨k, hk, rfl⟩ := List.getElem_of_mem hb
  refine ⟨k, hk, ?_⟩
  rw [octet, List.getD_eq_getElem?_getD, List.getElem?_eq_getElem hk, Option.getD_some]
  exact of_decide_eq_true hne

theorem octet_eq_zero (h : rtwBmpNotEmpty bmp = false) (k : ℕ) : octet bmp k = 0 := by
  rcases Nat.lt_or_ge k bmp.length with hk | hk
  · have := List.any_eq_false.mp h bmp[k] (List.getElem_mem hk)
    rw [octet, List.getD_eq_getElem?_getD, List.getElem?_eq_getElem hk, Option.getD_some]
    simpa using this
  · exact octet_of_length_le hk

theorem octet_lastOctet (i : ℕ) : lastOctet bmp i = 0 ∨ octet bmp (lastOctet bmp i) ≠ 0 := by
  fun_induction lastOctet bmp i with
  | case1 => exact Or.inl rfl
  | case2 i h => exact Or.inr h
  | case3 i h ih => exact ih

/-- Everything that is set lies in the octets that are sent, and these start at an even one. -/
structure Window (bmp : List (BitVec 8)) (n1 n2 : ℕ) : Prop where
  even : n1 / 2 * 2 = n1
  le : n1 ≤ n2
  lt : n2 < bmp.length
  before : ∀ j < n1, octet bmp j = 0
  behind : ∀ j, n2 < j → octet bmp j = 0
  first : n1 = 0 → n2 ≠ 0 → octet bmp 0 ≠ 0 ∨ octet bmp 1 ≠ 0
  last : n2 ≠ 0 → octet bmp n2 ≠ 0

theorem sentOctets_window (hpos : 0 < bmp.length) :
    Window bmp (sentOctets bmp).1 (sentOctets bmp).2 := by
  cases hempty : rtwBmpNotEmpty bmp with
  | false =>
    rw [sentOctets, if_neg (by simp [hempty])]
    exact ⟨rfl, le_rfl, hpos, fun j _ ↦ octet_eq_zero hempty j, fun j _ ↦ octet_eq_zero hempty j,
      fun _ h ↦ absurd rfl h, fun h ↦ absurd rfl h⟩
  | true =>
    rw [sentOctets, if_pos hempty]
    obtain ⟨k, hk, hne⟩ := exists_octet hempty
    obtain ⟨hfirst, hset⟩ := firstOctet_spec hk (Nat.zero_le k) hne
    have hlast := le_lastOctet (i := bmp.length - 1) (by omega) hset
    have hle := @lastOctet_le bmp (bmp.length - 1)
    refine ⟨by omega, by dsimp only; omega, by dsimp only; omega, ?_, ?_, ?_, ?_⟩
    · intro j hj
      exact firstOctet_zero (Nat.zero_le j) (lt_of_lt_of_le hj (by dsimp only; omega))
    · intro j hj
      rcases Nat.lt_or_ge j bmp.length with hlt | hge
      · exact lastOctet_zero hj (by omega)
      · exact octet_of_length_le hge
    · intro h _
      obtain h0 | h1 : firstOctet bmp 0 = 0 ∨ firstOctet bmp 0 = 1 := by
        dsimp only at h
        omega
      · exact Or.inl (by rwa [h0] at hset)
      · exact Or.inr (by rwa [h1] at hset)
    · exact (octet_lastOctet _).resolve_left

theorem octet_take_drop (n m i : ℕ) :
    octet ((bmp.drop n).take m) i = if i < m then octet bmp (n + i) else 0 := by
  simp only [octet, List.getD_eq_getElem?_getD, List.getElem?_take, List.getElem?_drop]
  split_ifs <;> rfl

/-- The bitmap control of an even octet number. -/
theorem bitmapCtl (group : Bool) {n : ℕ} (hn : n < 256) (heven : n / 2 * 2 = n) :
    2 * (((if group then 1 else 0) ||| BitVec.ofNat 8 n : BitVec 8) >>> 1).toNat = n ∧
      ((if group then 1 else 0) ||| BitVec.ofNat 8 n : BitVec 8).getLsbD 0 = group := by
  have hall : ∀ m < 128, ∀ g : Bool,
      2 * (((if g then 1 else 0) ||| BitVec.ofNat 8 (m * 2) : BitVec 8) >>> 1).toNat = m * 2 ∧
      ((if g then 1 else 0) ||| BitVec.ofNat 8 (m * 2) : BitVec 8).getLsbD 0 = g := by decide
  rw [← heven]
  exact hall (n / 2) (by omega) group

end Octets

/-- The TIM that is written for a bitmap. -/
def timOf (dtimCnt dtimPeriod : BitVec 8) (bmp : List (BitVec 8)) {n1 n2 : ℕ}
    (h : Window bmp n1 n2) (hlen : bmp.length ≤ 251) : Tim where
  dtimCnt := dtimCnt
  dtimPeriod := dtimPeriod
  bitmapCtl := (if rtwBmpIsSet bmp 0 then 1 else 0) ||| BitVec.ofNat 8 n1
  partialBitmap := (bmp.drop n1).take (n2 - n1 + 1)
  length_pos := by
    have := h.le
    have := h.lt
    rw [List.length_take, List.length_drop]
    omega
  length_le := by
    rw [List.length_take, List.length_drop]
    omega

section Encoding

variable {dtimCnt dtimPeriod : BitVec 8} {bmp : List (BitVec 8)} {n1 n2 : ℕ}

theorem length_timOf (h : Window bmp n1 n2) (hlen : bmp.length ≤ 251) :
    (timOf dtimCnt dtimPeriod bmp h hlen).partialBitmap.length = n2 - n1 + 1 := by
  have := h.le
  have := h.lt
  rw [timOf, List.length_take, List.length_drop]
  omega

theorem offset_timOf (h : Window bmp n1 n2) (hlen : bmp.length ≤ 251) :
    (timOf dtimCnt dtimPeriod bmp h hlen).offset = n1 :=
  (bitmapCtl _ (by have := h.le; have := h.lt; omega) h.even).1

theorem rtwBmpIsSet_zero (hpos : 0 < bmp.length) : rtwBmpIsSet bmp 0 = (octet bmp 0).getLsbD 0 := by
  rw [rtwBmpIsSet, if_neg (by omega)]

/-- What is written tells the traffic of every AID, in the window or not. -/
theorem traffic_timOf (h : Window bmp n1 n2) (hlen : bmp.length ≤ 251) (aid : ℕ) :
    (timOf dtimCnt dtimPeriod bmp h hlen).traffic aid =
      (octet bmp (aid / 8)).getLsbD (aid % 8) := by
  rw [Tim.traffic, offset_timOf]
  show (decide (n1 ≤ aid / 8) &&
    (octet ((bmp.drop n1).take (n2 - n1 + 1)) (aid / 8 - n1)).getLsbD (aid % 8)) = _
  by_cases hn1 : n1 ≤ aid / 8
  · rw [decide_eq_true hn1, Bool.true_and, octet_take_drop]
    split_ifs with hin
    · rw [Nat.add_sub_cancel' hn1]
    · rw [h.behind (aid / 8) (by have := h.le; omega)]
  · rw [decide_eq_false hn1, Bool.false_and, h.before (aid / 8) (by omega)]
    exact BitVec.getLsbD_zero.symm

theorem length_element (t : Tim) : t.element.bytes.length = t.partialBitmap.length + 5 := rfl

theorem rtwSetTimIe_eq (h : Window bmp (sentOctets bmp).1 (sentOctets bmp).2)
    (hlen : bmp.length ≤ 251) :
    rtwSetTimIe dtimCnt dtimPeriod bmp =
      (BitVec.ofNat 8 (timOf dtimCnt dtimPeriod bmp h hlen).element.bytes.length,
        (timOf dtimCnt dtimPeriod bmp h hlen).element.bytes) := by
  have hbody : (timOf dtimCnt dtimPeriod bmp h hlen).element.body.length =
      2 + 1 + ((sentOctets bmp).2 - (sentOctets bmp).1 + 1) := by
    rw [← @length_timOf dtimCnt dtimPeriod _ _ _ h hlen, Nat.add_comm]
    rfl
  rw [length_element, length_timOf h hlen, Element.bytes, hbody, Nat.add_comm _ 5]
  rfl

/-- The whole bitmap is sent when there is something in its first two octets and in its last. -/
theorem Window.whole_iff (h : Window bmp n1 n2) (hlen : bmp.length ≤ 251) :
    n2 - n1 + 1 = 251 ↔
      bmp.length = 251 ∧ (octet bmp 0 ≠ 0 ∨ octet bmp 1 ≠ 0) ∧ octet bmp 250 ≠ 0 := by
  have heven := h.even
  have hlt := h.lt
  constructor
  · intro hwhole
    obtain rfl : n1 = 0 := by omega
    obtain rfl : n2 = 250 := by omega
    exact ⟨by omega, h.first rfl (by decide), h.last (by decide)⟩
  · rintro ⟨hlength, hfirst, hlast⟩
    have hn2 : ¬n2 < 250 := fun hlt ↦ hlast (h.behind 250 hlt)
    have hn1 : n1 = 0 := by
      by_contra hne
      rcases hfirst with h0 | h1
      · exact h0 (h.before 0 (by omega))
      · exact h1 (h.before 1 (by omega))
    omega

/-- The element is right for every bitmap, and its length is returned unless the whole of 251 octets
is sent. -/
theorem encodes_timOf (h : Window bmp (sentOctets bmp).1 (sentOctets bmp).2)
    (hlen : bmp.length ≤ 251) (hnot : (sentOctets bmp).2 - (sentOctets bmp).1 + 1 ≠ 251) :
    Encodes dtimCnt dtimPeriod bmp (rtwSetTimIe dtimCnt dtimPeriod bmp)
      (timOf dtimCnt dtimPeriod bmp h hlen) := by
  have hle := h.le
  have hlt := h.lt
  have hbytes := length_element (timOf dtimCnt dtimPeriod bmp h hlen)
  rw [length_timOf] at hbytes
  rw [rtwSetTimIe_eq h hlen]
  refine ⟨rfl, ?_, ⟨rfl, rfl⟩, fun aid _ _ ↦ ?_, ?_⟩
  · show (BitVec.ofNat 8 _).toNat = _
    rw [BitVec.toNat_ofNat, hbytes]
    omega
  · rw [traffic_timOf]
  · rw [← rtwBmpIsSet_zero (by omega)]
    exact (bitmapCtl _ (by omega) h.even).2

/-- The element with its length is what the bitmap calls for, unless the whole of 251 octets is
sent: 256 does not fit the byte that is returned. -/
theorem rtwSetTimIe_encodes_iff (dtimCnt dtimPeriod : BitVec 8) (bmp : List (BitVec 8))
    (hpos : 1 ≤ bmp.length) (hlen : bmp.length ≤ 251) :
    (∃ t, Encodes dtimCnt dtimPeriod bmp (rtwSetTimIe dtimCnt dtimPeriod bmp) t) ↔
      ¬(bmp.length = 251 ∧ (octet bmp 0 ≠ 0 ∨ octet bmp 1 ≠ 0) ∧ octet bmp 250 ≠ 0) := by
  have h := sentOctets_window hpos
  rw [← h.whole_iff hlen]
  refine ⟨?_, fun hnot ↦ ⟨_, encodes_timOf h hlen hnot⟩⟩
  rintro ⟨t, ht⟩ hall
  have hlength := ht.length
  rw [rtwSetTimIe_eq h hlen] at hlength
  dsimp only at hlength
  rw [length_element, length_timOf, hall] at hlength
  exact absurd hlength (by decide)

/-- Traffic for AID 21 and nothing else. -/
def oneAid : List (BitVec 8) := [0, 0, 0x20, 0]

theorem oneAid_encodes : ∃ t, Encodes 0 1 oneAid (rtwSetTimIe 0 1 oneAid) t :=
  (rtwSetTimIe_encodes_iff 0 1 oneAid (by decide) (by decide)).mpr (by decide)

/-- Group traffic and traffic for AID 2000. -/
def farAid : List (BitVec 8) := 1 :: List.replicate 249 0 ++ [1]

/-- The returned length is 0. -/
theorem farAid_not_encodes : ¬∃ t, Encodes 0 1 farAid (rtwSetTimIe 0 1 farAid) t := by
  have hlen : farAid.length = 251 := by
    rw [farAid, List.length_append, List.length_cons, List.length_replicate]
    rfl
  have h := @sentOctets_window farAid (by omega)
  have hfront : (1 :: List.replicate 249 (0 : BitVec 8)).length = 250 := by
    rw [List.length_cons, List.length_replicate]
  have hlast : octet farAid 250 = 1 := by
    rw [octet, farAid, List.getD_append_right _ _ _ _ hfront.le, hfront]
    rfl
  have hall := (h.whole_iff hlen.le).mpr ⟨hlen, Or.inl (by decide), by rw [hlast]; decide⟩
  rintro ⟨t, ht⟩
  have hlength := ht.length
  rw [rtwSetTimIe_eq h hlen.le] at hlength
  dsimp only at hlength
  rw [length_element, length_timOf, hall] at hlength
  exact absurd hlength (by decide)

end Encoding

end Rtl8821cu.TimIe
