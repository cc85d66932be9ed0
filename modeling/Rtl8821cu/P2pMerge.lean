import Rtl8821cu.IeRemove

/-! The P2P elements of a list are merged into one (`core/rtw_ieee80211.c`). -/
namespace Rtl8821cu.P2pMerge
open Store Elements IeSearch IeRemove
open Ies (wlanEidVendorSpecific)

/-- The test on `pIE` that both functions make. -/
def isP2pAt (mem : ℕ → BitVec 8) (p : ℕ) : Bool :=
  mem p == wlanEidVendorSpecific && load mem (p + 2) 4 == p2pOui

/-- The loop of `rtw_get_p2p_merged_ies_len`. -/
def mergedLenLoop (mem : ℕ → BitVec 8) (inIe inLen i : ℕ) (len : ℤ) : ℤ :=
  if i < inLen then
    let pIE := inIe + i
    let length := (mem (pIE + 1)).toNat
    mergedLenLoop mem inIe inLen (i + (length + 2))
      (if isP2pAt mem pIE then len + ((length : ℤ) - 4) else len)
  else len
termination_by inLen - i

def rtwGetP2pMergedIesLen (mem : ℕ → BitVec 8) (inIe inLen : ℕ) : ℕ :=
  ((mergedLenLoop mem inIe inLen 0 0 + 4) % 2 ^ 32).toNat

/-- The loop of `rtw_p2p_merge_ies`, with the bytes written so far and the 8-bit `len`. The copy of a
negative length is a memory fault. -/
def mergeLoop (mem : ℕ → BitVec 8) (inIe inLen i : ℕ) (out : List (BitVec 8)) (len : BitVec 8) :
    Option (List (BitVec 8) × BitVec 8) :=
  if i < inLen then
    let pIE := inIe + i
    let length := (mem (pIE + 1)).toNat
    if isP2pAt mem pIE then
      if length < 4 then none
      else mergeLoop mem inIe inLen (i + (length + 2))
        (out ++ load mem (pIE + 2 + 4) (length - 4)) (len + BitVec.ofNat 8 (length - 4))
    else mergeLoop mem inIe inLen (i + (length + 2)) out len
  else some (out, len)
termination_by inLen - i

def eloui : List (BitVec 8) := [0xdd, 0x00, 0x50, 0x6f, 0x9a, 0x09]

/-- `rtw_p2p_merge_ies`: the bytes from `merge_ie` on, when there is such a buffer, and the length
returned. -/
def rtwP2pMergeIes (mem : ℕ → BitVec 8) (inIe inLen : ℕ) (mergeIe : Bool) :
    Option (List (BitVec 8) × ℕ) :=
  if mergeIe then
    (mergeLoop mem inIe inLen 0 eloui 0).map fun r => (r.1, r.2.toNat + 4)
  else some ([], 0)

/-- The bodies of the P2P elements behind their OUIs, one after the other. -/
def p2pBodies (l : List Element) : List (BitVec 8) :=
  (l.filter (IsP2p ·)).flatMap (·.body.drop 4)

/-- The element that the merged bodies make. -/
def mergedElement (l : List Element) (h : (p2pBodies l).length ≤ 251) : Element where
  id := wlanEidVendorSpecific
  body := p2pOui ++ p2pBodies l
  length_le := by
    rw [List.length_append]
    exact Nat.add_le_add_left h 4

/-- The bodies that fit are merged into one element, and in any case both lengths are the same. -/
structure Merged (mem : ℕ → BitVec 8) (inIe : ℕ) (l : List Element) : Prop where
  fits : ∀ h : (p2pBodies l).length ≤ 251, ∃ ret,
    rtwP2pMergeIes mem inIe (encode l).length true = some ((mergedElement l h).bytes, ret)
  agree : ∃ out, rtwP2pMergeIes mem inIe (encode l).length true =
    some (out, rtwGetP2pMergedIesLen mem inIe (encode l).length)

/-- No element without four bytes is taken for a P2P element by what follows it. -/
def NotMistaken (mem : ℕ → BitVec 8) (p : ℕ) : List Element → Prop
  | [] => True
  | e :: l => (isP2pAt mem p → 4 ≤ e.body.length) ∧
      NotMistaken mem (p + (e.body.length + 2)) l

section Loops

variable {mem : ℕ → BitVec 8} {a i inLen : ℕ} {l : List Element} {e : Element}
  {out : List (BitVec 8)} {len : BitVec 8}

/-- A P2P element is recognised, and an element that is long enough is not mistaken for one. -/
theorem isP2pAt_iff (h : HoldsAt mem a e.bytes) (hlen : isP2pAt mem a → 4 ≤ e.body.length) :
    isP2pAt mem a = true ↔ IsP2p e := by
  by_cases hle : 4 ≤ e.body.length
  · rw [isP2pAt, Bool.and_eq_true, beq_iff_eq, beq_iff_eq]
    have hhit : Hit mem a wlanEidVendorSpecific (some p2pOui) 0 ↔ IsP2p e := by
      refine hit_iff h ?_
      rintro - u ⟨⟩
      exact hle
    rw [← hhit, Hit]
    simp only [Option.mem_some_iff, forall_eq']
    rfl
  · constructor
    · intro ht
      exact absurd (hlen ht) hle
    · intro hp
      exact absurd (hp.2 p2pOui rfl).length_le hle

/-- The copy behind the OUI. -/
theorem load_behind_oui (h : HoldsAt mem a e.bytes) (hle : 4 ≤ e.body.length) :
    load mem (a + 2 + 4) (e.body.length - 4) = e.body.drop 4 := by
  have hbody := (holdsAt_bytes h).2.2
  rw [← List.take_append_drop 4 e.body, holdsAt_append, List.length_take_of_le hle] at hbody
  have hload := load_of_holdsAt hbody.2
  rwa [List.length_drop] at hload

theorem p2pBodies_cons (e : Element) (l : List Element) :
    p2pBodies (e :: l) = (if IsP2p e then e.body.drop 4 else []) ++ p2pBodies l := by
  rw [p2pBodies, List.filter_cons]
  split_ifs with h h' h'
  · rfl
  · exact absurd (of_decide_eq_true h) h'
  · exact absurd (decide_eq_true h') h
  · rfl

theorem mergedLenLoop_of_holdsAt {n : ℤ} (h : HoldsAt mem (a + i) (encode l))
    (hlen : inLen = i + (encode l).length) (hl : NotMistaken mem (a + i) l) :
    mergedLenLoop mem a inLen i n = n + (p2pBodies l).length := by
  induction l generalizing i n with
  | nil =>
    rw [encode_nil, List.length_nil] at hlen
    rw [mergedLenLoop, if_neg (by omega)]
    exact (add_zero n).symm
  | cons e l ih =>
    obtain ⟨he, hl'⟩ := holdsAt_encode_cons.mp h
    obtain ⟨-, hbody, -⟩ := holdsAt_bytes he
    rw [encode_cons, List.length_append, length_bytes] at hlen
    rw [mergedLenLoop, if_pos (by omega)]
    dsimp only
    rw [hbody, ih (by rwa [← Nat.add_assoc]) (by omega) (by rw [← Nat.add_assoc]; exact hl.2),
      p2pBodies_cons, List.length_append]
    by_cases hp : IsP2p e
    · have htaken := (isP2pAt_iff he hl.1).mpr hp
      have hle := hl.1 htaken
      rw [if_pos htaken, if_pos hp, List.length_drop]
      omega
    · rw [if_neg fun ht => hp ((isP2pAt_iff he hl.1).mp ht), if_neg hp, List.length_nil,
        Nat.zero_add]

theorem mergeLoop_of_holdsAt (h : HoldsAt mem (a + i) (encode l))
    (hlen : inLen = i + (encode l).length) (hl : NotMistaken mem (a + i) l) :
    mergeLoop mem a inLen i out len =
      some (out ++ p2pBodies l, len + BitVec.ofNat 8 (p2pBodies l).length) := by
  induction l generalizing i out len with
  | nil =>
    rw [encode_nil, List.length_nil] at hlen
    rw [mergeLoop, if_neg (by omega)]
    simp [p2pBodies]
  | cons e l ih =>
    obtain ⟨he, hl'⟩ := holdsAt_encode_cons.mp h
    obtain ⟨-, hbody, -⟩ := holdsAt_bytes he
    rw [encode_cons, List.length_append, length_bytes] at hlen
    have hrest : ∀ out len, mergeLoop mem a inLen (i + (e.body.length + 2)) out len =
        some (out ++ p2pBodies l, len + BitVec.ofNat 8 (p2pBodies l).length) :=
      fun out len => ih (by rwa [← Nat.add_assoc]) (by omega) (by rw [← Nat.add_assoc]; exact hl.2)
    rw [mergeLoop, if_pos (by omega)]
    dsimp only
    rw [hbody, p2pBodies_cons]
    by_cases hp : IsP2p e
    · have htaken := (isP2pAt_iff he hl.1).mpr hp
      have hle := hl.1 htaken
      rw [if_pos htaken, if_neg (by omega), if_pos hp, hrest, load_behind_oui he hle,
        List.length_append, List.length_drop, BitVec.ofNat_add, List.append_assoc, add_assoc]
    · rw [if_neg fun ht => hp ((isP2pAt_iff he hl.1).mp ht), if_neg hp, hrest, List.nil_append]

/-- A mistaken element is a memory fault. -/
theorem mergeLoop_of_mistaken (h : HoldsAt mem (a + i) (encode l))
    (hlen : inLen = i + (encode l).length) (hl : ¬NotMistaken mem (a + i) l) :
    mergeLoop mem a inLen i out len = none := by
  induction l generalizing i out len with
  | nil => exact absurd trivial hl
  | cons e l ih =>
    obtain ⟨he, hl'⟩ := holdsAt_encode_cons.mp h
    obtain ⟨-, hbody, -⟩ := holdsAt_bytes he
    rw [encode_cons, List.length_append, length_bytes] at hlen
    have hrest : ¬NotMistaken mem (a + i + (e.body.length + 2)) l → ∀ out len,
        mergeLoop mem a inLen (i + (e.body.length + 2)) out len = none := by
      intro hbad out len
      exact ih (by rwa [← Nat.add_assoc]) (by omega) (by rwa [← Nat.add_assoc])
    rw [mergeLoop, if_pos (by omega)]
    dsimp only
    rw [hbody]
    split_ifs with htaken hshort
    · rfl
    · exact hrest (fun h => hl ⟨fun _ => by omega, h⟩) _ _
    · exact hrest (fun h => hl ⟨fun ht => absurd ht htaken, h⟩) _ _

end Loops

theorem length_p2pBodies_le (l : List Element) :
    (p2pBodies l).length ≤ (encode l).length - 6 := by
  induction l with
  | nil => exact Nat.zero_le _
  | cons e l ih =>
    rw [p2pBodies_cons, encode_cons, List.length_append, List.length_append, length_bytes]
    split_ifs
    · rw [List.length_drop]
      omega
    · rw [List.length_nil]
      omega

section Result

variable {mem : ℕ → BitVec 8} {inIe : ℕ} {l : List Element}

/-- The sizer returns the length of the element that the bodies make. -/
theorem rtwGetP2pMergedIesLen_of_holdsAt (h : HoldsAt mem inIe (encode l))
    (hlen : (encode l).length < 2 ^ 32) (hl : NotMistaken mem inIe l) :
    rtwGetP2pMergedIesLen mem inIe (encode l).length = (p2pBodies l).length + 4 := by
  have hloop := mergedLenLoop_of_holdsAt (i := 0) (n := 0) h (Nat.zero_add _).symm hl
  have hle := length_p2pBodies_le l
  rw [rtwGetP2pMergedIesLen, hloop]
  omega

/-- The merger writes the bodies behind a header without a length, and its length has 8 bits. -/
theorem rtwP2pMergeIes_of_holdsAt (h : HoldsAt mem inIe (encode l)) (hl : NotMistaken mem inIe l) :
    rtwP2pMergeIes mem inIe (encode l).length true =
      some (eloui ++ p2pBodies l, (p2pBodies l).length % 256 + 4) := by
  have hloop : mergeLoop mem inIe (encode l).length 0 eloui 0 = _ :=
    mergeLoop_of_holdsAt (i := 0) h (Nat.zero_add _).symm hl
  rw [rtwP2pMergeIes, if_pos rfl, hloop, Option.map_some, zero_add, BitVec.toNat_ofNat]

theorem rtwP2pMergeIes_of_mistaken (h : HoldsAt mem inIe (encode l))
    (hl : ¬NotMistaken mem inIe l) : rtwP2pMergeIes mem inIe (encode l).length true = none := by
  have hloop : mergeLoop mem inIe (encode l).length 0 eloui 0 = none :=
    mergeLoop_of_mistaken (i := 0) h (Nat.zero_add _).symm hl
  rw [rtwP2pMergeIes, if_pos rfl, hloop, Option.map_none]

/-- The length byte stays zero. -/
theorem eloui_ne_mergedElement (h : (p2pBodies l).length ≤ 251) :
    eloui ++ p2pBodies l ≠ (mergedElement l h).bytes := by
  intro heq
  obtain ⟨-, htail⟩ := List.cons.inj heq
  obtain ⟨hbyte, -⟩ := List.cons.inj htail
  have hzero : 0 = (p2pOui ++ p2pBodies l).length % 256 :=
    (congrArg BitVec.toNat hbyte).trans (BitVec.toNat_ofNat ..)
  rw [List.length_append, show p2pOui.length = 4 from rfl] at hzero
  omega

/-- The merger never writes the length byte, and its length has 8 bits: it does what it should only
where the bodies do not fit, and their length still has 8 bits. -/
theorem merged_iff (h : HoldsAt mem inIe (encode l)) (hlen : (encode l).length < 2 ^ 32) :
    Merged mem inIe l ↔
      NotMistaken mem inIe l ∧ 252 ≤ (p2pBodies l).length ∧ (p2pBodies l).length ≤ 255 := by
  constructor
  · rintro ⟨hfits, out, hagree⟩
    by_cases hl : NotMistaken mem inIe l
    · rw [rtwP2pMergeIes_of_holdsAt h hl] at hfits hagree
      rw [rtwGetP2pMergedIesLen_of_holdsAt h hlen hl] at hagree
      obtain ⟨-, hret⟩ := Prod.mk.inj (Option.some.inj hagree)
      refine ⟨hl, ?_, by omega⟩
      by_contra hless
      obtain ⟨ret, hout⟩ := hfits (by omega)
      exact eloui_ne_mergedElement _ (Prod.mk.inj (Option.some.inj hout)).1
    · rw [rtwP2pMergeIes_of_mistaken h hl] at hagree
      cases hagree
  · rintro ⟨hl, hlow, hhigh⟩
    refine ⟨fun hfit => by omega, eloui ++ p2pBodies l, ?_⟩
    rw [rtwP2pMergeIes_of_holdsAt h hl, rtwGetP2pMergedIesLen_of_holdsAt h hlen hl,
      Nat.mod_eq_of_lt (by omega)]

end Result

/-- Two P2P elements with `n` bytes each behind the OUI. -/
def twoP2p (n : ℕ) (h : n ≤ 251) : List Element :=
  List.replicate 2 ⟨wlanEidVendorSpecific, p2pOui ++ List.replicate n 0, by
    rw [List.length_append, List.length_replicate]
    exact Nat.add_le_add_left h 4⟩

theorem length_p2pBodies_twoP2p (n : ℕ) (h : n ≤ 251) :
    (p2pBodies (twoP2p n h)).length = 2 * n := by
  rw [twoP2p, List.replicate_succ, List.replicate_one, p2pBodies_cons, p2pBodies_cons,
    if_pos ⟨rfl, by rintro u ⟨⟩; exact List.prefix_append ..⟩, List.length_append,
    List.length_append]
  simp only [List.length_drop, List.length_append, List.length_replicate]
  rw [show p2pOui.length = 4 from rfl, show (p2pBodies []).length = 0 from rfl]
  omega

theorem notMistaken_of_long {mem : ℕ → BitVec 8} {p : ℕ} {l : List Element}
    (h : ∀ e ∈ l, 4 ≤ e.body.length) : NotMistaken mem p l := by
  induction l generalizing p with
  | nil => trivial
  | cons e l ih =>
    obtain ⟨he, hl⟩ := List.forall_mem_cons.mp h
    exact ⟨fun _ => he, ih hl⟩

theorem notMistaken_twoP2p {mem : ℕ → BitVec 8} (n : ℕ) (h : n ≤ 251) :
    NotMistaken mem 0 (twoP2p n h) := by
  refine notMistaken_of_long fun e he => ?_
  rw [List.eq_of_mem_replicate he, List.length_append]
  exact Nat.le_add_right 4 _

theorem merged_twoP2p : Merged (store (fun _ => 0) 0 (encode (twoP2p 126 (by decide)))) 0
    (twoP2p 126 (by decide)) := by
  have hlen : (encode (twoP2p 126 (by decide))).length < 2 ^ 32 := by
    rw [twoP2p, List.replicate_succ, List.replicate_one, encode_cons, encode_cons, encode_nil]
    simp only [List.length_append, length_bytes, List.length_replicate, List.length_nil]
    decide
  refine (merged_iff (holdsAt_store _ _ _) hlen).mpr ⟨notMistaken_twoP2p 126 (by decide), ?_⟩
  rw [length_p2pBodies_twoP2p]
  decide

theorem not_merged_twoP2p :
    HoldsAt (store (fun _ => 0) 0 (encode (twoP2p 1 (by decide)))) 0
      (encode (twoP2p 1 (by decide))) ∧
    ¬Merged (store (fun _ => 0) 0 (encode (twoP2p 1 (by decide)))) 0 (twoP2p 1 (by decide)) := by
  refine ⟨holdsAt_store _ _ _, ?_⟩
  rintro ⟨hfits, -⟩
  obtain ⟨ret, hout⟩ := hfits (by rw [length_p2pBodies_twoP2p]; decide)
  rw [rtwP2pMergeIes_of_holdsAt (holdsAt_store _ _ _) (notMistaken_twoP2p 1 (by decide))] at hout
  exact eloui_ne_mergedElement _ (Prod.mk.inj (Option.some.inj hout)).1

end Rtl8821cu.P2pMerge
