import Rtl8821cu.XmitFragLayout
import Rtl8821cu.LibBytes
import Rtl8821cu.MacAddr

/-! What the fragments of an MSDU carry: the header that `rtw_make_wlanhdr` builds for the first
one, the copies of it in front of the others, and the bytes of the MSDU. -/
namespace Rtl8821cu.XmitFrag
open Store Bytes

/-- The state of the interface, in the order in which `rtw_make_wlanhdr` asks for it. -/
inductive FwState
  | station
  | ap
  | adhoc
  | mesh
  | other
  deriving DecidableEq

/-- What `rtw_make_wlanhdr` reads besides the attributes that the rest of the path uses: the
addresses, the flags of the frame and of the QoS control field, `txseq_tid` of the priority, and
whether the station of the receiver is the one of the attributes and associated. -/
structure HdrInfo where
  fwState : FwState
  bssid : Mac
  ra : Mac
  ta : Mac
  dst : Mac
  src : Mac
  mda : Mac
  msa : Mac
  mdata : Bool
  eosp : Bool
  ackPolicy : BitVec 2
  amsdu : Bool
  txseqTid : BitVec 12
  staOk : Bool

/-- `_TO_DS_` and `_FROM_DS_`. -/
def dsBits (toDs fromDs : Bool) : BitVec 16 :=
  (if toDs then 0x0100 else 0) ||| if fromDs then 0x0200 else 0

/-- The DS bits and the addresses of a frame; in a mesh a frame to one receiver has four. -/
def HdrInfo.addresses (w : HdrInfo) (wds : Bool) : Option (BitVec 16 × Mac × Mac × Mac × Mac) :=
  match w.fwState with
  | .station =>
    if wds then some (dsBits true true, w.ra, w.ta, w.dst, w.src)
    else some (dsBits true false, w.bssid, w.ta, w.dst, .zero)
  | .ap =>
    if wds then some (dsBits true true, w.ra, w.ta, w.dst, w.src)
    else some (dsBits false true, w.dst, w.bssid, w.src, .zero)
  | .adhoc => some (dsBits false false, w.dst, w.ta, w.bssid, .zero)
  | .mesh =>
    if wds then some (dsBits true true, w.ra, w.ta, w.mda, w.msa)
    else some (dsBits false true, w.ra, w.ta, w.msa, .zero)
  | .other => none

/-- The QoS control field. -/
def HdrInfo.qc (w : HdrInfo) (priority : BitVec 8) : BitVec 16 :=
  let qc := (priority &&& 0x0f).setWidth 16 ||| (if w.eosp then 0x10 else 0) |||
    w.ackPolicy.setWidth 16 <<< 5 ||| if w.amsdu then 0x80 else 0
  if w.fwState = .mesh then qc &&& ~~~0x0600 ||| 0x0110 else qc

/-- `rtw_make_wlanhdr`, for a data frame whose `hdrlen` has room for what it needs. -/
def rtwMakeWlanhdr (w : HdrInfo) (wds qosEn : Bool) (encrypt : Encrypt) (priority : BitVec 8) :
    Option (List (BitVec 8)) :=
  match w.addresses wds with
  | none => none
  | some (ds, addr1, addr2, addr3, addr4) =>
    if w.fwState = .mesh ∧ qosEn = false then none
    else if w.staOk = false then none
    else
      let fctrl : BitVec 16 := (if qosEn then 0x0088 else 0x0008) ||| ds |||
        (if w.mdata then 0x2000 else 0) ||| if encrypt = .noPrivacy then 0 else 0x4000
      let seqCtl : BitVec 16 := (w.txseqTid + 1).setWidth 16 <<< 4
      some (leBytes 2 fctrl.toNat ++ [0, 0] ++ addr1.toList ++ addr2.toList ++ addr3.toList ++
        leBytes 2 seqCtl.toNat ++ (if wds then addr4.toList else []) ++
        if qosEn then leBytes 2 (w.qc priority).toNat else [])

/-- Attributes of a frame whose header `rtw_make_wlanhdr` has built. -/
structure MadeAttrib extends Attrib where
  info : HdrInfo
  made : rtwMakeWlanhdr info wds qosEn encrypt priority = some header

section Number

theorem rtwMakeWlanhdr_eq {w : HdrInfo} {wds qosEn : Bool} {encrypt : Encrypt}
    {priority : BitVec 8} {header : List (BitVec 8)}
    (h : rtwMakeWlanhdr w wds qosEn encrypt priority = some header) :
    ∃ front rest : List (BitVec 8), front.length = 22 ∧
      header = front ++ leBytes 2 (((w.txseqTid + 1).setWidth 16 : BitVec 16) <<< 4).toNat ++
        rest := by
  rw [rtwMakeWlanhdr] at h
  split at h
  · cases h
  · split_ifs at h
    all_goals
      cases h
      refine ⟨_, _, ?_, List.append_assoc _ _ _⟩
      simp

/-- The header of a new frame has fragment number 0. -/
theorem MadeAttrib.header_number (A : MadeAttrib) : A.header.getD 22 0 &&& 0x0f = 0 := by
  obtain ⟨front, rest, hlen, heq⟩ := rtwMakeWlanhdr_eq A.made
  have hget : A.header.getD 22 0 =
      BitVec.ofNat 8 (((A.info.txseqTid + 1).setWidth 16 : BitVec 16) <<< 4).toNat := by
    rw [heq, List.append_assoc, List.getD_append_right _ _ _ _ hlen.le, hlen]
    rfl
  rw [hget, BitVec.ofNat_toNat]
  apply BitVec.eq_of_getLsbD_eq
  intro i hi
  rw [BitVec.getLsbD_and, BitVec.getLsbD_setWidth, BitVec.getLsbD_shiftLeft]
  interval_cases i <;> simp

end Number

section Headers

variable (c : Adapter) {A : Attrib} {mem mem' : ℕ → BitVec 8} {p : ℕ}

/-- The header of the frame is at `p`, but for its More Fragments flag. -/
def Copied (A : Attrib) (mem : ℕ → BitVec 8) (p : ℕ) : Prop :=
  (∀ i < A.hdrlen, i ≠ 1 → mem (p + i) = A.header.getD i 0) ∧
    mem (p + 1) ||| 0x04 = A.header.getD 1 0 ||| 0x04

/-- The header of the frame is at `p`, with the More Fragments flag as given. -/
structure HeaderAt (A : Attrib) (mem : ℕ → BitVec 8) (p : ℕ) (moreFrag : Bool) : Prop where
  copied : ∀ i < A.hdrlen, i ≠ 1 → mem (p + i) = A.header.getD i 0
  flag : mem (p + 1) =
    if moreFrag then A.header.getD 1 0 ||| 0x04 else A.header.getD 1 0 &&& ~~~0x04

/-- The frames of a list have the header, and all but the last the More Fragments flag. -/
def HeadersAt (A : Attrib) (mem : ℕ → BitVec 8) (l : List Region) : Prop :=
  ∀ t, ∀ r ∈ l[t]?, HeaderAt A mem r.addr (decide (t + 1 < l.length))

theorem HeaderAt.congr {moreFrag : Bool} (h : HeaderAt A mem p moreFrag)
    (heq : ∀ i < A.hdrlen, mem' (p + i) = mem (p + i)) : HeaderAt A mem' p moreFrag := by
  have h24 := (hdrlen_bounds A).1
  refine ⟨fun i hi hne => ?_, ?_⟩
  · rw [heq i hi]
    exact h.copied i hi hne
  · rw [heq 1 (by omega)]
    exact h.flag

theorem Copied.congr (h : Copied A mem p) (heq : ∀ i < A.hdrlen, mem' (p + i) = mem (p + i)) :
    Copied A mem' p := by
  have h24 := (hdrlen_bounds A).1
  refine ⟨fun i hi hne => ?_, ?_⟩
  · rw [heq i hi]
    exact h.1 i hi hne
  · rw [heq 1 (by omega)]
    exact h.2

theorem Copied.shift {q : ℕ} (h : Copied A mem p)
    (heq : ∀ i < A.hdrlen, mem (q + i) = mem (p + i)) : Copied A mem q := by
  have h24 := (hdrlen_bounds A).1
  refine ⟨fun i hi hne => ?_, ?_⟩
  · rw [heq i hi]
    exact h.1 i hi hne
  · rw [heq 1 (by omega)]
    exact h.2

theorem HeaderAt.to_copied (h : HeaderAt A mem p true) : Copied A mem p := by
  refine ⟨h.copied, ?_⟩
  rw [h.flag, if_pos rfl, BitVec.or_assoc, BitVec.or_self]

theorem headerAt_setMFrag (h : Copied A mem p) : HeaderAt A (setMFrag mem p) p true := by
  refine ⟨fun i hi hne => ?_, ?_⟩
  · rw [setMFrag, Function.update_of_ne (by omega)]
    exact h.1 i hi hne
  · rw [setMFrag, Function.update_self, if_pos rfl]
    exact h.2

theorem clear_or_flag : ∀ b : BitVec 8, (b ||| 0x04) &&& ~~~0x04 = b &&& ~~~0x04 := by decide

theorem headerAt_clearMFrag (h : HeaderAt A mem p true) :
    HeaderAt A (clearMFrag mem p) p false := by
  refine ⟨fun i hi hne => ?_, ?_⟩
  · rw [clearMFrag, Function.update_of_ne (by omega)]
    exact h.copied i hi hne
  · rw [clearMFrag, Function.update_self, h.flag, if_pos rfl]
    exact clear_or_flag _

/-- A fragment is put behind its header. -/
theorem headerAt_putFragment (h : Copied A mem p) (front chunk : List (BitVec 8)) :
    HeaderAt A (putFragment c A mem p front chunk) p true := by
  refine (headerAt_setMFrag h).congr fun i hi => ?_
  simp only [putFragment]
  rw [store_of_lt _ _ (by omega), store_of_lt _ _ (by omega), store_of_lt _ _ (by omega),
    store_of_lt _ _ (by omega)]

theorem headersAt_singleton (h : HeaderAt A mem p false) (n : ℕ) : HeadersAt A mem [⟨p, n⟩] := by
  rintro (_ | t) r hr
  · cases hr
    exact h
  · cases hr

theorem headersAt_cons {l : List Region} (h : HeaderAt A mem p true) (hl : HeadersAt A mem l)
    (hne : 0 < l.length) (n : ℕ) : HeadersAt A mem (⟨p, n⟩ :: l) := by
  rintro (_ | t) r hr
  · cases hr
    rw [List.length_cons, decide_eq_true (by omega)]
    exact h
  · rw [List.length_cons, decide_eq_decide.mpr (Nat.add_lt_add_iff_right (k := 1))]
    exact hl t r hr

/-- A stretch of the buffer after it is copied. -/
theorem store_load (mem : ℕ → BitVec 8) {a b n i : ℕ} (hi : i < n) :
    store mem a (load mem b n) (a + i) = mem (b + i) := by
  have hload := load_of_holdsAt (holdsAt_store mem a (load mem b n))
  rw [length_load] at hload
  rw [← getD_load (store mem a (load mem b n)) a hi 0, hload, getD_load _ _ hi]

theorem length_frames (last n m : ℕ) : (frames c last n m).length = n := by
  induction n generalizing m with
  | zero => rfl
  | succ n ih => rw [frames, List.length_cons, ih]

/-- The loop leaves a copy of the header in front of every fragment. -/
theorem coalesceLoop_headers {s : Loop} (hb : A.bmcst = false) {B fuel : ℕ}
    (hfuel : s.pkt.length < fuel) {n : ℕ} (hn : (frontAt A s.frgInx).length + s.pkt.length = n)
    (h0 : 0 < n) (hB : s.memStart = B + hwHdrOffset ∨ B + hwHdrOffset + A.hdrlen ≤ s.memStart)
    (hfirst : Copied A s.mem (B + hwHdrOffset))
    (hhere : Copied A s.mem s.memStart) :
    ∃ mem nr sz l, coalesceLoop c A B fuel s = some ⟨mem, nr, sz, l⟩ ∧
      (∀ i < s.memStart, mem i = s.mem i) ∧
      HeadersAt A mem (frames c (lastLen c A n) (fragCount c A n) s.memStart) := by
  induction fuel generalizing s n with
  | zero => omega
  | succ fuel ih =>
    have h32 := hdrlen_bounds A
    have hF := c.fragLen_ge
    have hnext := le_rnd4 (s.memStart + (c.fragLen - 4))
    rcases le_or_gt n (capacity c A) with h | h
    · subst hn
      refine ⟨_, _, _, _, coalesceLoop_last c hb B fuel h, fun i hi => ?_, ?_⟩
      · rw [clearMFrag_of_ne _ _ (by omega), putFragment_of_lt _ _ _ _ _ hi]
      · rw [fragCount_of_le c A h0 h, frames, frames, if_pos rfl]
        exact headersAt_singleton (headerAt_clearMFrag (headerAt_putFragment c hhere _ _)) _
    · subst hn
      have hput := headerAt_putFragment c hhere (frontAt A s.frgInx)
        (s.pkt.take (capacity c A - (frontAt A s.frgInx).length))
      have hlow : ∀ i < s.memStart + A.hdrlen, filledMem c A B s i =
          putFragment c A s.mem s.memStart (frontAt A s.frgInx)
            (s.pkt.take (capacity c A - (frontAt A s.frgInx).length)) i := by
        intro i hi
        rw [filledMem, store_of_lt _ _ (by omega)]
      have hlen : (frontAt A (s.frgInx + 1)).length +
          (s.pkt.drop (capacity c A - (frontAt A s.frgInx).length)).length =
          (frontAt A s.frgInx).length + s.pkt.length - capacity c A := by
        have hf := frontAt_length_lt_capacity c A s.frgInx
        rw [frontAt_succ, List.length_nil, List.length_drop]
        omega
      have hlt : (s.pkt.drop (capacity c A - (frontAt A s.frgInx).length)).length < fuel := by
        have hf := frontAt_length_lt_capacity c A s.frgInx
        rw [List.length_drop]
        omega
      have hfirst' : Copied A (filledMem c A B s) (B + hwHdrOffset) := by
        rcases hB with heq | hle
        · rw [← heq]
          exact hput.to_copied.congr fun i hi => hlow _ (by omega)
        · refine hfirst.congr fun i hi => ?_
          rw [hlow _ (by omega), putFragment_of_lt _ _ _ _ _ (by omega)]
      have hthere : Copied A (filledMem c A B s)
          (rnd4 (s.memStart + (c.fragLen - 4)) + hwHdrOffset) := by
        refine hfirst'.shift fun i hi => ?_
        rw [filledMem, store_load _ hi, store_of_lt _ _ (by omega)]
      have hbehind : B + hwHdrOffset + A.hdrlen ≤
          rnd4 (s.memStart + (c.fragLen - 4)) + hwHdrOffset := by omega
      obtain ⟨mem', nr, sz, l, hrun, hkeep, hheaders⟩ := ih
        (s := ⟨filledMem c A B s, _, s.frgInx + 1, _, _⟩) hlt hlen (by omega) (Or.inr hbehind)
        hfirst' hthere
      dsimp only at hkeep hheaders
      refine ⟨mem', nr, sz, l, ?_, fun i hi => ?_, ?_⟩
      · rw [coalesceLoop_fill c hb B fuel h, hrun]
      · rw [hkeep i (by omega), hlow i (by omega), putFragment_of_lt _ _ _ _ _ hi]
      · rw [fragCount_of_lt c A h, lastLen_of_lt c A h, frames_succ c _ _ (fragCount_pos c A _)]
        refine headersAt_cons (hput.congr fun i hi => ?_) hheaders ?_ _
        · rw [hkeep _ (by omega), hlow _ (by omega)]
        · rw [length_frames]
          exact fragCount_pos c A _

end Headers

section Msdu

variable (c : Adapter)

/-- Everything but the fragment numbers. -/
structure CarriesMsdu (A : Attrib) (pkt : List (BitVec 8)) (l : Laid) : Prop where
  nrFrags : 1 ≤ l.nrFrags ∧ l.placed.length = l.nrFrags
  short : ∀ r ∈ l.placed, r.len ≤ c.fragLen - 4
  bytes : bodies c A l.mem l.placed = A.front ++ pkt
  moreFrag : ∀ t, ∀ r ∈ l.placed[t]?,
    (l.mem (r.addr + 1)).getLsbD 2 = decide (t + 1 < l.nrFrags)
  last : l.placed.getLast?.map Region.len = some l.lastTxcmdsz

/-- Fragment `t` carries fragment number `t`. -/
def Numbered (l : Laid) : Prop :=
  ∀ t, ∀ r ∈ l.placed[t]?, (l.mem (r.addr + 22) &&& 0x0f).toNat = t

/-- The loop of `rtw_xmitframe_coalesce` behind `rtw_make_wlanhdr` and `_rtw_open_pktfile`. -/
def coalesceMsdu (A : Attrib) (mem : ℕ → BitVec 8) (B : ℕ) (pkt : List (BitVec 8)) : Option Laid :=
  coalesceLoop c A B (pkt.length + 1)
    ⟨store mem (B + hwHdrOffset) A.header, B + hwHdrOffset, 0, pkt, []⟩

theorem mem_frames_len {last n m : ℕ} {r : Region} (hlast : last ≤ c.fragLen - 4)
    (h : r ∈ frames c last n m) : r.len ≤ c.fragLen - 4 := by
  induction n generalizing m with
  | zero => cases h
  | succ n ih =>
    rw [frames, List.mem_cons] at h
    rcases h with rfl | h
    · dsimp only
      split_ifs
      · exact hlast
      · exact le_rfl
    · exact ih h

theorem getLast?_frames (last n m : ℕ) :
    (frames c last (n + 1) m).getLast?.map Region.len = some last := by
  induction n generalizing m with
  | zero => rfl
  | succ n ih =>
    rw [frames_succ c last m (Nat.succ_pos n), List.getLast?_cons_of_ne_nil]
    · exact ih _
    · rw [frames]
      exact List.cons_ne_nil _ _

theorem lastLen_le (A : Attrib) {n : ℕ} : lastLen c A n ≤ c.fragLen - 4 := by
  have hmod := Nat.mod_lt (n - 1) (capacity_pos c A)
  have hcap := capacity_pos c A
  simp only [lastLen, capacity] at hmod hcap ⊢
  omega

theorem moreFrag_bit (b : BitVec 8) (moreFrag : Bool) :
    (if moreFrag then b ||| 0x04 else b &&& ~~~0x04).getLsbD 2 = moreFrag := by
  cases moreFrag
  · rw [if_neg Bool.false_ne_true, BitVec.getLsbD_and]
    exact Bool.and_false _
  · rw [if_pos rfl, BitVec.getLsbD_or]
    exact Bool.or_true _

theorem copied_header (A : Attrib) (mem : ℕ → BitVec 8) (p : ℕ) :
    Copied A (store mem p A.header) p := by
  have h24 := (hdrlen_bounds A).1
  have hget : ∀ i < A.hdrlen, store mem p A.header (p + i) = A.header.getD i 0 := by
    intro i hi
    have hlen : A.header.length = A.hdrlen := A.header_length
    rw [List.getD_eq_getElem _ _ (by omega)]
    exact holdsAt_store mem p A.header i _ (List.getElem?_eq_getElem (by omega))
  exact ⟨fun i hi _ => hget i hi, by rw [hget 1 (by omega)]⟩

/-- Every MSDU is laid out with all its bytes, and every fragment has the header of the first. -/
theorem coalesceMsdu_carries (A : Attrib) (hb : A.bmcst = false) (mem : ℕ → BitVec 8) (B : ℕ)
    (pkt : List (BitVec 8)) : ∃ l, coalesceMsdu c A mem B pkt = some l ∧ CarriesMsdu c A pkt l ∧
      HeadersAt A l.mem l.placed ∧ l.nrFrags = fragCount c A (A.front.length + pkt.length) := by
  have h0 := (front_length_bounds A).1
  obtain ⟨mem', hrun, hbodies⟩ := coalesceLoop_start c hb mem B pkt
  obtain ⟨mem'', nr, sz, l, hrun', -, hheaders⟩ := coalesceLoop_headers c hb (B := B)
    (s := ⟨store mem (B + hwHdrOffset) A.header, B + hwHdrOffset, 0, pkt, []⟩)
    (Nat.lt_succ_self pkt.length) (congrArg (· + _) (congrArg List.length (frontAt_zero (A := A))))
    (by omega) (Or.inl rfl) (copied_header A mem _) (copied_header A mem _)
  rw [hrun] at hrun'
  cases hrun'
  refine ⟨_, hrun, ⟨⟨fragCount_pos c A _, length_frames c _ _ _⟩, fun r hr => ?_, hbodies,
    fun t r hr => ?_, getLast?_frames c _ _ _⟩, hheaders, rfl⟩
  · exact mem_frames_len c (lastLen_le c A) hr
  · have hheader := (hheaders t r hr).flag
    rw [length_frames] at hheader
    dsimp only
    rw [hheader, moreFrag_bit]

/-- All fragments have the number of the first. -/
theorem numbered_iff {A : MadeAttrib} {l : Laid} (hheaders : HeadersAt A.toAttrib l.mem l.placed)
    (hlen : l.placed.length = l.nrFrags) : Numbered l ↔ l.nrFrags ≤ 1 := by
  have h24 := (hdrlen_bounds A.toAttrib).1
  have hzero : ∀ (t : ℕ) (r : Region), r ∈ l.placed[t]? →
      (l.mem (r.addr + 22) &&& 0x0f).toNat = 0 := by
    intro t r hr
    rw [(hheaders t r hr).copied 22 (by omega) (by decide), A.header_number]
    rfl
  constructor
  · intro h
    by_contra hlt
    have hr : l.placed[1] ∈ l.placed[1]? := List.getElem?_eq_getElem (by omega)
    have hone := h 1 _ hr
    rw [hzero 1 _ hr] at hone
    cases hone
  · intro h t r hr
    have hlt : t < l.placed.length := (List.getElem?_eq_some_iff.mp hr).1
    rw [hzero t r hr]
    omega

theorem fragCount_le_one_iff (A : Attrib) {n : ℕ} (h0 : 0 < n) :
    fragCount c A n ≤ 1 ↔ n ≤ capacity c A := by
  constructor
  · intro h
    by_contra hlt
    have h1 := fragCount_of_lt c A (n := n) (by omega)
    have h2 := fragCount_pos c A (n - capacity c A)
    omega
  · intro h
    exact (fragCount_of_le c A h0 h).le

/-- The fragments carry the whole MSDU, each with its number, exactly when there is one. -/
theorem coalesceMsdu_numbered_iff (A : MadeAttrib) (hb : A.bmcst = false) (mem : ℕ → BitVec 8)
    (B : ℕ) (pkt : List (BitVec 8)) :
    ∃ l, coalesceMsdu c A.toAttrib mem B pkt = some l ∧
      (CarriesMsdu c A.toAttrib pkt l ∧ Numbered l ↔
        A.front.length + pkt.length ≤ capacity c A.toAttrib) := by
  have h0 := (front_length_bounds A.toAttrib).1
  obtain ⟨l, hrun, hcarries, hheaders, hcount⟩ := coalesceMsdu_carries c A.toAttrib hb mem B pkt
  refine ⟨l, hrun, ?_⟩
  rw [and_iff_right hcarries, numbered_iff hheaders hcarries.nrFrags.2, hcount,
    fragCount_le_one_iff c A.toAttrib (by omega)]

/-- A frame of a station to its access point. -/
def stationInfo : HdrInfo where
  fwState := .station
  bssid := Mac.ending 1
  ra := Mac.ending 1
  ta := Mac.ending 2
  dst := Mac.ending 3
  src := Mac.ending 2
  mda := .zero
  msa := .zero
  mdata := false
  eosp := false
  ackPolicy := 0
  amsdu := false
  txseqTid := 0x122
  staOk := true

/-- A QoS data frame in the clear with the header that is built for it. -/
def stationAttrib : MadeAttrib where
  toAttrib := { qosAttrib .noPrivacy with
    header := [0x88, 0x01, 0, 0, 0x02, 0, 0, 0, 0, 1, 0x02, 0, 0, 0, 0, 2, 0x02, 0, 0, 0, 0, 3,
      0x30, 0x12, 0, 0]
    header_length := rfl }
  info := stationInfo
  made := rfl

theorem oneFragment_numbered : ∃ l, coalesceMsdu (adapter256 false) stationAttrib.toAttrib
      (fun _ => 0) 0 (List.replicate 100 0) = some l ∧
    CarriesMsdu (adapter256 false) stationAttrib.toAttrib (List.replicate 100 0) l ∧
    Numbered l := by
  obtain ⟨l, hrun, hiff⟩ := coalesceMsdu_numbered_iff (adapter256 false) stationAttrib rfl
    (fun _ => 0) 0 (List.replicate 100 0)
  refine ⟨l, hrun, hiff.mpr ?_⟩
  rw [List.length_replicate]
  decide

/-- The second fragment of a longer MSDU has number 0. -/
theorem twoFragments_not_numbered : ∃ l, coalesceMsdu (adapter256 false) stationAttrib.toAttrib
      (fun _ => 0) 0 (List.replicate 300 0) = some l ∧
    ¬(CarriesMsdu (adapter256 false) stationAttrib.toAttrib (List.replicate 300 0) l ∧
      Numbered l) := by
  obtain ⟨l, hrun, hcarries, hheaders, hcount⟩ := coalesceMsdu_carries (adapter256 false)
    stationAttrib.toAttrib rfl (fun _ => 0) 0 (List.replicate 300 0)
  refine ⟨l, hrun, fun h => ?_⟩
  have hone := (numbered_iff hheaders hcarries.nrFrags.2).mp h.2
  rw [hcount, List.length_replicate] at hone
  revert hone
  decide

end Msdu

end Rtl8821cu.XmitFrag
