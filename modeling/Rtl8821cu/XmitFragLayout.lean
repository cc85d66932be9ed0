import Rtl8821cu.XmitFrag

/-! Where the fragments are laid, and when the routines of fragmented transmission agree on it. -/
namespace Rtl8821cu.XmitFrag
open Store Michael

variable (c : Adapter) (A : Attrib)

/-- Bytes of a frame around its body. -/
def overhead : ℕ := A.hdrlen + A.encrypt.ivLen + swIcvLen c A

/-- Bytes of the MSDU and its front that fit into a fragment. -/
def capacity : ℕ := c.fragLen - 4 - overhead c A

theorem hdrlen_bounds : 24 ≤ A.hdrlen ∧ A.hdrlen ≤ 32 := by
  unfold Attrib.hdrlen hdrlen
  split_ifs <;> omega

theorem ivLen_le (e : Encrypt) : e.ivLen ≤ 8 := by
  cases e <;> decide

theorem icvLen_le (e : Encrypt) : e.icvLen ≤ 16 := by
  cases e <;> decide

theorem icvLen_pos {e : Encrypt} (h : e ≠ .noPrivacy) : 0 < e.icvLen := by
  cases e <;> simp_all [Encrypt.icvLen]

theorem swIcvLen_le : swIcvLen c A ≤ 16 := by
  unfold swIcvLen
  split_ifs
  · exact icvLen_le A.encrypt
  · omega

theorem front_length_bounds : 8 ≤ A.front.length ∧ A.front.length ≤ 26 := by
  have := A.mctrl_length
  simp [Attrib.front, rtwPutSnap]
  omega

theorem overhead_le : overhead c A ≤ 56 := by
  have h1 := hdrlen_bounds A
  have h2 := ivLen_le A.encrypt
  have h3 := swIcvLen_le c A
  unfold overhead
  omega

/-- A fragment has room for more than the front of the MSDU. -/
theorem front_length_lt_capacity : A.front.length < capacity c A := by
  have h1 := (front_length_bounds A).2
  have h2 := overhead_le c A
  have h3 := c.fragLen_ge
  unfold capacity
  omega

/-- The frames of `n` fragments from address `m` on: all but the last have the size of the
fragmentation threshold without the FCS, and there is room for a descriptor before each. -/
def frames (last : ℕ) : ℕ → ℕ → List Region
  | 0, _ => []
  | n + 1, m =>
    ⟨m, if n = 0 then last else c.fragLen - 4⟩ ::
      frames last n (rnd4 (m + (c.fragLen - 4)) + hwHdrOffset)

theorem frontAt_length_lt_capacity (frgInx : ℕ) : (frontAt A frgInx).length < capacity c A := by
  have h := front_length_lt_capacity c A
  unfold frontAt
  split_ifs
  · exact h
  · simp only [List.length_nil]
    omega

section Memory

variable {A} (mem : ℕ → BitVec 8) (p : ℕ) (front chunk : List (BitVec 8))

theorem putFragment_of_lt {i : ℕ} (h : i < p) : putFragment c A mem p front chunk i = mem i := by
  simp only [putFragment]
  rw [store_of_lt _ _ (by omega), store_of_lt _ _ (by omega), store_of_lt _ _ (by omega),
    store_of_lt _ _ (by omega), setMFrag, Function.update_of_ne (by omega)]

theorem holdsAt_putFragment :
    HoldsAt (putFragment c A mem p front chunk) (p + A.hdrlen + A.encrypt.ivLen)
      (front ++ chunk) := by
  simp only [putFragment, ← store_append]
  apply HoldsAt.store_behind
  · exact holdsAt_store _ _ _
  · rw [List.length_append]
    omega

theorem clearMFrag_of_ne {i : ℕ} (h : i ≠ p + 1) : clearMFrag mem p i = mem i := by
  rw [clearMFrag, Function.update_of_ne h]

end Memory

/-- The number of fragments of `n` bytes. -/
def fragCount (n : ℕ) : ℕ := (n - 1) / capacity c A + 1

/-- The size of the last of them. -/
def lastLen (n : ℕ) : ℕ := overhead c A + ((n - 1) % capacity c A + 1)

/-- The bytes of a buffer that stand in the bodies of some frames. -/
def bodies (mem : ℕ → BitVec 8) (l : List Region) : List (BitVec 8) :=
  (l.map (Region.body c A)).flatMap fun r => load mem r.addr r.len

theorem capacity_pos : 0 < capacity c A := by
  have := front_length_lt_capacity c A
  omega

theorem fragCount_of_le {n : ℕ} (h0 : 0 < n) (h : n ≤ capacity c A) : fragCount c A n = 1 := by
  rw [fragCount, Nat.div_eq_of_lt (by omega)]

theorem lastLen_of_le {n : ℕ} (h0 : 0 < n) (h : n ≤ capacity c A) :
    lastLen c A n = overhead c A + n := by
  rw [lastLen, Nat.mod_eq_of_lt (by omega)]
  omega

theorem fragCount_of_lt {n : ℕ} (h : capacity c A < n) :
    fragCount c A n = fragCount c A (n - capacity c A) + 1 := by
  have h0 := capacity_pos c A
  rw [fragCount, fragCount, Nat.div_eq_sub_div h0 (by omega),
    show n - 1 - capacity c A = n - capacity c A - 1 by omega]

theorem lastLen_of_lt {n : ℕ} (h : capacity c A < n) :
    lastLen c A n = lastLen c A (n - capacity c A) := by
  rw [lastLen, lastLen, Nat.mod_eq_sub_mod (by omega),
    show n - 1 - capacity c A = n - capacity c A - 1 by omega]

theorem fragCount_pos (n : ℕ) : 0 < fragCount c A n := Nat.succ_pos _

theorem frontAt_succ (frgInx : ℕ) : frontAt A (frgInx + 1) = [] := by
  simp [frontAt]

theorem frames_succ (last m : ℕ) {n : ℕ} (h : 0 < n) :
    frames c last (n + 1) m =
      ⟨m, c.fragLen - 4⟩ :: frames c last n (rnd4 (m + (c.fragLen - 4)) + hwHdrOffset) := by
  rw [frames, if_neg (by omega)]

theorem bodies_cons (mem : ℕ → BitVec 8) (r : Region) (l : List Region) :
    bodies c A mem (r :: l) =
      load mem (r.body c A).addr (r.body c A).len ++ bodies c A mem l := rfl

/-- The buffer behind a filled fragment: the next header is a copy of the first one. -/
def filledMem (B : ℕ) (s : Loop) : ℕ → BitVec 8 :=
  let mem := putFragment c A s.mem s.memStart (frontAt A s.frgInx)
    (s.pkt.take (capacity c A - (frontAt A s.frgInx).length))
  store mem (rnd4 (s.memStart + (c.fragLen - 4)) + hwHdrOffset)
    (load mem (B + hwHdrOffset) A.hdrlen)

section Loop

variable {A} {s : Loop} (hb : A.bmcst = false) (B fuel : ℕ)
include hb

/-- The rest of the MSDU fits into the fragment at hand. -/
theorem coalesceLoop_last (h : (frontAt A s.frgInx).length + s.pkt.length ≤ capacity c A) :
    coalesceLoop c A B (fuel + 1) s =
      some ⟨clearMFrag (putFragment c A s.mem s.memStart (frontAt A s.frgInx) s.pkt) s.memStart,
        s.frgInx + 1, overhead c A + ((frontAt A s.frgInx).length + s.pkt.length),
        s.placed ++ [⟨s.memStart,
          overhead c A + ((frontAt A s.frgInx).length + s.pkt.length)⟩]⟩ := by
  have hm : s.pkt.length ≤ c.fragLen - 4 - A.hdrlen - A.encrypt.ivLen -
      (frontAt A s.frgInx).length - swIcvLen c A := by
    simp only [capacity, overhead] at h
    omega
  have hz : (if s.frgInx + 1 = 1 then (frontAt A s.frgInx).length else 0) =
      (frontAt A s.frgInx).length := by
    unfold frontAt
    split_ifs <;> first | rfl | omega
  simp only [coalesceLoop, hb, Bool.false_eq_true, if_false, Bool.false_or,
    List.take_of_length_le hm, List.drop_eq_nil_of_le hm, List.isEmpty_nil, if_true, hz, overhead]
  congr 2
  · omega
  · congr 3
    omega

/-- The fragment at hand is filled. -/
theorem coalesceLoop_fill (h : capacity c A < (frontAt A s.frgInx).length + s.pkt.length) :
    coalesceLoop c A B (fuel + 1) s =
      coalesceLoop c A B fuel ⟨filledMem c A B s, rnd4 (s.memStart + (c.fragLen - 4)) + hwHdrOffset,
        s.frgInx + 1, s.pkt.drop (capacity c A - (frontAt A s.frgInx).length),
        s.placed ++ [⟨s.memStart, c.fragLen - 4⟩]⟩ := by
  have hf := frontAt_length_lt_capacity c A s.frgInx
  have ho := overhead_le c A
  have hF := c.fragLen_ge
  have hm : c.fragLen - 4 - A.hdrlen - A.encrypt.ivLen - (frontAt A s.frgInx).length -
      swIcvLen c A = capacity c A - (frontAt A s.frgInx).length := by
    simp only [capacity, overhead]
    omega
  have hne : (s.pkt.drop (capacity c A - (frontAt A s.frgInx).length)).isEmpty = false := by
    rw [List.isEmpty_eq_false_iff, ← List.length_pos_iff, List.length_drop]
    omega
  have hlen : A.hdrlen + A.encrypt.ivLen + (frontAt A s.frgInx).length +
      (s.pkt.take (capacity c A - (frontAt A s.frgInx).length)).length + swIcvLen c A =
      c.fragLen - 4 := by
    rw [List.length_take, min_eq_left (by omega)]
    simp only [capacity, overhead] at ho hf ⊢
    omega
  simp only [coalesceLoop, hb, Bool.false_eq_true, if_false, Bool.false_or, hm, hne, hlen,
    filledMem]

/-- The fragment at hand is filled, and the loop goes on behind it. -/
theorem coalesceLoop_more (h : capacity c A < (frontAt A s.frgInx).length + s.pkt.length) :
    ∃ mem, coalesceLoop c A B (fuel + 1) s =
      coalesceLoop c A B fuel ⟨mem, rnd4 (s.memStart + (c.fragLen - 4)) + hwHdrOffset,
        s.frgInx + 1, s.pkt.drop (capacity c A - (frontAt A s.frgInx).length),
        s.placed ++ [⟨s.memStart, c.fragLen - 4⟩]⟩ ∧
      (∀ i < s.memStart, mem i = s.mem i) ∧
      HoldsAt mem (s.memStart + A.hdrlen + A.encrypt.ivLen)
        (frontAt A s.frgInx ++ s.pkt.take (capacity c A - (frontAt A s.frgInx).length)) := by
  have hf := frontAt_length_lt_capacity c A s.frgInx
  have ho := overhead_le c A
  have hF := c.fragLen_ge
  have hle := le_rnd4 (s.memStart + (c.fragLen - 4))
  refine ⟨filledMem c A B s, coalesceLoop_fill c hb B fuel h, fun i hi => ?_, ?_⟩
  · rw [filledMem, store_of_lt _ _ (by omega), putFragment_of_lt _ _ _ _ _ hi]
  · apply HoldsAt.store_behind
    · exact holdsAt_putFragment c _ _ _ _
    · rw [List.length_append, List.length_take]
      simp only [capacity, overhead] at hf ⊢
      omega

/-- The loop lays the fragments out one behind the other and puts all of the MSDU into them. -/
theorem coalesceLoop_spec (hfuel : s.pkt.length < fuel) {n : ℕ}
    (hn : (frontAt A s.frgInx).length + s.pkt.length = n) (h0 : 0 < n) :
    ∃ mem, coalesceLoop c A B fuel s =
      some ⟨mem, s.frgInx + fragCount c A n, lastLen c A n,
        s.placed ++ frames c (lastLen c A n) (fragCount c A n) s.memStart⟩ ∧
      (∀ i < s.memStart, mem i = s.mem i) ∧
      bodies c A mem (frames c (lastLen c A n) (fragCount c A n) s.memStart) =
        frontAt A s.frgInx ++ s.pkt := by
  induction fuel generalizing s n with
  | zero => omega
  | succ fuel ih =>
    rcases le_or_gt n (capacity c A) with h | h
    · rw [fragCount_of_le c A h0 h, lastLen_of_le c A h0 h]
      subst hn
      refine ⟨_, coalesceLoop_last c hb B fuel h, ?_, ?_⟩
      · intro i hi
        rw [clearMFrag_of_ne _ _ (by omega), putFragment_of_lt _ _ _ _ _ hi]
      · have hh : HoldsAt (clearMFrag (putFragment c A s.mem s.memStart (frontAt A s.frgInx) s.pkt)
            s.memStart) (s.memStart + A.hdrlen + A.encrypt.ivLen)
            (frontAt A s.frgInx ++ s.pkt) := by
          have h24 := (hdrlen_bounds A).1
          apply (holdsAt_putFragment c s.mem s.memStart (frontAt A s.frgInx) s.pkt).congr
          intro i hi _
          exact clearMFrag_of_ne _ _ (by omega)
        have hl := load_of_holdsAt hh
        simp only [bodies, frames, List.map_cons, List.map_nil, List.flatMap_cons,
          List.flatMap_nil, List.append_nil, Region.body, if_true]
        rwa [show overhead c A + ((frontAt A s.frgInx).length + s.pkt.length) - A.hdrlen -
          A.encrypt.ivLen - swIcvLen c A = (frontAt A s.frgInx ++ s.pkt).length by
            rw [List.length_append, overhead]; omega]
    · subst hn
      obtain ⟨mem, heq, hlow, hhold⟩ := coalesceLoop_more c hb B fuel h
      have hf := frontAt_length_lt_capacity c A s.frgInx
      have hF := le_rnd4 (s.memStart + (c.fragLen - 4))
      have hlen : (frontAt A (s.frgInx + 1)).length +
          (s.pkt.drop (capacity c A - (frontAt A s.frgInx).length)).length =
          (frontAt A s.frgInx).length + s.pkt.length - capacity c A := by
        rw [frontAt_succ, List.length_nil, List.length_drop]
        omega
      have hlt : (s.pkt.drop (capacity c A - (frontAt A s.frgInx).length)).length < fuel := by
        rw [List.length_drop]
        omega
      rw [heq, fragCount_of_lt c A h, lastLen_of_lt c A h,
        frames_succ c _ _ (fragCount_pos c A _)]
      obtain ⟨mem', he, hl, hbod⟩ := ih (s := ⟨mem, _, _, _, _⟩) hlt hlen (by omega)
      dsimp only at hl hbod
      refine ⟨mem', ?_, ?_, ?_⟩
      · rw [he, List.append_assoc, List.singleton_append, Nat.add_right_comm, Nat.add_assoc]
      · intro i hi
        rw [hl i (by omega), hlow i hi]
      · have hh : HoldsAt mem' (s.memStart + A.hdrlen + A.encrypt.ivLen) (frontAt A s.frgInx ++
            s.pkt.take (capacity c A - (frontAt A s.frgInx).length)) := by
          apply hhold.congr
          intro i _ hi
          rw [List.length_append, List.length_take, min_eq_left (by omega)] at hi
          apply hl
          simp only [capacity, overhead] at hi hf
          omega
        have hload := load_of_holdsAt hh
        rw [bodies_cons, hbod, frontAt_succ, List.nil_append, Region.body]
        rw [List.length_append, List.length_take, min_eq_left (by omega)] at hload
        rw [show c.fragLen - 4 - A.hdrlen - A.encrypt.ivLen - swIcvLen c A =
          (frontAt A s.frgInx).length + (capacity c A - (frontAt A s.frgInx).length) by
            simp only [capacity, overhead] at hf ⊢; omega, hload, List.append_assoc,
          List.take_append_drop]

end Loop

/-- The frames as they are sent: the last one carries the MIC. -/
def extendLast (n : ℕ) : List Region → List Region
  | [] => []
  | [r] => [⟨r.addr, r.len + n⟩]
  | r :: r' :: l => r :: extendLast n (r' :: l)

theorem extendLast_zero (l : List Region) : extendLast 0 l = l := by
  fun_induction extendLast 0 l with
  | case1 => rfl
  | case2 r => rfl
  | case3 r r' l ih => rw [ih]

/-- The routines of the transmit path take the same stretches of the buffer for the fragments as
`rtw_xmitframe_coalesce` laid out, what is sent is the MSDU with its front and MIC, each byte once,
and the MIC is the one that the receiver computes over the fragment bodies. -/
structure SameLayout (pkt : List (BitVec 8)) (x : XmitFrame) (sent : List Region) : Prop where
  addmic : A.encrypt = .tkip → x.micRegions = x.placed.map (Region.body c A)
  swencrypt : bswenc c A → x.encRegions =
    (extendLast x.mic.length x.placed).map (Region.body c A)
  dump : sent = extendLast x.mic.length x.placed
  bytes : bodies c A x.mem sent = A.front ++ pkt ++ x.mic
  mic : A.encrypt = .tkip → x.mic = rtwSeccalctkipmic A.micKey (fun i => A.header.getD i 0)
    (A.front ++ pkt) (if A.qosEn then A.priority else 0)

section Dump

variable {A} {last : ℕ}

/-- From the second fragment on the dump finds a frame only by pulling its descriptor, which is
what moves the buffer address. -/
theorem dumpLoop_eq_frames_iff (hz : (if c.swEncrypt then 0 else A.encrypt.icvLen) = 0)
    (k : ℕ) {m buf off : ℕ} (ho : off ≤ 1)
    (hbuf : buf + txdescSize + off * packetOffsetSz < m + hwHdrOffset) :
    dumpLoop c A last k m buf off = frames c last k (m + hwHdrOffset) ↔
      (2 ≤ k → pull c (c.fragLen - 4)) ∧ (1 ≤ k → pull c last) := by
  have hF := c.fragLen_ge
  induction k generalizing m buf off with
  | zero => simp [dumpLoop, frames]
  | succ k ih =>
    simp only [dumpLoop, frames, hz, Nat.sub_zero]
    by_cases hp : pull c (if k = 0 then last else c.fragLen - 4) = true
    · rw [if_pos hp]
      have hoff : off - 1 = 0 := by omega
      have haddr : m + packetOffsetSz + txdescSize + 0 * packetOffsetSz = m + hwHdrOffset := by
        simp only [hwHdrOffset]
        omega
      rw [hoff, haddr, List.cons.injEq, eq_self, true_and]
      rcases Nat.eq_zero_or_pos k with rfl | hk
      · simpa [dumpLoop, frames] using hp
      · rw [if_neg (by omega)] at hp ⊢
        have hm : m + packetOffsetSz + (c.fragLen - 4 + txdescSize) =
            m + hwHdrOffset + (c.fragLen - 4) := by
          simp only [hwHdrOffset]
          omega
        have hle := le_rnd4 (m + hwHdrOffset + (c.fragLen - 4))
        have hnext : m + packetOffsetSz + txdescSize + 0 * packetOffsetSz <
            rnd4 (m + hwHdrOffset + (c.fragLen - 4)) + hwHdrOffset := by
          omega
        rw [hm]
        apply (ih (Nat.zero_le 1) hnext).trans
        constructor
        · rintro ⟨-, h2⟩
          exact ⟨fun _ => hp, fun _ => h2 hk⟩
        · rintro ⟨-, h2⟩
          exact ⟨fun _ => hp, fun _ => h2 (by omega)⟩
    · rw [if_neg hp]
      constructor
      · intro h
        rw [List.cons.injEq, Region.mk.injEq] at h
        omega
      · rintro ⟨h1, h2⟩
        exfalso
        rcases Nat.eq_zero_or_pos k with rfl | hk
        · exact hp (by simpa using h2 (by omega))
        · rw [if_neg (by omega)] at hp
          exact hp (h1 (by omega))

/-- The first frame is found in any case. -/
theorem dumpLoop_start_eq_frames_iff
    (hz : (if c.swEncrypt then 0 else A.encrypt.icvLen) = 0) (k B : ℕ) (hk : 0 < k) :
    dumpLoop c A last (k + 1) B B 1 = frames c last (k + 1) (B + hwHdrOffset) ↔
      (2 ≤ k → pull c (c.fragLen - 4)) ∧ pull c last := by
  have hk0 : k ≠ 0 := by omega
  have hF := c.fragLen_ge
  have hle := le_rnd4 (B + hwHdrOffset + (c.fragLen - 4))
  have hp : B + packetOffsetSz + txdescSize + 0 * packetOffsetSz = B + hwHdrOffset := by
    simp only [hwHdrOffset]
    omega
  have hm : B + packetOffsetSz + (c.fragLen - 4 + txdescSize) =
      B + hwHdrOffset + (c.fragLen - 4) := by
    simp only [hwHdrOffset]
    omega
  have hm' : B + (c.fragLen - 4 + txdescSize + packetOffsetSz) =
      B + hwHdrOffset + (c.fragLen - 4) := by
    simp only [hwHdrOffset]
    omega
  have hp' : B + txdescSize + 1 * packetOffsetSz = B + hwHdrOffset := by
    simp only [hwHdrOffset]
    omega
  simp only [dumpLoop, frames, hz, Nat.sub_zero, if_neg hk0, Nat.sub_self, hp, hm, hm', hp']
  have hpulled : B + packetOffsetSz + txdescSize + 0 * packetOffsetSz <
      rnd4 (B + hwHdrOffset + (c.fragLen - 4)) + hwHdrOffset := by
    omega
  have hkept : B + txdescSize + 1 * packetOffsetSz <
      rnd4 (B + hwHdrOffset + (c.fragLen - 4)) + hwHdrOffset := by
    omega
  split_ifs
  · rw [List.cons.injEq, eq_self, true_and,
      dumpLoop_eq_frames_iff c hz k (Nat.zero_le 1) hpulled]
    simp [Nat.one_le_iff_ne_zero, hk0]
  · rw [List.cons.injEq, eq_self, true_and, dumpLoop_eq_frames_iff c hz k le_rfl hkept]
    simp [Nat.one_le_iff_ne_zero, hk0]

end Dump

section Frame

variable {A} {mem : ℕ → BitVec 8} {B : ℕ} {pkt : List (BitVec 8)} {x : XmitFrame}

theorem frontAt_zero : frontAt A 0 = A.front := rfl

/-- The fragments are always laid out; only the MIC can fail. -/
theorem coalesceLoop_start (hb : A.bmcst = false) (mem : ℕ → BitVec 8) (B : ℕ)
    (pkt : List (BitVec 8)) :
    ∃ mem', coalesceLoop c A B (pkt.length + 1)
        ⟨store mem (B + hwHdrOffset) A.header, B + hwHdrOffset, 0, pkt, []⟩ =
      some ⟨mem', fragCount c A (A.front.length + pkt.length),
        lastLen c A (A.front.length + pkt.length),
        frames c (lastLen c A (A.front.length + pkt.length))
          (fragCount c A (A.front.length + pkt.length)) (B + hwHdrOffset)⟩ ∧
      bodies c A mem' (frames c (lastLen c A (A.front.length + pkt.length))
        (fragCount c A (A.front.length + pkt.length)) (B + hwHdrOffset)) = A.front ++ pkt := by
  have h0 := (front_length_bounds A).1
  obtain ⟨mem', he, -, hbod⟩ := coalesceLoop_spec c hb B (pkt.length + 1)
    (s := ⟨store mem (B + hwHdrOffset) A.header, B + hwHdrOffset, 0, pkt, []⟩)
    (Nat.lt_succ_self _) rfl (by simp only [frontAt_zero]; omega)
  refine ⟨mem', ?_, hbod⟩
  rw [he, frontAt_zero, List.nil_append, Nat.zero_add]

/-- Without a MIC the frame is what the loop laid out. -/
theorem rtwXmitframeCoalesce_of_ne_tkip (hb : A.bmcst = false) (ht : A.encrypt ≠ .tkip)
    (mem : ℕ → BitVec 8) (B : ℕ) (pkt : List (BitVec 8)) :
    ∃ x, rtwXmitframeCoalesce c A mem B pkt = some x ∧ x.mic = [] ∧
      x.lastTxcmdsz = lastLen c A (A.front.length + pkt.length) ∧
      bodies c A x.mem x.placed = A.front ++ pkt := by
  obtain ⟨mem', he, hbod⟩ := coalesceLoop_start c hb mem B pkt
  simp only [rtwXmitframeCoalesce, he, xmitframeAddmic, if_neg ht]
  exact ⟨_, rfl, rfl, rfl, hbod⟩

theorem rtwXmitframeCoalesce_of_micKey (hb : A.bmcst = false)
    (hk : A.micKey ≠ List.replicate 16 0) (mem : ℕ → BitVec 8) (B : ℕ) (pkt : List (BitVec 8)) :
    ∃ x, rtwXmitframeCoalesce c A mem B pkt = some x := by
  obtain ⟨mem', he, -⟩ := coalesceLoop_start c hb mem B pkt
  simp only [rtwXmitframeCoalesce, he, xmitframeAddmic, if_neg hk]
  split_ifs
  all_goals exact ⟨_, rfl⟩

theorem rtwXmitframeCoalesce_spec (hb : A.bmcst = false)
    (hx : rtwXmitframeCoalesce c A mem B pkt = some x) :
    x.nrFrags = fragCount c A (A.front.length + pkt.length) ∧
      x.placed = frames c (lastLen c A (A.front.length + pkt.length)) x.nrFrags
        (B + hwHdrOffset) ∧
      x.encRegions = xmitframeSwencrypt c A B x.lastTxcmdsz x.nrFrags := by
  obtain ⟨mem', he, -⟩ := coalesceLoop_start c hb mem B pkt
  simp only [rtwXmitframeCoalesce, he] at hx
  cases hm : xmitframeAddmic c A B ⟨mem', _, _, _⟩ with
  | none =>
    rw [hm] at hx
    simp at hx
  | some m =>
    rw [hm] at hx
    obtain rfl : _ = x := by simpa using hx
    exact ⟨rfl, rfl, rfl⟩

theorem extendLast_frames (k last n m : ℕ) :
    ∃ l, extendLast k (frames c last (n + 2) m) = ⟨m, c.fragLen - 4⟩ :: l := by
  rw [frames_succ c last m (Nat.succ_pos n), frames, extendLast]
  exact ⟨_, rfl⟩

theorem dumpLoop_head (A : Attrib) (last n m buf off : ℕ) :
    ∃ a l, dumpLoop c A last (n + 2) m buf off =
      ⟨a, c.fragLen - 4 - (if c.swEncrypt then 0 else A.encrypt.icvLen)⟩ :: l := by
  rw [dumpLoop, if_neg (Nat.succ_ne_zero n)]
  dsimp only
  split_ifs
  all_goals exact ⟨_, _, rfl⟩

/-- With any cipher some routine takes another size for the first fragment: a software encryptor
forgets the FCS, and the dump subtracts the ICV that the hardware appends. -/
theorem not_sameLayout_of_encrypt (hb : A.bmcst = false)
    (hx : rtwXmitframeCoalesce c A mem B pkt = some x) (hn : 2 ≤ x.nrFrags)
    (henc : A.encrypt ≠ .noPrivacy) : ¬SameLayout c A pkt x (rtwDumpXframe c A B x) := by
  intro h
  obtain ⟨-, hplaced, hencr⟩ := rtwXmitframeCoalesce_spec c hb hx
  obtain ⟨n, hn⟩ := Nat.exists_eq_add_of_le' hn
  have hF := c.fragLen_ge
  have hicv := icvLen_pos henc
  have ho := overhead_le c A
  obtain ⟨l, hl⟩ := extendLast_frames c x.mic.length
    (lastLen c A (A.front.length + pkt.length)) n (B + hwHdrOffset)
  rw [← hn, ← hplaced] at hl
  cases hs : c.swEncrypt with
  | true =>
    have hsw : bswenc c A = true := by
      simp [bswenc, henc, hs]
    have heq := h.swencrypt hsw
    rw [hl, hencr, xmitframeSwencrypt, if_pos hsw, hn, encryptLoop, if_neg (by omega),
      List.map_cons, List.cons.injEq, Region.body, Region.mk.injEq, swIcvLen, if_pos hsw] at heq
    simp only [overhead, swIcvLen, if_pos hsw] at ho
    dsimp only at heq
    omega
  | false =>
    obtain ⟨a, l', hl'⟩ := dumpLoop_head c A x.lastTxcmdsz n B B 1
    have heq := h.dump
    rw [hl, rtwDumpXframe, hn, hl', List.cons.injEq, Region.mk.injEq, hs, if_neg (by decide)] at heq
    have := icvLen_le A.encrypt
    omega

end Frame

/-- When the routines agree on a frame in the clear: every descriptor behind the first is
pulled, because `mp_mode` is off and no transfer ends on a bulk size boundary. -/
def DescriptorsPulled (n : ℕ) : Prop :=
  c.mpMode = false ∧ rtwUsbBulkSizeBoundary c (txdescSize + lastLen c A n) = false ∧
    (2 * capacity c A < n → rtwUsbBulkSizeBoundary c (txdescSize + (c.fragLen - 4)) = false)

theorem three_le_fragCount_iff {n : ℕ} : 3 ≤ fragCount c A n ↔ 2 * capacity c A < n := by
  have h0 := capacity_pos c A
  rw [fragCount, Nat.succ_le_succ_iff, Nat.le_div_iff_mul_le h0]
  omega

/-- For every MSDU that is split, the routines lay out, protect and send the same bytes exactly
when it goes in the clear and every descriptor behind the first is pulled. -/
theorem fragments_agree_iff {mem : ℕ → BitVec 8} {B : ℕ} {pkt : List (BitVec 8)} {x : XmitFrame}
    (hb : A.bmcst = false) (hx : rtwXmitframeCoalesce c A mem B pkt = some x)
    (hn : 2 ≤ x.nrFrags) :
    SameLayout c A pkt x (rtwDumpXframe c A B x) ↔
      A.encrypt = .noPrivacy ∧ DescriptorsPulled c A (A.front.length + pkt.length) := by
  by_cases henc : A.encrypt = .noPrivacy
  · have ht : A.encrypt ≠ .tkip := by simp [henc]
    obtain ⟨x', hx', hmic, hlast, hbod⟩ := rtwXmitframeCoalesce_of_ne_tkip c hb ht mem B pkt
    obtain rfl : x = x' := Option.some_injective _ (hx.symm.trans hx')
    obtain ⟨hcount, hplaced, -⟩ := rtwXmitframeCoalesce_spec c hb hx
    obtain ⟨k, hk⟩ := Nat.exists_eq_add_of_le' hn
    have hz : (if c.swEncrypt then 0 else A.encrypt.icvLen) = 0 := by
      simp [henc, Encrypt.icvLen]
    have hdump : rtwDumpXframe c A B x = x.placed ↔
        DescriptorsPulled c A (A.front.length + pkt.length) := by
      rw [rtwDumpXframe, hplaced, hlast, hk,
        dumpLoop_start_eq_frames_iff c hz (k + 1) B (Nat.succ_pos k), DescriptorsPulled,
        ← three_le_fragCount_iff, ← hcount, hk]
      simp only [pull, Bool.and_eq_true, Bool.not_eq_true', Nat.reduceLeDiff]
      tauto
    rw [← hdump]
    constructor
    · intro h
      refine ⟨henc, ?_⟩
      rw [h.dump, hmic, List.length_nil, extendLast_zero]
    · rintro ⟨-, h⟩
      have hsw : bswenc c A = false := by simp [bswenc, henc]
      refine ⟨fun h => absurd h ht, fun h => ?_, ?_, ?_, fun h => absurd h ht⟩
      · rw [hsw] at h
        exact absurd h (by decide)
      · rw [h, hmic, List.length_nil, extendLast_zero]
      · rw [h, hbod, hmic, List.append_nil]
  · constructor
    · intro h
      exact absurd h (not_sameLayout_of_encrypt c hb hx hn henc)
    · rintro ⟨h, -⟩
      exact absurd h henc

/-- A threshold of 256 bytes on a high speed bus. -/
def adapter256 (swEncrypt : Bool) : Adapter where
  fragLen := 256
  swEncrypt := swEncrypt
  hwDecrypted := true
  pkGkConflict := false
  mpMode := false
  usbSpeed := .high
  fragLen_ge := le_rfl

/-- A QoS data frame to one receiver, with an IPv4 packet. -/
def qosAttrib (encrypt : Encrypt) : Attrib where
  bmcst := false
  wds := false
  qosEn := true
  priority := 0
  etherType := 0x0800
  eapol44 := false
  encrypt := encrypt
  header := List.replicate 26 0
  mctrl := []
  iv := fun _ => 0
  icv := fun _ => 0
  micKey := List.replicate 16 1
  header_length := rfl
  mctrl_length := Nat.zero_le 18

theorem fragments_agree_iff_plain :
    ∃ x, rtwXmitframeCoalesce (adapter256 false) (qosAttrib .noPrivacy) (fun _ => 0) 0
        (List.replicate 300 0) = some x ∧ 2 ≤ x.nrFrags ∧
      SameLayout (adapter256 false) (qosAttrib .noPrivacy) (List.replicate 300 0) x
        (rtwDumpXframe (adapter256 false) (qosAttrib .noPrivacy) 0 x) := by
  obtain ⟨x, hx, -⟩ := rtwXmitframeCoalesce_of_ne_tkip (adapter256 false)
    (A := qosAttrib .noPrivacy) rfl (by decide) (fun _ => 0) 0 (List.replicate 300 0)
  have hn : 2 ≤ x.nrFrags := by
    rw [(rtwXmitframeCoalesce_spec _ rfl hx).1, List.length_replicate]
    decide
  refine ⟨x, hx, hn, (fragments_agree_iff _ _ rfl hx hn).mpr ⟨rfl, rfl, ?_, ?_⟩⟩
  · rw [List.length_replicate]
    decide
  · rw [List.length_replicate]
    decide

/-- TKIP in software: the first of two fragments is encrypted over four bytes too many. -/
theorem tkip_fragments_disagree :
    ∃ x, rtwXmitframeCoalesce (adapter256 true) (qosAttrib .tkip) (fun _ => 0) 0
        (List.replicate 300 0) = some x ∧ 2 ≤ x.nrFrags ∧
      ¬SameLayout (adapter256 true) (qosAttrib .tkip) (List.replicate 300 0) x
        (rtwDumpXframe (adapter256 true) (qosAttrib .tkip) 0 x) := by
  obtain ⟨x, hx⟩ := rtwXmitframeCoalesce_of_micKey (adapter256 true)
    (A := qosAttrib .tkip) rfl (by decide) (fun _ => 0) 0 (List.replicate 300 0)
  have hn : 2 ≤ x.nrFrags := by
    rw [(rtwXmitframeCoalesce_spec _ rfl hx).1, List.length_replicate]
    decide
  exact ⟨x, hx, hn, not_sameLayout_of_encrypt _ rfl hx hn (by decide)⟩

end Rtl8821cu.XmitFrag
