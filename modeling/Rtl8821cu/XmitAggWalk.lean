import Rtl8821cu.XmitAgg

/-! What the device finds in a transfer: the packets that were put into it, one behind the other. -/
namespace Rtl8821cu.XmitAgg
open Store Bytes XmitFrag
open UsbRecv (rnd8 le_rnd8 rnd8_mod)

section Coalesce

variable {c : Adapter}

/-- `rtw_xmitframe_coalesce` does not fail for the frame: its header can be built, and its MIC key
is set. -/
def Frame.coalesces (f : Frame c) : Bool :=
  f.hdrFail.isNone && !(f.attrib.encrypt = .tkip && f.attrib.micKey = List.replicate 16 0)

/-- A frame that fits goes into one fragment, whoever it is for. -/
theorem coalesceLoop_one (f : Frame c) (B memStart : ℕ) (mem : ℕ → BitVec 8) (fuel : ℕ) :
    ∃ placed, coalesceLoop c f.attrib B (fuel + 1) ⟨mem, memStart, 0, f.pkt, []⟩ =
      some ⟨clearMFrag (putFragment c f.attrib mem memStart f.attrib.front f.pkt) memStart, 1,
        overhead c f.attrib + (f.attrib.front.length + f.pkt.length), placed⟩ := by
  cases hb : f.attrib.bmcst with
  | false =>
    exact ⟨_, coalesceLoop_last c hb B fuel (s := ⟨mem, memStart, 0, f.pkt, []⟩) f.fits⟩
  | true =>
    refine ⟨[⟨memStart, f.attrib.hdrlen + f.attrib.encrypt.ivLen + f.attrib.front.length +
      f.pkt.length + swIcvLen c f.attrib⟩], ?_⟩
    simp only [coalesceLoop, hb, if_true, Bool.true_or, frontAt_zero, overhead, List.nil_append]
    congr 2
    omega

/-- The MIC goes behind the start of the frame. -/
theorem le_addmicLoop_one (A : Attrib) (sz p : ℕ) : p ≤ (addmicLoop c A sz 1 p).2 := by
  have := le_rnd4 p
  simp only [addmicLoop, if_true]
  omega

theorem putFragment_below (A : Attrib) (mem : ℕ → BitVec 8) (p : ℕ) (front chunk : List (BitVec 8))
    {i : ℕ} (h : i < p) : clearMFrag (putFragment c A mem p front chunk) p i = mem i := by
  rw [clearMFrag_of_ne _ _ (by omega), putFragment_of_lt _ _ _ _ _ h]

/-- The size of the frame is the estimate that is made without it. -/
theorem overhead_add_eq (f : Frame c) :
    overhead c f.attrib + (f.attrib.front.length + f.pkt.length) +
      (if f.attrib.encrypt = .tkip then 8 else 0) = wlanPktSize f := by
  simp only [overhead, swIcvLen, Attrib.front, List.length_append, rtwPutSnap, List.length_cons,
    List.length_nil, wlanPktSize]
  omega

/-- Coalescing writes from its start on, and the size it comes to is the estimate. -/
theorem coalesce_spec (f : Frame c) {memStart : ℕ} (h : hwHdrOffset ≤ memStart)
    (mem : ℕ → BitVec 8) : (∀ i < memStart, (coalesce f memStart mem).1 i = mem i) ∧
      (coalesce f memStart mem).2 = if f.coalesces then some (wlanPktSize f) else none := by
  have hstart : memStart - hwHdrOffset + hwHdrOffset = memStart := by omega
  rw [coalesce, Frame.coalesces]
  cases f.hdrFail with
  | some l => exact ⟨fun i hi => store_of_lt _ _ hi, rfl⟩
  | none =>
    obtain ⟨placed, hloop⟩ := coalesceLoop_one f (memStart - hwHdrOffset) memStart
      (store mem memStart f.attrib.header) f.pkt.length
    have hbelow : ∀ i < memStart, clearMFrag (putFragment c f.attrib
        (store mem memStart f.attrib.header) memStart f.attrib.front f.pkt) memStart i = mem i := by
      intro i hi
      rw [putFragment_below _ _ _ _ _ hi, store_of_lt _ _ hi]
    have hsize := overhead_add_eq f
    dsimp only
    rw [hloop]
    dsimp only
    by_cases htkip : f.attrib.encrypt = .tkip
    · by_cases hkey : f.attrib.micKey = List.replicate 16 0
      · rw [xmitframeAddmic, if_pos htkip, if_pos hkey, decide_eq_true htkip, decide_eq_true hkey]
        exact ⟨hbelow, rfl⟩
      · rw [xmitframeAddmic, if_pos htkip, if_neg hkey, decide_eq_true htkip,
          decide_eq_false hkey]
        dsimp only
        rw [hstart]
        refine ⟨fun i hi => ?_, ?_⟩
        · have hmic := le_addmicLoop_one (c := c) f.attrib (overhead c f.attrib +
            (f.attrib.front.length + f.pkt.length)) memStart
          rw [store_of_lt _ _ hi, store_of_lt _ _ (by omega), hbelow i hi]
        · rw [if_pos htkip] at hsize
          rw [hsize]
          rfl
    · rw [xmitframeAddmic, if_neg htkip, decide_eq_false htkip]
      refine ⟨fun i hi => ?_, ?_⟩
      · dsimp only
        rw [store_of_lt _ _ hi, hbelow i hi]
      · rw [if_neg htkip] at hsize
        rw [← hsize]
        rfl

end Coalesce

section Layout

variable {c : Adapter} {mem mem' : ℕ → BitVec 8} {p q : Packet c} {l : List (Packet c)}
  {pos tail : ℕ}

/-- Where the frame of a packet starts. -/
def Packet.body (p : Packet c) : ℕ := p.pos + (txdescSize + p.pktOffset * packetOffsetSz)

def Packet.stop (p : Packet c) : ℕ := p.body + p.size

/-- The frame is in the buffer as `rtw_xmitframe_coalesce` left it. -/
structure Packet.Sound (p : Packet c) (mem : ℕ → BitVec 8) : Prop where
  size : p.size = wlanPktSize p.frame
  bytes : ∃ m, (coalesce p.frame p.body m).2 = some p.size ∧
    load mem p.body p.size = load (coalesce p.frame p.body m).1 p.body p.size

/-- The walk of the device over `n` packets: the place, `PKT_OFFSET` and `TXPKTSIZE` of each. -/
def deviceWalk (mem : ℕ → BitVec 8) : ℕ → ℕ → List (ℕ × ℕ × ℕ)
  | 0, _ => []
  | n + 1, pos =>
    let txpktsize := (mem pos).toNat + 256 * (mem (pos + 1)).toNat
    let pktOffset := (mem (pos + 7)).toNat % 32
    (pos, pktOffset, txpktsize) ::
      deviceWalk mem n (pos + rnd8 (txdescSize + 8 * pktOffset + txpktsize))

/-- The packets stand one behind the other from `pos` on, and the last ends at `tail`. -/
def Chained : ℕ → List (Packet c) → ℕ → Prop
  | _, [], _ => False
  | pos, [p], tail => p.pos = pos ∧ p.stop = tail
  | pos, p :: q :: l, tail => p.pos = pos ∧ Chained (rnd8 p.stop) (q :: l) tail

theorem rnd8_add {n : ℕ} (h : pos % 8 = 0) : rnd8 (pos + n) = pos + rnd8 n := by
  simp only [rnd8]
  split_ifs <;> omega

theorem Chained.pos_eq (h : Chained pos (p :: l) tail) : p.pos = pos := by
  cases l with
  | nil => exact h.1
  | cons q l => exact h.1

theorem Packet.pos_le_body (p : Packet c) : p.pos + txdescSize ≤ p.body := by
  rw [Packet.body]
  omega

theorem Packet.body_le_stop (p : Packet c) : p.body ≤ p.stop := Nat.le_add_right _ _

theorem Chained.stop_le (h : Chained pos (p :: l) tail) : p.stop ≤ tail := by
  induction l generalizing pos p with
  | nil => exact h.2.le
  | cons q l ih =>
    have hstop := le_rnd8 p.stop
    have hpos := Chained.pos_eq h.2
    have hbody := q.pos_le_body
    have hle := q.body_le_stop
    have := ih h.2
    omega

/-- The packets behind the first are behind its end. -/
theorem Chained.behind (h : Chained pos (p :: l) tail) (hq : q ∈ l) :
    rnd8 p.stop ≤ q.pos ∧ q.stop ≤ tail := by
  induction l generalizing pos p with
  | nil => cases hq
  | cons r l ih =>
    have hpos := Chained.pos_eq h.2
    rcases List.mem_cons.mp hq with rfl | hq
    · exact ⟨hpos.ge, Chained.stop_le h.2⟩
    · obtain ⟨hle, hstop⟩ := ih h.2 hq
      have hbody := r.pos_le_body
      have hle' := r.body_le_stop
      have := le_rnd8 r.stop
      exact ⟨by omega, hstop⟩

theorem Chained.append (h : Chained pos l tail) (hq : q.pos = rnd8 tail) :
    Chained pos (l ++ [q]) q.stop := by
  induction l generalizing pos with
  | nil => exact h.elim
  | cons p l ih =>
    cases l with
    | nil =>
      obtain ⟨hpos, rfl⟩ := h
      exact ⟨hpos, hq, rfl⟩
    | cons r l => exact ⟨h.1, ih h.2⟩

/-- Another descriptor in front of the first frame. -/
theorem Chained.replace (h : Chained pos (p :: l) tail) (hstop : q.stop = p.stop) :
    Chained q.pos (q :: l) tail := by
  cases l with
  | nil => exact ⟨rfl, hstop.trans h.2⟩
  | cons r l =>
    refine ⟨rfl, ?_⟩
    rw [hstop]
    exact h.2

theorem Chained.pairwise (h : Chained pos l tail) : l.Pairwise fun p q => p.stop ≤ q.pos := by
  induction l generalizing pos with
  | nil => exact List.Pairwise.nil
  | cons p l ih =>
    refine List.Pairwise.cons (fun q hq => (le_rnd8 p.stop).trans (h.behind hq).1) ?_
    cases l with
    | nil => exact List.Pairwise.nil
    | cons r l => exact ih h.2

theorem Chained.last (h : Chained pos l tail) : ∀ p ∈ l.getLast?, p.stop = tail := by
  induction l generalizing pos with
  | nil => exact h.elim
  | cons p l ih =>
    cases l with
    | nil =>
      intro q hq
      cases hq
      exact h.2
    | cons r l =>
      intro q hq
      rw [List.getLast?_cons_cons] at hq
      exact ih h.2 q hq

/-- The fields of a descriptor that the device reads. -/
theorem txdesc_fields {f : Frame c} {sz pktOffset n : ℕ} (hsz : sz < 65536) (hoff : pktOffset < 2)
    (h : HoldsAt mem pos (txdesc f sz pktOffset n)) :
    (mem pos).toNat + 256 * (mem (pos + 1)).toNat = sz ∧
      (mem (pos + 7)).toNat % 32 = pktOffset := by
  have h0 : mem (pos + 0) = BitVec.ofNat 8 sz := h 0 _ rfl
  have h1 : mem (pos + 1) = BitVec.ofNat 8 (sz / 256) := h 1 _ rfl
  have h7 : mem (pos + 7) = (f.desc 7 &&& 0xe0 ||| BitVec.ofNat 8 pktOffset &&& 0x1f) := h 7 _ rfl
  rw [Nat.add_zero] at h0
  rw [h0, h1, h7]
  constructor
  · rw [BitVec.toNat_ofNat, BitVec.toNat_ofNat]
    omega
  · generalize f.desc 7 = b
    interval_cases pktOffset <;> revert b <;> decide

/-- The device finds the packets that stand one behind the other. -/
theorem deviceWalk_eq (mem : ℕ → BitVec 8) (h : Chained pos l tail) (hpos : pos % 8 = 0)
    (hdesc : ∀ p ∈ l, p.size < 65536 ∧ p.pktOffset < 2 ∧
      ∃ n, HoldsAt mem p.pos (txdesc p.frame p.size p.pktOffset n)) :
    deviceWalk mem l.length pos = l.map fun p => (p.pos, p.pktOffset, p.size) := by
  induction l generalizing pos with
  | nil => exact h.elim
  | cons p l ih =>
    obtain ⟨hsize, hoff, n, hhold⟩ := hdesc p List.mem_cons_self
    obtain ⟨hsz, hpkt⟩ := txdesc_fields hsize hoff hhold
    have heq := Chained.pos_eq h
    rw [heq] at hsz hpkt
    rw [List.length_cons, deviceWalk, List.map_cons]
    rw [hsz, hpkt, heq]
    refine congrArg (_ :: ·) ?_
    cases l with
    | nil => rfl
    | cons q l =>
      have hstop : rnd8 p.stop = pos + rnd8 (txdescSize + 8 * p.pktOffset + p.size) := by
        rw [← rnd8_add hpos, Packet.stop, Packet.body, heq, packetOffsetSz]
        congr 1
        omega
      rw [← hstop]
      exact ih h.2 (rnd8_mod _) fun r hr => hdesc r (List.mem_cons_of_mem _ hr)

theorem Packet.Sound.congr (h : p.Sound mem) (heq : ∀ i, p.body ≤ i → i < p.stop → mem' i = mem i) :
    p.Sound mem' := by
  obtain ⟨hsize, m, hco, hload⟩ := h
  refine ⟨hsize, m, hco, ?_⟩
  rw [← hload]
  exact load_congr fun i hi hlt => heq i hi hlt

end Layout

section Loop

variable {c : Adapter} {z : Bus c} {first f : Frame c} {done : List (Frame c)} {s : Agg c}

/-- The transfer after some frames of the queue; the descriptor of the first is not there yet. -/
structure Built (first : Frame c) (done : List (Frame c)) (s : Agg c) : Prop where
  chained : Chained 0 s.packets s.pbufTail
  pbuf : s.pbuf = rnd8 s.pbufTail
  tail_le : s.pbufTail ≤ maxXmitbufSz
  count : s.packets.length = s.aggNum
  count_le : s.aggNum ≤ maxTxAggPacketNumber
  head : ∃ rest, s.packets = ⟨0, 1, wlanPktSize first, first⟩ :: rest
  frames : s.packets.map Packet.frame = first :: done.filter Frame.coalesces
  sound : ∀ p ∈ s.packets, p.Sound s.mem
  descs : ∀ p ∈ s.packets.tail, p.pktOffset = 0 ∧ HoldsAt s.mem p.pos (txdesc p.frame p.size 0 0)

/-- The estimate of a frame that fits is below the fragmentation threshold and the MIC. -/
theorem wlanPktSize_le (z : Bus c) (f : Frame c) : wlanPktSize f ≤ 2350 := by
  have hfit := f.fits
  have hF := z.fragLen_le
  have hge := c.fragLen_ge
  have hfront := (front_length_bounds f.attrib).1
  rw [← overhead_add_eq, capacity] at *
  split_ifs <;> omega

theorem Built.packet_stop_le (h : Built first done s) {p : Packet c} (hp : p ∈ s.packets) :
    p.stop ≤ s.pbuf := by
  have hle := le_rnd8 s.pbufTail
  obtain ⟨rest, hhead⟩ := h.head
  have hchain := h.chained
  rw [hhead] at hchain hp
  rw [h.pbuf]
  rcases List.mem_cons.mp hp with rfl | hp
  · exact hchain.stop_le.trans hle
  · exact (hchain.behind hp).2.trans hle

/-- What is written behind the packets does not change them. -/
theorem Built.congr {s' : Agg c} (h : Built first done s) (hpackets : s'.packets = s.packets)
    (hpbuf : s'.pbuf = s.pbuf) (htail : s'.pbufTail = s.pbufTail) (hnum : s'.aggNum = s.aggNum)
    (hmem : ∀ i < s.pbuf, s'.mem i = s.mem i) : Built first done s' := by
  refine ⟨?_, ?_, ?_, ?_, ?_, ?_, ?_, fun p hp => ?_, fun p hp => ?_⟩
  · rw [hpackets, htail]
    exact h.chained
  · rw [hpbuf, htail]
    exact h.pbuf
  · rw [htail]
    exact h.tail_le
  · rw [hpackets, hnum]
    exact h.count
  · rw [hnum]
    exact h.count_le
  · rw [hpackets]
    exact h.head
  · rw [hpackets]
    exact h.frames
  · rw [hpackets] at hp
    have hstop := h.packet_stop_le hp
    exact (h.sound p hp).congr fun i _ hi => hmem i (by omega)
  · rw [hpackets] at hp
    have hp' := List.mem_of_mem_tail hp
    have hstop := h.packet_stop_le hp'
    have hbody := p.pos_le_body
    have hle := p.body_le_stop
    obtain ⟨hoff, hdesc⟩ := h.descs p hp
    refine ⟨hoff, hdesc.congr fun i _ hi => hmem i ?_⟩
    rw [txdesc, List.length_map, List.length_range] at hi
    omega

theorem Built.skip (h : Built first done s) (hf : f.coalesces = false) {mem : ℕ → BitVec 8}
    (hmem : ∀ i < s.pbuf, mem i = s.mem i) : Built first (done ++ [f]) { s with mem := mem } := by
  have h' : Built first done { s with mem := mem } := h.congr rfl rfl rfl rfl hmem
  refine ⟨h'.chained, h'.pbuf, h'.tail_le, h'.count, h'.count_le, h'.head, ?_, h'.sound, h'.descs⟩
  rw [List.filter_append, List.filter_cons_of_neg (by rw [hf]; decide), List.filter_nil,
    List.append_nil]
  exact h.frames

/-- The two outcomes of coalescing a frame behind the others. -/
theorem coalesce_cases {memStart : ℕ} {mem mem' : ℕ → BitVec 8} {r : Option ℕ}
    (hstart : hwHdrOffset ≤ memStart) (h : coalesce f memStart mem = (mem', r)) :
    (∀ i < memStart, mem' i = mem i) ∧ r = if f.coalesces then some (wlanPktSize f) else none := by
  have hspec := coalesce_spec f hstart mem
  rw [h] at hspec
  exact hspec

theorem length_txdesc (f : Frame c) (sz pktOffset aggNum : ℕ) :
    (txdesc f sz pktOffset aggNum).length = txdescSize := by
  rw [txdesc, List.length_map, List.length_range]

theorem Built.put (h : Built first done s) (hlt : s.aggNum < maxTxAggPacketNumber)
    (hroom : rnd8 (s.pbuf + (wlanPktSize f + txdescSize + 0 * packetOffsetSz)) ≤ maxXmitbufSz)
    (hf : f.coalesces = true) {mem : ℕ → BitVec 8}
    (hco : coalesce f (s.pbuf + (txdescSize + 0 * packetOffsetSz)) s.mem =
      (mem, some (wlanPktSize f)))
    (hmem : ∀ i < s.pbuf, mem i = s.mem i) :
    Built first (done ++ [f]) (s.put f mem (wlanPktSize f)) := by
  have hlen := length_txdesc f (wlanPktSize f) 0 0
  have hkept :
      Built first done { s with mem := store mem s.pbuf (txdesc f (wlanPktSize f) 0 0) } := by
    refine h.congr rfl rfl rfl rfl fun i hi => ?_
    dsimp only
    rw [store_of_lt _ _ hi, hmem i hi]
  obtain ⟨rest, hhead⟩ := h.head
  have hbody : (⟨s.pbuf, 0, wlanPktSize f, f⟩ : Packet c).body =
      s.pbuf + (txdescSize + 0 * packetOffsetSz) := rfl
  have hstop : (⟨s.pbuf, 0, wlanPktSize f, f⟩ : Packet c).stop =
      s.pbuf + (wlanPktSize f + txdescSize + 0 * packetOffsetSz) := by
    rw [Packet.stop, hbody]
    dsimp only
    omega
  refine ⟨?_, rfl, (le_rnd8 _).trans hroom, ?_, hlt, ?_, ?_, fun p hp => ?_, fun p hp => ?_⟩
  · have happend := h.chained.append (q := ⟨s.pbuf, 0, wlanPktSize f, f⟩) h.pbuf
    rw [hstop] at happend
    exact happend
  · rw [Agg.put, List.length_append, h.count]
    rfl
  · refine ⟨rest ++ [⟨s.pbuf, 0, wlanPktSize f, f⟩], ?_⟩
    rw [Agg.put, hhead]
    rfl
  · rw [Agg.put, List.map_append, h.frames, List.filter_append, List.filter_cons_of_pos hf]
    rfl
  · rcases List.mem_append.mp hp with hp | hp
    · exact hkept.sound p hp
    · obtain rfl := List.mem_singleton.mp hp
      refine ⟨rfl, s.mem, by rw [hbody, hco], ?_⟩
      rw [hbody, hco]
      refine load_congr fun i hi _ => ?_
      exact store_of_ge _ _ (by omega)
  · have htail : (s.put f mem (wlanPktSize f)).packets.tail =
        s.packets.tail ++ [⟨s.pbuf, 0, wlanPktSize f, f⟩] := by
      rw [Agg.put, hhead]
      rfl
    rw [htail] at hp
    rcases List.mem_append.mp hp with hp | hp
    · exact hkept.descs p hp
    · obtain rfl := List.mem_singleton.mp hp
      exact ⟨rfl, holdsAt_store _ _ _⟩

theorem Built.countDesc (h : Built first done s) (z : Bus c) :
    Built first done (countDesc z s).1 ∧ (XmitAgg.countDesc z s).1.aggNum = s.aggNum := by
  rw [XmitAgg.countDesc]
  split_ifs
  · exact ⟨h.congr rfl rfl rfl rfl fun _ _ => rfl, rfl⟩
  · exact ⟨h.congr rfl rfl rfl rfl fun _ _ => rfl, rfl⟩

/-- The first frame makes room for a descriptor and its packet offset. -/
theorem Built.pbuf_ge (h : Built first done s) : hwHdrOffset ≤ s.pbuf := by
  obtain ⟨rest, hhead⟩ := h.head
  have hstop := h.packet_stop_le (p := ⟨0, 1, wlanPktSize first, first⟩)
    (by rw [hhead]; exact List.mem_cons_self)
  have hle := Packet.body_le_stop (⟨0, 1, wlanPktSize first, first⟩ : Packet c)
  have hbody : (⟨0, 1, wlanPktSize first, first⟩ : Packet c).body = hwHdrOffset := rfl
  omega

/-- The loop tries frames of the queue in turn, and puts those into the transfer that can be
coalesced. -/
theorem aggLoop_built (z : Bus c) (preQsel : BitVec 8) (queue : List (Frame c))
    (h : Built first done s) (hlt : s.aggNum < maxTxAggPacketNumber) :
    ∃ tried, queue = tried ++ (aggLoop z preQsel queue s).2 ∧
      Built first (done ++ tried) (aggLoop z preQsel queue s).1 := by
  induction queue generalizing s done with
  | nil =>
    refine ⟨[], rfl, ?_⟩
    rw [List.append_nil]
    exact h
  | cons f queue ih =>
    have hstay : ∃ tried, f :: queue = tried ++ f :: queue ∧ Built first (done ++ tried) s :=
      ⟨[], rfl, by rw [List.append_nil]; exact h⟩
    rw [aggLoop]
    by_cases hqsel : rtwHalBusaggQselCheck z.apOrMesh preQsel f.qsel = false
    · rw [if_pos hqsel]
      exact hstay
    · rw [if_neg hqsel]
      by_cases hroom : maxXmitbufSz <
          rnd8 (s.pbuf + (wlanPktSize f + txdescSize + 0 * packetOffsetSz))
      · rw [if_pos hroom]
        exact hstay
      · have hge := h.pbuf_ge
        rw [if_neg hroom]
        rcases hco : coalesce f (s.pbuf + (txdescSize + 0 * packetOffsetSz)) s.mem with ⟨mem, r⟩
        obtain ⟨hbelow, hr⟩ := coalesce_cases (by omega) hco
        cases hf : f.coalesces with
        | false =>
          rw [hf, if_neg Bool.false_ne_true] at hr
          subst hr
          obtain ⟨tried, hq, hbuilt⟩ :=
            ih (h.skip hf fun i hi => hbelow i (by omega)) hlt
          rw [List.append_assoc] at hbuilt
          exact ⟨f :: tried, congrArg (f :: ·) hq, hbuilt⟩
        | true =>
          rw [hf, if_pos rfl] at hr
          subst hr
          have hput := h.put hlt (by omega) hf hco fun i hi => hbelow i (by omega)
          dsimp only
          by_cases hfull : (s.put f mem (wlanPktSize f)).aggNum = maxTxAggPacketNumber
          · rw [if_pos hfull]
            exact ⟨[f], rfl, hput⟩
          · rw [if_neg hfull]
            obtain ⟨hcount, hnum⟩ := hput.countDesc z
            rcases hstep : countDesc z (s.put f mem (wlanPktSize f)) with ⟨s', _ | _⟩
            · rw [hstep] at hcount hnum
              have hle := hput.count_le
              have hnum' : s'.aggNum = (s.put f mem (wlanPktSize f)).aggNum := hnum
              obtain ⟨tried, hq, hbuilt⟩ := ih (s := s') hcount (by omega)
              rw [List.append_assoc] at hbuilt
              exact ⟨f :: tried, congrArg (f :: ·) hq, hbuilt⟩
            · rw [hstep] at hcount
              exact ⟨[f], rfl, hcount⟩

end Loop

section Transfers

variable {c : Adapter} {z : Bus c} {first : Frame c}

/-- The transfer is what the device takes it for: it fits the buffer, the walk from its first
descriptor visits `agg_num` packets, which are the frames of the queue that were coalesced, in
order, as they were laid out and apart from each other, and the last ends where the transfer does,
which is not on a bulk size boundary. -/
structure Parseable (t : Transfer c) (first : Frame c) (queue : List (Frame c)) : Prop where
  len_le : t.len ≤ maxXmitbufSz
  aggNum : t.aggNum = t.packets.length ∧ t.aggNum ≤ maxTxAggPacketNumber
  walk : deviceWalk t.mem t.aggNum t.bufAddr = t.packets.map fun p => (p.pos, p.pktOffset, p.size)
  frames : ∃ tried, queue = tried ++ t.left ∧
    t.packets.map Packet.frame = first :: tried.filter Frame.coalesces
  sound : ∀ p ∈ t.packets, p.Sound t.mem
  disjoint : t.packets.Pairwise fun p q => p.stop ≤ q.pos
  last : ∀ p ∈ t.packets.getLast?, p.stop = t.bufAddr + t.len
  boundary : t.len % c.usbSpeed.bulkSize ≠ 0

theorem startAgg_built (z : Bus c) {mem m : ℕ → BitVec 8}
    (hco : coalesce first hwHdrOffset m = (mem, some (wlanPktSize first))) :
    Built first [] (startAgg first mem (wlanPktSize first)) := by
  have hle := wlanPktSize_le z first
  have hbody : (⟨0, 1, wlanPktSize first, first⟩ : Packet c).body = hwHdrOffset := rfl
  refine ⟨⟨rfl, ?_⟩, rfl, ?_, rfl, ?_, ⟨[], rfl⟩, rfl, fun p hp => ?_, nofun⟩
  · rw [Packet.stop, hbody, startAgg, hwHdrOffset]
    dsimp only
    omega
  · rw [startAgg, txdescSize, packetOffsetSz, maxXmitbufSz]
    dsimp only
    omega
  · exact Nat.one_le_iff_ne_zero.mpr (by decide)
  · obtain rfl := List.mem_singleton.mp hp
    refine ⟨rfl, m, by rw [hbody, hco], ?_⟩
    rw [hbody, hco]
    rfl

/-- With a descriptor in front of the first frame, the transfer is what the device takes it for. -/
theorem Built.parseable {done left queue : List (Frame c)} {s : Agg c} {q : Packet c} {len : ℕ}
    (z : Bus c) (h : Built first done s) (hqueue : queue = done ++ left) (hframe : q.frame = first)
    (hsize : q.size = wlanPktSize first) (hbody : q.body = hwHdrOffset) (hpos : q.pos % 8 = 0)
    (hoff : q.pktOffset < 2) (hlen : q.pos + len = s.pbufTail)
    (hbulk : len % c.usbSpeed.bulkSize ≠ 0) :
    Parseable ⟨store s.mem q.pos (txdesc first (wlanPktSize first) q.pktOffset s.aggNum), q.pos,
      len, s.aggNum, q :: s.packets.tail, left⟩ first queue := by
  obtain ⟨rest, hhead⟩ := h.head
  have hchain := h.chained
  have hsound := h.sound
  have hdescs := h.descs
  have hframes := h.frames
  have hcount := h.count
  rw [hhead] at hchain hsound hdescs hframes hcount
  rw [hhead, List.tail_cons]
  rw [List.tail_cons] at hdescs
  have hhbody : (⟨0, 1, wlanPktSize first, first⟩ : Packet c).body = hwHdrOffset := rfl
  have hstop : q.stop = (⟨0, 1, wlanPktSize first, first⟩ : Packet c).stop := by
    rw [Packet.stop, Packet.stop, hbody, hhbody, hsize]
  have hchain' := hchain.replace hstop
  have hqbody := q.pos_le_body
  have hkeep : ∀ i, hwHdrOffset ≤ i → store s.mem q.pos
      (txdesc first (wlanPktSize first) q.pktOffset s.aggNum) i = s.mem i := by
    intro i hi
    refine store_of_ge _ _ ?_
    rw [length_txdesc]
    omega
  have hbehind : ∀ p ∈ rest, hwHdrOffset ≤ p.pos := by
    intro p hp
    have hle := (hchain'.behind hp).1
    have := le_rnd8 q.stop
    have := q.body_le_stop
    omega
  have hqsound : q.Sound s.mem := by
    obtain ⟨-, m, hco, hload⟩ := hsound _ List.mem_cons_self
    rw [hhbody] at hco hload
    refine ⟨by rw [hsize, hframe], m, ?_, ?_⟩
    · rw [hframe, hbody, hsize]
      exact hco
    · rw [hframe, hbody, hsize]
      exact hload
  have hwalk := deviceWalk_eq
    (store s.mem q.pos (txdesc first (wlanPktSize first) q.pktOffset s.aggNum)) hchain' hpos
  rw [List.length_cons] at hcount hwalk
  rw [hcount] at hwalk
  refine ⟨?_, ⟨hcount.symm, h.count_le⟩, hwalk fun p hp => ?_, ⟨done, hqueue, ?_⟩, fun p hp => ?_,
    hchain'.pairwise, fun p hp => ?_, hbulk⟩
  · have := h.tail_le
    dsimp only
    omega
  · rcases List.mem_cons.mp hp with rfl | hp
    · have := wlanPktSize_le z first
      refine ⟨by omega, hoff, s.aggNum, ?_⟩
      rw [hframe, hsize]
      exact holdsAt_store _ _ _
    · have hle := wlanPktSize_le z p.frame
      have hpsize := (hsound p (List.mem_cons_of_mem _ hp)).size
      obtain ⟨hpoff, hpdesc⟩ := hdescs p hp
      have := hbehind p hp
      refine ⟨by omega, by omega, 0, ?_⟩
      rw [hpoff]
      exact hpdesc.congr fun i hi _ => hkeep i (by omega)
  · rw [← hframes]
    dsimp only
    rw [List.map_cons, List.map_cons, hframe]
  · rcases List.mem_cons.mp hp with rfl | hp
    · exact hqsound.congr fun i hi _ => hkeep i (by omega)
    · have hpbody := p.pos_le_body
      have := hbehind p hp
      exact (hsound p (List.mem_cons_of_mem _ hp)).congr fun i hi _ => hkeep i (by omega)
  · dsimp only
    rw [hlen]
    exact hchain'.last p hp

theorem bulkSize_cases (c : Adapter) : c.usbSpeed.bulkSize = 64 ∨ c.usbSpeed.bulkSize = 512 ∨
    c.usbSpeed.bulkSize = 1024 := by
  cases c.usbSpeed
  · exact Or.inl rfl
  · exact Or.inr (Or.inl rfl)
  · exact Or.inr (Or.inr rfl)

/-- The packet offset goes exactly when the transfer would end on a bulk size boundary. -/
theorem finish_parseable {done left queue : List (Frame c)} {s : Agg c} (z : Bus c)
    (h : Built first done s) (hqueue : queue = done ++ left) :
    Parseable (finish first (wlanPktSize first) s left) first queue := by
  obtain ⟨rest, hhead⟩ := h.head
  have htail : hwHdrOffset ≤ s.pbufTail := by
    have hchain := h.chained
    rw [hhead] at hchain
    have hle := hchain.stop_le
    have hbody : (⟨0, 1, wlanPktSize first, first⟩ : Packet c).body = hwHdrOffset := rfl
    have := Packet.body_le_stop (⟨0, 1, wlanPktSize first, first⟩ : Packet c)
    omega
  have hoff : packetOffsetSz ≤ s.pbufTail := le_trans (by decide) htail
  rw [finish]
  by_cases hbulk : s.pbufTail % c.usbSpeed.bulkSize = 0
  · rw [if_pos hbulk]
    refine h.parseable z hqueue (q := ⟨packetOffsetSz, 0, wlanPktSize first, first⟩) rfl rfl rfl
      (show packetOffsetSz % 8 = 0 from rfl) Nat.zero_lt_two (by dsimp only; omega) ?_
    rw [packetOffsetSz] at hoff ⊢
    rcases bulkSize_cases c with hb | hb | hb <;> rw [hb] at hbulk ⊢ <;> omega
  · rw [if_neg hbulk]
    exact h.parseable z hqueue (q := ⟨0, 1, wlanPktSize first, first⟩) rfl rfl rfl rfl
      Nat.one_lt_two (by dsimp only; omega) hbulk

theorem pickFirst_eq {dequeued : List (Frame c)} (mem : ℕ → BitVec 8)
    (h : dequeued.find? Frame.coalesces = some first) :
    ∃ m mem', pickFirst mem dequeued = some (first, mem', wlanPktSize first) ∧
      coalesce first hwHdrOffset m = (mem', some (wlanPktSize first)) := by
  induction dequeued generalizing mem with
  | nil => cases h
  | cons f dequeued ih =>
    rw [pickFirst]
    rcases hco : coalesce f (0 + (txdescSize + 1 * packetOffsetSz)) mem with ⟨mem', r⟩
    obtain ⟨-, hr⟩ := coalesce_cases (Nat.le_of_eq (by rfl)) hco
    cases hf : f.coalesces with
    | false =>
      rw [List.find?_cons_of_neg (by rw [hf]; decide)] at h
      rw [hf, if_neg Bool.false_ne_true] at hr
      subst hr
      exact ih mem' h
    | true =>
      rw [List.find?_cons_of_pos hf] at h
      cases h
      rw [hf, if_pos rfl] at hr
      subst hr
      exact ⟨mem, mem', rfl, hco⟩

/-- One run of the aggregation gives the device a transfer that it takes apart into the frames that
were put into it. -/
theorem rtl8821cuXmitframeComplete_parseable (z : Bus c) (mem : ℕ → BitVec 8)
    {dequeued : List (Frame c)} (pending : Frame c → List (Frame c))
    (hfirst : dequeued.find? Frame.coalesces = some first) :
    ∃ t, rtl8821cuXmitframeComplete z mem dequeued pending = some t ∧
      Parseable t first (pending first) := by
  obtain ⟨m, mem', hpick, hco⟩ := pickFirst_eq mem hfirst
  have hstart := startAgg_built z hco
  obtain ⟨hcount, hnum⟩ := hstart.countDesc z
  rw [rtl8821cuXmitframeComplete, hpick]
  dsimp only
  rcases hstep : countDesc z (startAgg first mem' (wlanPktSize first)) with ⟨s, _ | _⟩
  · rw [hstep] at hcount hnum
    have hlt : s.aggNum < maxTxAggPacketNumber := by
      rw [show s.aggNum = 1 from hnum]
      decide
    obtain ⟨tried, hqueue, hbuilt⟩ :=
      aggLoop_built z first.qsel (pending first) hcount hlt
    exact ⟨_, rfl, finish_parseable z hbuilt hqueue⟩
  · rw [hstep] at hcount
    exact ⟨_, rfl, finish_parseable z hcount rfl⟩

/-- A QoS data frame in the clear with `n` bytes. -/
def plainFrame (n : ℕ) (h : n ≤ 100) : Frame (adapter256 false) where
  attrib := qosAttrib .noPrivacy
  pkt := List.replicate n 0
  qsel := 0
  hdrFail := none
  protect := id
  desc := fun _ => 0
  fits := by
    have hcap : (qosAttrib .noPrivacy).front.length + 100 ≤
        capacity (adapter256 false) (qosAttrib .noPrivacy) := by decide
    rw [List.length_replicate]
    omega
  protect_length := fun _ => rfl

/-- A frame whose header cannot be built, and one behind it. -/
def twoPending : List (Frame (adapter256 false)) :=
  [{ plainFrame 50 (by decide) with hdrFail := some [] }, plainFrame 60 (by decide)]

theorem plainFrames_parseable : ∃ t, rtl8821cuXmitframeComplete
      (⟨3, false, by decide⟩ : Bus (adapter256 false)) (fun _ => 0) [plainFrame 40 (by decide)]
      (fun _ => twoPending) = some t ∧
    Parseable t (plainFrame 40 (by decide)) twoPending :=
  rtl8821cuXmitframeComplete_parseable _ _ (fun _ => twoPending) rfl

end Transfers

end Rtl8821cu.XmitAgg
