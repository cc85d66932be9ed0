import Rtl8821cu.LibLeWord

/-! Receive aggregation on USB: `recvbuf2recvframe` (`hal/rtl8821c/usb/rtl8821cu_recv.c`) and the
places of the transfer buffer it reads or hands on. -/
namespace Rtl8821cu.UsbRecv
open LeWord

def rxdescSize : ℕ := 24

/-- What the loop uses of `rx_pkt_attrib`. -/
structure Attrib where
  pktLen : ℕ
  c2h : Bool
  crcErr : Bool
  icvErr : Bool
  drvinfoSz : ℕ
  shiftSz : ℕ
  physt : Bool
  deriving DecidableEq

/-- `rtl8821c_rxdesc2attribute`, with the fields of `halmac_rx_desc_nic.h`; the report of the
firmware has a packet length only. -/
def rxdesc2attribute (mem : ℕ → BitVec 8) (desc : ℕ) : Attrib :=
  let word0 := wordAt mem desc
  let pktLen := (getBits word0 0 14).toNat
  if getBits (wordAt mem (desc + 8)) 28 1 != 0 then ⟨pktLen, true, false, false, 0, 0, false⟩
  else
    { pktLen := pktLen
      c2h := false
      crcErr := getBits word0 14 1 != 0
      icvErr := getBits word0 15 1 != 0
      drvinfoSz := (getBits word0 16 4).toNat * 8
      shiftSz := (getBits word0 24 2).toNat
      physt := getBits word0 26 1 != 0 }

/-- `pkt_offset` before it is rounded. -/
def Attrib.pktOffset (a : Attrib) : ℕ := rxdescSize + a.drvinfoSz + a.shiftSz + a.pktLen

def rnd8 (sz : ℕ) : ℕ := (sz / 8 + if sz % 8 ≠ 0 then 1 else 0) * 8

/-- What `recvbuf2recvframe` does with the transfer buffer. `normalRx` is the packet given to
`recvbuf2recvframe_proccess_normal_rx`, `c2h` a report with what is left of the transfer. -/
inductive Event
  | aggNum
  | rxDesc (pbuf : ℕ)
  | c2h (pbuf : ℕ) (a : Attrib) (length : ℤ)
  | normalRx (pbuf : ℕ) (a : Attrib)
  deriving DecidableEq

/-- What the parser is told: `mp_mode`, and by the number of the packet whether
`rtw_alloc_recvframe` and `rtw_os_alloc_recvframe` succeed. -/
structure Env where
  mpMode : Bool
  allocFrame : ℕ → Bool
  allocPkt : ℕ → Bool

/-- One turn of the loop: what is done, and `pkt_offset` if the loop is not left. -/
def turn (env : Env) (mem : ℕ → BitVec 8) (nr pbuf : ℕ) (transferLen : ℤ) :
    List Event × Option ℕ :=
  if !env.allocFrame nr then ([], none)
  else
    let a := rxdesc2attribute mem pbuf
    if !env.mpMode && (a.crcErr || a.icvErr) then ([.rxDesc pbuf], none)
    else if a.pktLen = 0 ∨ (a.pktOffset : ℤ) > transferLen then ([.rxDesc pbuf], none)
    else if a.c2h then
      ([.rxDesc pbuf, .c2h pbuf a transferLen], some (rnd8 a.pktOffset % 65536))
    else if env.allocPkt nr then
      ([.rxDesc pbuf, .normalRx pbuf a], some (rnd8 a.pktOffset % 65536))
    else ([.rxDesc pbuf], none)

theorem le_rnd8 (n : ℕ) : n ≤ rnd8 n := by
  unfold rnd8
  split_ifs <;> omega

theorem rnd8_lt (n : ℕ) : rnd8 n < n + 8 := by
  unfold rnd8
  split_ifs <;> omega

theorem rnd8_mod (n : ℕ) : rnd8 n % 8 = 0 := Nat.mul_mod_left _ _

theorem pktOffset_rxdesc2attribute (mem : ℕ → BitVec 8) (desc : ℕ) :
    rxdescSize ≤ (rxdesc2attribute mem desc).pktOffset ∧
      (rxdesc2attribute mem desc).pktOffset < 65528 := by
  have hlen := getBits_toNat_lt (show 14 ≤ 32 by decide) (wordAt mem desc) 0
  have hdrv := getBits_toNat_lt (show 4 ≤ 32 by decide) (wordAt mem desc) 16
  have hshift := getBits_toNat_lt (show 2 ≤ 32 by decide) (wordAt mem desc) 24
  unfold Attrib.pktOffset rxdesc2attribute rxdescSize
  dsimp only
  split_ifs <;> dsimp only <;> omega

/-- The rounded offset fits into the `u16` it is cast to. -/
theorem rnd8_pktOffset (mem : ℕ → BitVec 8) (desc : ℕ) :
    rnd8 (rxdesc2attribute mem desc).pktOffset % 65536 =
      rnd8 (rxdesc2attribute mem desc).pktOffset := by
  have hoff := (pktOffset_rxdesc2attribute mem desc).2
  have hrnd := rnd8_lt (rxdesc2attribute mem desc).pktOffset
  exact Nat.mod_eq_of_lt (by omega)

/-- A packet is taken at `pbuf`. -/
structure Taken (env : Env) (mem : ℕ → BitVec 8) (nr pbuf : ℕ) (transferLen : ℤ) : Prop where
  frame : env.allocFrame nr = true
  clean : env.mpMode = true ∨
    ((rxdesc2attribute mem pbuf).crcErr = false ∧ (rxdesc2attribute mem pbuf).icvErr = false)
  nonempty : 0 < (rxdesc2attribute mem pbuf).pktLen
  fits : ((rxdesc2attribute mem pbuf).pktOffset : ℤ) ≤ transferLen
  pkt : (rxdesc2attribute mem pbuf).c2h = true ∨ env.allocPkt nr = true

theorem turn_some_iff {env : Env} {mem : ℕ → BitVec 8} {nr pbuf : ℕ} {transferLen : ℤ} {off : ℕ} :
    (turn env mem nr pbuf transferLen).2 = some off ↔
      Taken env mem nr pbuf transferLen ∧
        off = rnd8 (rxdesc2attribute mem pbuf).pktOffset := by
  unfold turn
  simp only [rnd8_pktOffset]
  constructor
  · intro h
    split_ifs at h with hframe herr hbad hc2h hpkt
    · refine ⟨⟨by simpa using hframe, ?_, ?_, ?_, Or.inl hc2h⟩, (Option.some.inj h).symm⟩
      · cases hmp : env.mpMode <;> simp_all
      · omega
      · omega
    · refine ⟨⟨by simpa using hframe, ?_, ?_, ?_, Or.inr hpkt⟩, (Option.some.inj h).symm⟩
      · cases hmp : env.mpMode <;> simp_all
      · omega
      · omega
  · rintro ⟨h, rfl⟩
    have hclean : ¬(!env.mpMode && ((rxdesc2attribute mem pbuf).crcErr ||
        (rxdesc2attribute mem pbuf).icvErr)) = true := by
      rcases h.clean with hmp | ⟨hcrc, hicv⟩
      · simp [hmp]
      · simp [hcrc, hicv]
    have hfit : ¬((rxdesc2attribute mem pbuf).pktLen = 0 ∨
        ((rxdesc2attribute mem pbuf).pktOffset : ℤ) > transferLen) := by
      have := h.nonempty
      have := h.fits
      omega
    rw [h.frame, Bool.not_true, if_neg Bool.false_ne_true, if_neg hclean, if_neg hfit]
    rcases h.pkt with hc2h | hpkt
    · rw [if_pos hc2h]
    · split_ifs <;> rfl

/-- The loop, which runs at least once. -/
def loop (env : Env) (mem : ℕ → BitVec 8) (nr pbuf : ℕ) (transferLen : ℤ) : List Event :=
  (turn env mem nr pbuf transferLen).1 ++
    match _h : (turn env mem nr pbuf transferLen).2 with
    | none => []
    | some off =>
      if _hleft : 0 < transferLen - off then loop env mem (nr + 1) (pbuf + off) (transferLen - off)
      else []
termination_by transferLen.toNat
decreasing_by
  obtain ⟨-, rfl⟩ := turn_some_iff.mp _h
  have hoff := (pktOffset_rxdesc2attribute mem pbuf).1
  have hrnd := le_rnd8 (rxdesc2attribute mem pbuf).pktOffset
  unfold rxdescSize at hoff
  omega

/-- `recvbuf2recvframe` for a transfer of so many bytes; `pkt_cnt` is read first and not used. -/
def recvbuf2recvframe (env : Env) (mem : ℕ → BitVec 8) (transferLen : ℕ) : List Event :=
  .aggNum :: loop env mem 0 0 transferLen

/-- Beginnings and ends of the parts of the buffer that are read or handed on: the descriptor, the
driver information block, the body, and what the report handler is given. -/
def Event.spans : Event → List (ℕ × ℤ)
  | .aggNum => [(12, 16)]
  | .rxDesc pbuf => [(pbuf, pbuf + rxdescSize)]
  | .c2h pbuf a length => [(pbuf, pbuf + a.pktOffset), (pbuf, pbuf + length)]
  | .normalRx pbuf a =>
    [(pbuf + rxdescSize, pbuf + rxdescSize + a.drvinfoSz),
      (pbuf + rxdescSize + a.drvinfoSz + a.shiftSz, pbuf + a.pktOffset)]

/-- The packet that is taken, with its place. -/
def Event.packet : Event → Option (ℕ × Attrib)
  | .c2h pbuf a _ => some (pbuf, a)
  | .normalRx pbuf a => some (pbuf, a)
  | _ => none

/-- A packet starts a multiple of eight bytes behind the start of the one before, which it does not
overlap, and leaves less than eight bytes unused. -/
structure Follows (x y : ℕ × Attrib) : Prop where
  aligned : ∃ k, y.1 = x.1 + 8 * k
  behind : x.1 + x.2.pktOffset ≤ y.1
  close : y.1 < x.1 + x.2.pktOffset + 8

/-- The parser stays in the transfer, and the packets are those of the aggregate from its first byte
on. -/
structure Confined (mem : ℕ → BitVec 8) (transferLen : ℕ) (es : List Event) : Prop where
  inside : ∀ e ∈ es, ∀ x ∈ e.spans, x.2 ≤ transferLen
  described : ∀ x ∈ es.filterMap Event.packet, x.2 = rxdesc2attribute mem x.1
  first : ∀ x ∈ (es.filterMap Event.packet).head?, x.1 = 0
  follow : (es.filterMap Event.packet).IsChain Follows

/-- The places where a packet of the aggregate can start: its first byte, and inside the transfer
the next multiple of eight bytes behind each packet that is taken. -/
inductive Boundary (env : Env) (mem : ℕ → BitVec 8) (transferLen : ℕ) : ℕ → ℕ → Prop
  | first : Boundary env mem transferLen 0 0
  | next {nr pbuf : ℕ} : Boundary env mem transferLen nr pbuf →
    Taken env mem nr pbuf (transferLen - pbuf) →
    pbuf + rnd8 (rxdesc2attribute mem pbuf).pktOffset < transferLen →
    Boundary env mem transferLen (nr + 1) (pbuf + rnd8 (rxdesc2attribute mem pbuf).pktOffset)

section Confined

variable {env : Env} {mem : ℕ → BitVec 8} {transferLen nr pbuf : ℕ}

theorem loop_of_taken {left : ℤ} (h : Taken env mem nr pbuf left) :
    loop env mem nr pbuf left = (turn env mem nr pbuf left).1 ++
      let off := rnd8 (rxdesc2attribute mem pbuf).pktOffset
      if 0 < left - off then loop env mem (nr + 1) (pbuf + off) (left - off) else [] := by
  have hturn := turn_some_iff.mpr ⟨h, rfl⟩
  rw [loop]
  congr 1
  split <;> simp_all

theorem loop_of_not_taken {left : ℤ} (h : ¬Taken env mem nr pbuf left) :
    loop env mem nr pbuf left = (turn env mem nr pbuf left).1 := by
  have hturn : (turn env mem nr pbuf left).2 = none := by
    rw [Option.eq_none_iff_forall_not_mem]
    exact fun off hoff => h (turn_some_iff.mp hoff).1
  rw [loop]
  split <;> simp_all

/-- A turn that takes a packet hands on nothing outside what is left. -/
theorem turn_of_taken {left : ℤ} (h : Taken env mem nr pbuf left) :
    ∃ e : Event, (turn env mem nr pbuf left).1 = [.rxDesc pbuf, e] ∧
      e.packet = some (pbuf, rxdesc2attribute mem pbuf) ∧ ∀ x ∈ e.spans, x.2 ≤ pbuf + left := by
  have hfits := h.fits
  have hturn := turn_some_iff.mpr ⟨h, rfl⟩
  unfold turn at hturn ⊢
  dsimp only at hturn ⊢
  split_ifs at hturn ⊢
  · refine ⟨_, rfl, rfl, fun x hx => ?_⟩
    simp only [Event.spans, List.mem_cons, List.not_mem_nil, or_false] at hx
    rcases hx with rfl | rfl <;> dsimp only <;> omega
  · refine ⟨_, rfl, rfl, fun x hx => ?_⟩
    simp only [Event.spans, List.mem_cons, List.not_mem_nil, or_false] at hx
    unfold Attrib.pktOffset at *
    rcases hx with rfl | rfl <;> dsimp only <;> omega

theorem turn_of_not_taken {left : ℤ} (h : ¬Taken env mem nr pbuf left) :
    (turn env mem nr pbuf left).1 = if env.allocFrame nr then [.rxDesc pbuf] else [] := by
  have hturn : (turn env mem nr pbuf left).2 = none := by
    rw [Option.eq_none_iff_forall_not_mem]
    exact fun off hoff => h (turn_some_iff.mp hoff).1
  unfold turn at hturn ⊢
  dsimp only at hturn ⊢
  split_ifs at hturn ⊢ <;> simp_all

theorem rxDesc_mem_turn {left : ℤ} (h : env.allocFrame nr = true) :
    Event.rxDesc pbuf ∈ (turn env mem nr pbuf left).1 := by
  by_cases htaken : Taken env mem nr pbuf left
  · obtain ⟨e, hturn, -⟩ := turn_of_taken htaken
    simp [hturn]
  · simp [turn_of_not_taken htaken, h]

/-- What the loop does from a boundary on is part of what it does. -/
theorem loop_suffix (h : Boundary env mem transferLen nr pbuf) :
    ∀ e ∈ loop env mem nr pbuf (transferLen - pbuf), e ∈ loop env mem 0 0 transferLen := by
  induction h with
  | first =>
    intro e he
    rwa [Nat.cast_zero, sub_zero] at he
  | @next nr pbuf _ htaken hlt ih =>
    intro e he
    refine ih e ?_
    rw [loop_of_taken htaken]
    dsimp only
    rw [if_pos (by omega)]
    refine List.mem_append_right _ ?_
    rw [sub_sub]
    rwa [Nat.cast_add] at he

/-- The loop stays in the transfer if at every boundary it finds a whole descriptor there. -/
theorem loop_inside (hroom : ∀ nr pbuf, Boundary env mem transferLen nr pbuf →
      env.allocFrame nr = true → pbuf + rxdescSize ≤ transferLen)
    (h : Boundary env mem transferLen nr pbuf) :
    ∀ e ∈ loop env mem nr pbuf (transferLen - pbuf), ∀ x ∈ e.spans, x.2 ≤ transferLen := by
  induction hn : ((transferLen : ℤ) - pbuf).toNat using Nat.strong_induction_on
    generalizing nr pbuf with
  | _ n ih =>
    have hdesc : env.allocFrame nr = true → ∀ x ∈ (Event.rxDesc pbuf).spans, x.2 ≤ transferLen := by
      intro halloc x hx
      obtain rfl := List.mem_singleton.mp hx
      have := hroom nr pbuf h halloc
      dsimp only
      omega
    by_cases htaken : Taken env mem nr pbuf (transferLen - pbuf)
    · obtain ⟨e', hturn, -, hspans⟩ := turn_of_taken htaken
      rw [loop_of_taken htaken, hturn]
      intro e he
      rcases List.mem_append.mp he with he | he
      · simp only [List.mem_cons, List.not_mem_nil, or_false] at he
        rcases he with rfl | rfl
        · exact hdesc htaken.frame
        · intro x hx
          have := hspans x hx
          omega
      · dsimp only at he
        split_ifs at he with hleft
        · have hnext := h.next htaken (by omega)
          have hoff := (pktOffset_rxdesc2attribute mem pbuf).1
          have hrnd := le_rnd8 (rxdesc2attribute mem pbuf).pktOffset
          rw [sub_sub, ← Nat.cast_add] at he
          refine ih _ ?_ hnext rfl e he
          unfold rxdescSize at hoff
          omega
        · cases he
    · rw [loop_of_not_taken htaken, turn_of_not_taken htaken]
      intro e he
      split_ifs at he with halloc
      · obtain rfl := List.mem_singleton.mp he
        exact hdesc halloc
      · cases he

theorem filterMap_packet_pair {e : Event} {x : ℕ × Attrib} (h : e.packet = some x)
    (es : List Event) : ([.rxDesc pbuf, e] ++ es).filterMap Event.packet =
      x :: es.filterMap Event.packet := by
  rw [List.cons_append, List.filterMap_cons_none rfl, List.cons_append,
    List.filterMap_cons_some h, List.nil_append]

/-- The packets of the loop: the first at its offset, each other one behind the one before. -/
theorem loop_packets (left : ℤ) :
    (∀ x ∈ ((loop env mem nr pbuf left).filterMap Event.packet).head?, x.1 = pbuf) ∧
      (∀ x ∈ (loop env mem nr pbuf left).filterMap Event.packet,
        x.2 = rxdesc2attribute mem x.1) ∧
      ((loop env mem nr pbuf left).filterMap Event.packet).IsChain Follows := by
  induction hn : left.toNat using Nat.strong_induction_on generalizing nr pbuf left with
  | _ n ih =>
    by_cases htaken : Taken env mem nr pbuf left
    · obtain ⟨e', hturn, hpkt, -⟩ := turn_of_taken htaken
      have hoff := (pktOffset_rxdesc2attribute mem pbuf).1
      have hrnd := le_rnd8 (rxdesc2attribute mem pbuf).pktOffset
      have hlt := rnd8_lt (rxdesc2attribute mem pbuf).pktOffset
      have hmod := rnd8_mod (rxdesc2attribute mem pbuf).pktOffset
      have hcons : ∃ rest, (loop env mem nr pbuf left).filterMap Event.packet =
          (pbuf, rxdesc2attribute mem pbuf) :: rest ∧
          (∀ x ∈ rest.head?, x.1 = pbuf + rnd8 (rxdesc2attribute mem pbuf).pktOffset) ∧
          (∀ x ∈ rest, x.2 = rxdesc2attribute mem x.1) ∧ rest.IsChain Follows := by
        rw [loop_of_taken htaken, hturn]
        dsimp only
        split_ifs with hleft
        · have hshort : (left - rnd8 (rxdesc2attribute mem pbuf).pktOffset).toNat < n := by
            unfold rxdescSize at hoff
            omega
          exact ⟨_, filterMap_packet_pair hpkt _, @ih _ hshort (nr + 1) _ _ rfl⟩
        · exact ⟨[], filterMap_packet_pair hpkt _, by simp, by simp, List.isChain_nil⟩
      obtain ⟨rest, heq, hfirst, hdesc, hchain⟩ := hcons
      rw [heq]
      refine ⟨?_, ?_, ?_⟩
      · intro x hx
        obtain rfl := Option.some.inj hx
        rfl
      · intro x hx
        rcases List.mem_cons.mp hx with rfl | hx
        · rfl
        · exact hdesc x hx
      · refine List.isChain_cons.mpr ⟨fun y hy => ?_, hchain⟩
        have hy1 := hfirst y hy
        exact ⟨⟨rnd8 (rxdesc2attribute mem pbuf).pktOffset / 8, by dsimp only; omega⟩,
          by dsimp only; omega, by dsimp only; omega⟩
    · rw [loop_of_not_taken htaken, turn_of_not_taken htaken]
      have hnone : (if env.allocFrame nr = true then [Event.rxDesc pbuf] else []).filterMap
          Event.packet = [] := by
        split_ifs <;> rfl
      rw [hnone]
      exact ⟨by simp, by simp, List.isChain_nil⟩

/-- A boundary with less than a descriptor behind it is read beyond the transfer. -/
theorem room_of_inside
    (h : ∀ e ∈ recvbuf2recvframe env mem transferLen, ∀ x ∈ e.spans, x.2 ≤ transferLen)
    (hb : Boundary env mem transferLen nr pbuf) (halloc : env.allocFrame nr = true) :
    pbuf + rxdescSize ≤ transferLen := by
  have hmem : Event.rxDesc pbuf ∈ loop env mem nr pbuf (transferLen - pbuf) := by
    rw [loop]
    exact List.mem_append_left _ (rxDesc_mem_turn halloc)
  have hspan := h _ (List.mem_cons_of_mem _ (loop_suffix hb _ hmem)) _ (List.mem_singleton_self _)
  dsimp only at hspan
  omega

/-- The parser stays in the transfer exactly if it starts on a whole descriptor wherever a packet of
the aggregate can start. -/
theorem recvbuf2recvframe_confined_iff (env : Env) (mem : ℕ → BitVec 8) (transferLen : ℕ) :
    Confined mem transferLen (recvbuf2recvframe env mem transferLen) ↔
      16 ≤ transferLen ∧ ∀ nr pbuf, Boundary env mem transferLen nr pbuf →
        env.allocFrame nr = true → pbuf + rxdescSize ≤ transferLen := by
  constructor
  · intro h
    refine ⟨?_, fun nr pbuf hb halloc => room_of_inside h.inside hb halloc⟩
    have := h.inside .aggNum List.mem_cons_self _ (List.mem_singleton_self _)
    dsimp only at this
    omega
  · rintro ⟨hagg, hroom⟩
    obtain ⟨hfirst, hdesc, hchain⟩ := @loop_packets env mem 0 0 transferLen
    refine ⟨fun e he x hx => ?_, hdesc, hfirst, hchain⟩
    rcases List.mem_cons.mp he with rfl | he
    · obtain rfl := List.mem_singleton.mp hx
      dsimp only
      omega
    · refine loop_inside hroom Boundary.first e ?_ x hx
      rwa [Nat.cast_zero, sub_zero]

/-- A transfer with a descriptor of a packet of eight bytes at its front. -/
def shortTail (i : ℕ) : BitVec 8 := if i = 0 then 8 else 0

/-- Eight bytes behind the only packet are parsed as a descriptor. -/
theorem recvbuf2recvframe_short_tail :
    ¬∀ (env : Env) (mem : ℕ → BitVec 8) (transferLen : ℕ), rxdescSize ≤ transferLen →
      Confined mem transferLen (recvbuf2recvframe env mem transferLen) := by
  intro h
  have hconf := h ⟨false, fun _ => true, fun _ => true⟩ shortTail 40 (by decide)
  have hdesc : rxdesc2attribute shortTail 0 = ⟨8, false, false, false, 0, 0, false⟩ := by decide
  have htaken : Taken ⟨false, fun _ => true, fun _ => true⟩ shortTail 0 0 ((40 : ℕ) - (0 : ℕ)) := by
    refine ⟨rfl, Or.inr ?_, ?_, ?_, Or.inr rfl⟩ <;> rw [hdesc] <;> decide
  have hb := Boundary.first.next htaken (by rw [hdesc]; decide)
  have hroom := room_of_inside hconf.inside hb rfl
  rw [hdesc] at hroom
  revert hroom
  decide

end Confined

end Rtl8821cu.UsbRecv
