import Rtl8821cu.PktCursor

/-! Injection on a monitor interface: `rtw_monitor_xmit_entry` (`core/rtw_xmit.c`) up to the frame
that it puts behind the descriptor, for an interface of type `ARPHRD_IEEE80211_RADIOTAP`. -/
namespace Rtl8821cu.MonitorXmit
open PktCursor

/-- A packet of the kernel; its length fits the `int` that the function keeps it in. -/
structure Skb where
  data : List (BitVec 8)
  length_lt : data.length < 2 ^ 31

/-- `sizeof(struct ieee80211_radiotap_header)`. -/
def rtapHdrSize : ℕ := 8

def rtapBufSize : ℕ := 256

/-- What is put into a frame: the bytes copied to `rtap_buf` from its start on, the remaining
length, which is also `pktlen` and `last_txcmdsz`, and the bytes behind the descriptor. -/
structure Injected where
  rtapLen : ℕ
  rtapWritten : List (BitVec 8)
  len : ℤ
  frame : List (BitVec 8)

def itVersion (rtapBuf : List (BitVec 8)) : BitVec 8 := rtapBuf.getD 0 0

/-- `ieee80211_get_radiotap_len`. -/
def radiotapLen (rtapBuf : List (BitVec 8)) : ℕ :=
  (rtapBuf.getD 2 0).toNat + 256 * (rtapBuf.getD 3 0).toNat

/-- The three tries of `alloc_mgtxmitframe`. -/
def allocated (alloc : ℕ → Bool) : Bool := alloc 3 || alloc 2 || alloc 1

/-- `rtw_monitor_xmit_entry`; `none` when the packet is dropped. -/
def rtwMonitorXmitEntry (alloc : ℕ → Bool) (skb : Skb) : Option Injected :=
  if skb.data.length < rtapHdrSize then none
  else
    let (hdr, f) := rtwPktfileRead (rtwOpenPktfile skb.data) rtapHdrSize
    let rtapLen := radiotapLen hdr
    if itVersion hdr ≠ 0 then none
    else if rtapLen < rtapHdrSize then none
    else
      let len : ℤ := skb.data.length - rtapHdrSize
      let rtapRemain := rtapLen - rtapHdrSize
      let (rest, f) := if 0 < rtapRemain then rtwPktfileRead f rtapRemain else ([], f)
      let len := if 0 < rtapRemain then len - rtapRemain else len
      if allocated alloc then
        some ⟨rtapLen, hdr ++ rest, len, (rtwPktfileRead f (toUint len)).1⟩
      else none

/-- The header that the packet declares is inside the packet and inside `rtap_buf`, nothing is
written behind that, and the frame is the rest of the packet. -/
structure InjectedConfined (skb : Skb) (r : Injected) : Prop where
  declared : r.rtapLen = radiotapLen skb.data
  rtapLen : rtapHdrSize ≤ r.rtapLen ∧ r.rtapLen ≤ skb.data.length ∧ r.rtapLen ≤ rtapBufSize
  written : r.rtapWritten.length ≤ rtapBufSize
  len : 0 ≤ r.len
  frame : r.frame = skb.data.drop r.rtapLen

/-- The packet is dropped, or it is confined. -/
def Confined (alloc : ℕ → Bool) (skb : Skb) : Prop :=
  ∀ r ∈ rtwMonitorXmitEntry alloc skb, InjectedConfined skb r

/-- The packet passes the checks of the function, and there is a frame for it. -/
structure Accepted (alloc : ℕ → Bool) (skb : Skb) : Prop where
  length : rtapHdrSize ≤ skb.data.length
  version : itVersion skb.data = 0
  rtapLen : rtapHdrSize ≤ radiotapLen skb.data
  frame : allocated alloc = true

section Entry

variable {alloc : ℕ → Bool} {skb : Skb}

/-- The header in `rtap_buf` is the start of the packet. -/
theorem read_hdr (skb : Skb) :
    (rtwPktfileRead (rtwOpenPktfile skb.data) rtapHdrSize).1 = skb.data.take rtapHdrSize :=
  read_bytes _ _

theorem itVersion_take (l : List (BitVec 8)) : itVersion (l.take rtapHdrSize) = itVersion l := by
  simp only [itVersion, List.getD_eq_getElem?_getD]
  rw [List.getElem?_take_of_lt (by decide)]

theorem radiotapLen_take (l : List (BitVec 8)) :
    radiotapLen (l.take rtapHdrSize) = radiotapLen l := by
  simp only [radiotapLen, List.getD_eq_getElem?_getD]
  rw [List.getElem?_take_of_lt (by decide), List.getElem?_take_of_lt (by decide)]

theorem entry_of_not_accepted (h : ¬Accepted alloc skb) : rtwMonitorXmitEntry alloc skb = none := by
  rw [rtwMonitorXmitEntry]
  by_cases hlen : skb.data.length < rtapHdrSize
  · rw [if_pos hlen]
  by_cases hversion : itVersion skb.data = 0
  · by_cases hrtap : radiotapLen skb.data < rtapHdrSize
    · rw [if_neg hlen]
      dsimp only
      rw [read_hdr, itVersion_take, radiotapLen_take, if_neg (not_not.mpr hversion), if_pos hrtap]
    · cases halloc : allocated alloc with
      | true => exact absurd ⟨by omega, hversion, by omega, halloc⟩ h
      | false =>
        rw [if_neg hlen]
        dsimp only
        rw [read_hdr, itVersion_take, radiotapLen_take, if_neg (not_not.mpr hversion),
          if_neg hrtap]
        rfl
  · rw [if_neg hlen]
    dsimp only
    rw [read_hdr, itVersion_take, if_pos hversion]

/-- The cursor behind what `rtap_buf` holds of the declared header. -/
def restRead (skb : Skb) : List (BitVec 8) × PktFile :=
  rtwPktfileRead (rtwPktfileRead (rtwOpenPktfile skb.data) rtapHdrSize).2
    (radiotapLen skb.data - rtapHdrSize)

/-- The second read makes no difference where there is nothing left to read. -/
theorem read_rest (f : PktFile) (n : ℕ) :
    (if 0 < n then rtwPktfileRead f n else ([], f)) = rtwPktfileRead f n := by
  rcases Nat.eq_zero_or_pos n with rfl | h
  · rw [if_neg (Nat.lt_irrefl 0), read_zero]
  · rw [if_pos h]

/-- What an accepted packet comes to. -/
theorem entry_of_accepted (h : Accepted alloc skb) :
    rtwMonitorXmitEntry alloc skb = some ⟨radiotapLen skb.data,
      skb.data.take rtapHdrSize ++ (restRead skb).1, skb.data.length - radiotapLen skb.data,
      (rtwPktfileRead (restRead skb).2
        (toUint (skb.data.length - radiotapLen skb.data))).1⟩ := by
  obtain ⟨hlen, hversion, hrtap, halloc⟩ := h
  have hrest : (if 0 < radiotapLen skb.data - rtapHdrSize then
        (skb.data.length - rtapHdrSize : ℤ) - (radiotapLen skb.data - rtapHdrSize : ℕ)
      else (skb.data.length - rtapHdrSize : ℤ)) = skb.data.length - radiotapLen skb.data := by
    split_ifs <;> omega
  rw [rtwMonitorXmitEntry, if_neg (by omega)]
  dsimp only
  rw [read_hdr, itVersion_take, radiotapLen_take, if_neg (not_not.mpr hversion),
    if_neg (by omega), if_pos halloc, read_rest, hrest]
  rfl

/-- The copy into `rtap_buf` ends where the declared header or the packet does. -/
theorem length_written (h : Accepted alloc skb) :
    (skb.data.take rtapHdrSize ++ (restRead skb).1).length =
      min (radiotapLen skb.data) skb.data.length := by
  have hlen := h.length
  have hrtap := h.rtapLen
  rw [List.length_append, List.length_take, restRead, length_read, read_pktLen]
  show min rtapHdrSize skb.data.length +
    min (radiotapLen skb.data - rtapHdrSize) (skb.data.length - rtapHdrSize) = _
  omega

/-- A header inside the packet leaves exactly the packet behind it for the frame. -/
theorem frame_of_inside (h : Accepted alloc skb) (hin : radiotapLen skb.data ≤ skb.data.length) :
    (rtwPktfileRead (restRead skb).2 (toUint (skb.data.length - radiotapLen skb.data))).1 =
      skb.data.drop (radiotapLen skb.data) := by
  have hlen := h.length
  have hrtap := h.rtapLen
  have hlt := skb.length_lt
  have hrest : toUint (skb.data.length - radiotapLen skb.data) =
      skb.data.length - radiotapLen skb.data := by
    rw [toUint]
    omega
  have hcur : (restRead skb).2.curAddr = radiotapLen skb.data := by
    rw [restRead, read_curAddr, read_curAddr, read_pktLen]
    show 0 + min rtapHdrSize skb.data.length +
      min (radiotapLen skb.data - rtapHdrSize) (skb.data.length - rtapHdrSize) = _
    omega
  rw [hrest, read_bytes, hcur]
  exact List.take_of_length_le (by rw [List.length_drop]; rfl)

/-- Injection stays in its bounds for exactly the packets whose declared header fits `rtap_buf` and
the packet; neither of the two is checked. -/
theorem monitorXmit_confined_iff (alloc : ℕ → Bool) (skb : Skb) :
    Confined alloc skb ↔
      (Accepted alloc skb →
        radiotapLen skb.data ≤ rtapBufSize ∧ radiotapLen skb.data ≤ skb.data.length) := by
  by_cases hacc : Accepted alloc skb
  · rw [Confined, entry_of_accepted hacc]
    constructor
    · intro h _
      obtain ⟨_, ⟨_, hin, hbuf⟩, _, _, _⟩ := h _ rfl
      exact ⟨hbuf, hin⟩
    · intro h r hr
      obtain ⟨hbuf, hin⟩ := h hacc
      obtain rfl := Option.some.inj hr
      refine ⟨rfl, ⟨hacc.rtapLen, hin, hbuf⟩, ?_, ?_, frame_of_inside hacc hin⟩
      · exact (length_written hacc).le.trans ((min_le_left _ _).trans hbuf)
      · show (0 : ℤ) ≤ skb.data.length - radiotapLen skb.data
        omega
  · rw [Confined, entry_of_not_accepted hacc]
    exact ⟨fun _ h ↦ absurd h hacc, fun _ _ hr ↦ absurd hr (by simp)⟩

/-- A packet of 300 bytes that declares all of them as its header. -/
def longHeader : Skb where
  data := [0, 0, 0x2c, 0x01] ++ List.replicate 296 0
  length_lt := by
    rw [List.length_append, List.length_replicate]
    decide

/-- 44 bytes of it are written behind `rtap_buf`. -/
theorem longHeader_not_confined : ¬Confined (fun _ ↦ true) longHeader := by
  have hlen : longHeader.data.length = 300 := by
    rw [longHeader, List.length_append, List.length_replicate]
    rfl
  have hacc : Accepted (fun _ ↦ true) longHeader := ⟨by rw [hlen]; decide, rfl, by decide, rfl⟩
  intro h
  have hr := (h _ (entry_of_accepted hacc)).written
  have hwritten := length_written hacc
  rw [show radiotapLen longHeader.data = 300 from rfl, hlen] at hwritten
  rw [hwritten] at hr
  exact absurd hr (by decide)

/-- A packet of 8 bytes that declares a header of 12. -/
def shortPacket : Skb := ⟨[0, 0, 12, 0, 0, 0, 0, 0], by decide⟩

example : (rtwMonitorXmitEntry (fun _ ↦ true) shortPacket).map Injected.len = some (-4) := rfl

end Entry

end Rtl8821cu.MonitorXmit
