import Rtl8821cu.LibBounded
import Rtl8821cu.LibBytes

/-! Packets from the firmware (`halmac_88xx/halmac_common_88xx.c`): what the parser reads of them,
and the debug messages that it copies. -/
namespace Rtl8821cu.HalmacC2h
open Store Reads Reading Bytes

abbrev Byte := BitVec 8

/-- `enum halmac_ret_status`, as far as the parser itself returns it. -/
inductive RetStatus
  | success
  | mallocFail
  | c2hNotHandled
  | handler (status : ℕ)

/-- Bytes of the buffer that are copied as a message. -/
structure Msg where
  start : ℕ
  len : ℕ

/-- A parser, by the turns that its loop is allowed: the status and the messages. -/
abbrev Parser := ℕ → Reading Byte (Option (RetStatus × List Msg))

def leBitsTo4Byte (p off len : ℕ) : Reading Byte ℕ := do
  let bytes ← cells p 4
  pure (ofLe bytes / 2 ^ off % 2 ^ len)

/-- `RX_DESC_SIZE_88XX`: where `c2h_pkt` starts in the buffer. -/
def rxDescSize : ℕ := 24

def getRxDescC2h : Reading Byte ℕ := leBitsTo4Byte 8 28 1

def c2hHdrGetCmdId : Reading Byte ℕ := leBitsTo4Byte rxDescSize 0 8

def c2hHdrGetC2hSubCmdId : Reading Byte ℕ := leBitsTo4Byte rxDescSize 16 8

def c2hHdrGetLen : Reading Byte ℕ := leBitsTo4Byte rxDescSize 24 8

def c2hDbgHdrLen : ℕ := 4

def c2hDbgContentMaxLength : ℕ := 228

/-- The `for` loop of `get_c2h_dbg_88xx` for `n` turns: `next_msg`. -/
def findNext : ℕ → ℕ → Reading Byte ℕ
  | 0, _ => pure 0
  | n + 1, i => do
    let b ← cell (rxDescSize + c2hDbgHdrLen + i)
    if b = 10 then do
      let c ← cell (rxDescSize + c2hDbgHdrLen + i + 1)
      if c = 0 ∨ c = 0xff then pure (c2hDbgHdrLen + i + 1) else findNext n (i + 1)
    else findNext n (i + 1)

/-- A message is copied, and then those that follow. -/
def copyMsg (m : Msg) (rest : Reading Byte (Option (RetStatus × List Msg))) :
    Reading Byte (Option (RetStatus × List Msg)) := do
  let _ ← cells m.start m.len
  let r ← rest
  pure (r.map fun r => (r.1, m :: r.2))

/-- The `while` loop of `get_c2h_dbg_88xx`; `alloc` is whether each `PLTFM_MALLOC` succeeds. -/
def dbgMsgs (alloc : ℕ → Bool) : ℕ → ℕ → ℕ → Reading Byte (Option (RetStatus × List Msg))
  | 0, _, _ => pure none
  | turns + 1, k, curMsg => do
    let b ← cell (rxDescSize + curMsg)
    if b = 0 then pure (some (.success, []))
    else do
      let len ← cell (rxDescSize + curMsg + 3)
      let msgLen := (len - 1).toNat
      if alloc k then
        copyMsg ⟨rxDescSize + curMsg + c2hDbgHdrLen, msgLen⟩
          (dbgMsgs alloc turns (k + 1) ((curMsg + (c2hDbgHdrLen + msgLen)) % 256))
      else pure (some (.mallocFail, []))

def getC2hDbg (alloc : ℕ → Bool) : Parser := fun turns => do
  let contentLen ← c2hHdrGetLen
  if c2hDbgContentMaxLength < contentLen then pure (some (.c2hNotHandled, []))
  else do
    let nextMsg ← findNext contentLen 0
    if alloc 0 then
      copyMsg ⟨rxDescSize + c2hDbgHdrLen, (nextMsg + 256 - c2hDbgHdrLen) % 256⟩
        (dbgMsgs alloc turns 1 nextMsg)
    else pure (some (.mallocFail, []))

/-- The sub-commands that have a handler of their own. -/
def handled : List ℕ := [1, 3, 4, 5, 0x22, 0x25]

/-- `parse_c2h_pkt_88xx`, with the handlers of the other sub-commands. -/
def parseC2hPkt (other : ℕ → Reading Byte ℕ) (alloc : ℕ → Bool) : Parser := fun turns => do
  let cmdId ← c2hHdrGetCmdId
  if cmdId ≠ 0xff then pure (some (.c2hNotHandled, []))
  else do
    let subCmdId ← c2hHdrGetC2hSubCmdId
    if subCmdId = 0 then getC2hDbg alloc turns
    else if subCmdId ∈ handled then do
      let status ← other subCmdId
      pure (some (.handler status, []))
    else pure (some (.c2hNotHandled, []))

def getC2hInfo (other : ℕ → Reading Byte ℕ) (alloc : ℕ → Bool) : Parser := fun turns => do
  let c2h ← getRxDescC2h
  if c2h = 1 then parseC2hPkt other alloc turns else pure (some (.success, []))

/-- Only nonempty parts of the packet were copied. -/
def Copied (size : ℕ) (r : RetStatus × List Msg) : Prop :=
  ∀ m ∈ r.2, 1 ≤ m.len ∧ m.start + m.len ≤ size

/-- The message at a position and all those after it lie in the packet with nonempty contents, and
the last one is followed by a zero byte. Positions are counted in 8 bits. -/
inductive Chain (mem : ℕ → Byte) (size : ℕ) : ℕ → Prop
  | stop {p : ℕ} (hin : rxDescSize + p < size) (h : mem (rxDescSize + p) = 0) : Chain mem size p
  | msg {p len : ℕ} (h : mem (rxDescSize + p) ≠ 0)
      (hlen : (mem (rxDescSize + p + 3) - 1).toNat = len)
      (hpos : 1 ≤ len) (hin : rxDescSize + p + c2hDbgHdrLen + len ≤ size)
      (rest : Chain mem size ((p + (c2hDbgHdrLen + len)) % 256)) : Chain mem size p

/-- A line feed in the content before a byte of 0 or of 0xff. -/
def MsgEnd (mem : ℕ → Byte) (i : ℕ) : Prop :=
  mem (rxDescSize + c2hDbgHdrLen + i) = 10 ∧
    (mem (rxDescSize + c2hDbgHdrLen + i + 1) = 0 ∨ mem (rxDescSize + c2hDbgHdrLen + i + 1) = 0xff)

instance (mem : ℕ → Byte) (i : ℕ) : Decidable (MsgEnd mem i) :=
  inferInstanceAs (Decidable (_ ∧ (_ ∨ _)))

/-- Where the first message ends in the `n` bytes from `i` on. -/
def firstEnd (mem : ℕ → Byte) (i n : ℕ) : Option ℕ :=
  (List.range' i n).find? fun j => MsgEnd mem j

/-- A debug packet of `n` bytes of content: where the end of the first message is missing, it is
taken for 252 bytes. -/
def DbgFits (mem : ℕ → Byte) (size n : ℕ) : Prop :=
  match firstEnd mem 0 n with
  | some i => Chain mem size (c2hDbgHdrLen + i + 1)
  | none => rxDescSize + 256 ≤ size ∧ Chain mem size 0

/-- A packet that is as long as the parser takes it for. -/
structure PktFits (other : ℕ → Reading Byte ℕ) (mem : ℕ → Byte) (size : ℕ) : Prop where
  desc : 12 ≤ size
  hdr : getRxDescC2h.value mem = 1 → rxDescSize + 4 ≤ size
  dbg : getRxDescC2h.value mem = 1 → c2hHdrGetCmdId.value mem = 0xff →
    c2hHdrGetC2hSubCmdId.value mem = 0 → c2hHdrGetLen.value mem ≤ c2hDbgContentMaxLength →
      DbgFits mem size (c2hHdrGetLen.value mem)
  handler : getRxDescC2h.value mem = 1 → c2hHdrGetCmdId.value mem = 0xff →
    c2hHdrGetC2hSubCmdId.value mem ∈ handled →
      (other (c2hHdrGetC2hSubCmdId.value mem)).Inside mem 0 size

section Parse

variable {mem : ℕ → Byte} {size : ℕ} {alloc : ℕ → Bool} {k p n : ℕ}

theorem copied_nil (size : ℕ) (status : RetStatus) : Copied size (status, []) := by
  simp [Copied]

theorem bounded_copyMsg {m : Msg} {x : Parser} :
    Bounded (fun turns => copyMsg m (x turns)) mem size (Copied size) ↔
      (1 ≤ m.len ∧ m.start + m.len ≤ size) ∧ Bounded x mem size (Copied size) := by
  have hcons : ∀ r : RetStatus × List Msg, Copied size (r.1, m :: r.2) ↔
      (1 ≤ m.len ∧ m.start + m.len ≤ size) ∧ Copied size r := by
    intro r
    simp [Copied]
  unfold copyMsg
  rw [bounded_bind, bounded_map, inside_cells]
  simp only [hcons]
  rw [bounded_and]
  constructor
  · rintro ⟨-, h⟩
    exact h
  · intro h
    exact ⟨.inr (by omega), h⟩

theorem bounded_dbgMsgs_stop (h : mem (rxDescSize + p) = 0) :
    Bounded (fun turns => dbgMsgs alloc turns k p) mem size (Copied size) ↔
      rxDescSize + p < size := by
  rw [← @bounded_succ _ _ mem size (Copied size) (fun turns => dbgMsgs alloc turns k p) rfl]
  simp only [dbgMsgs]
  rw [bounded_bind, inside_cell, value_cell]
  simp [h, bounded_pure, copied_nil]

theorem bounded_dbgMsgs_msg (h : mem (rxDescSize + p) ≠ 0) :
    Bounded (fun turns => dbgMsgs alloc turns k p) mem size (Copied size) ↔
      rxDescSize + p + 3 < size ∧ (alloc k = true →
        (1 ≤ (mem (rxDescSize + p + 3) - 1).toNat ∧
          rxDescSize + p + c2hDbgHdrLen + (mem (rxDescSize + p + 3) - 1).toNat ≤ size) ∧
        Bounded (fun turns => dbgMsgs alloc turns (k + 1)
          ((p + (c2hDbgHdrLen + (mem (rxDescSize + p + 3) - 1).toNat)) % 256)) mem size
            (Copied size)) := by
  rw [← @bounded_succ _ _ mem size (Copied size) (fun turns => dbgMsgs alloc turns k p) rfl]
  simp only [dbgMsgs]
  rw [bounded_bind, inside_cell, value_cell]
  simp only [h, if_false]
  rw [bounded_bind, inside_cell, value_cell, bounded_ite, bounded_copyMsg]
  constructor
  · rintro ⟨-, ⟨-, hin⟩, hcopy, -⟩
    exact ⟨by omega, hcopy⟩
  · rintro ⟨hin, hcopy⟩
    exact ⟨⟨by omega, by omega⟩, ⟨by omega, by omega⟩, hcopy,
      fun _ => bounded_pure.mpr (copied_nil _ _)⟩

/-- Along a chain of messages the loop is bounded, whether or not memory can be allocated. -/
theorem Chain.bounded (h : Chain mem size p) (alloc : ℕ → Bool) (k : ℕ) :
    Bounded (fun turns => dbgMsgs alloc turns k p) mem size (Copied size) := by
  induction h generalizing k with
  | stop hin h => exact (bounded_dbgMsgs_stop h).mpr hin
  | msg h hlen hpos hin rest ih =>
    subst hlen
    rw [bounded_dbgMsgs_msg h]
    exact ⟨by unfold c2hDbgHdrLen at hin; omega, fun _ => ⟨⟨hpos, hin⟩, ih (k + 1)⟩⟩

theorem chain_of_bounded (h : Bounded (fun turns => dbgMsgs (fun _ => true) turns k p) mem size
    (Copied size)) : Chain mem size p := by
  obtain ⟨turns, hturns⟩ := h.halts
  induction turns generalizing k p with
  | zero => exact absurd rfl hturns
  | succ turns ih =>
    by_cases hb : mem (rxDescSize + p) = 0
    · exact .stop ((bounded_dbgMsgs_stop hb).mp h) hb
    · obtain ⟨-, hmsg⟩ := (bounded_dbgMsgs_msg hb).mp h
      obtain ⟨⟨hpos, hin⟩, hrest⟩ := hmsg rfl
      refine .msg hb rfl hpos hin (ih hrest fun hnone => hturns ?_)
      simp only [dbgMsgs, value_bind, value_cell, hb, if_false, if_true]
      rw [copyMsg, value_bind, value_bind, hnone]
      rfl

theorem firstEnd_succ (i n : ℕ) : firstEnd mem i (n + 1) =
    if MsgEnd mem i then some i else firstEnd mem (i + 1) n := by
  rw [firstEnd, List.range'_succ, List.find?_cons]
  by_cases h : MsgEnd mem i <;> simp [h, firstEnd]

theorem value_findNext (n i : ℕ) : (findNext n i).value mem =
    ((firstEnd mem i n).map fun j => c2hDbgHdrLen + j + 1).getD 0 := by
  induction n generalizing i with
  | zero => rfl
  | succ n ih =>
    rw [firstEnd_succ, findNext, value_bind, value_cell]
    by_cases hb : mem (rxDescSize + c2hDbgHdrLen + i) = 10
    · rw [if_pos hb, value_bind, value_cell]
      by_cases hc : mem (rxDescSize + c2hDbgHdrLen + i + 1) = 0 ∨
          mem (rxDescSize + c2hDbgHdrLen + i + 1) = 0xff
      · rw [if_pos hc, if_pos ⟨hb, hc⟩]
        rfl
      · rw [if_neg hc, if_neg fun h => hc h.2, ih]
    · rw [if_neg hb, if_neg fun h => hb h.1, ih]

theorem inside_findNext {i : ℕ}
    (hend : ∀ j, firstEnd mem i n = some j → rxDescSize + c2hDbgHdrLen + j + 1 < size)
    (hnone : firstEnd mem i n = none → rxDescSize + c2hDbgHdrLen + i + n < size) :
    (findNext n i).Inside mem 0 size := by
  induction n generalizing i with
  | zero => exact inside_pure _
  | succ n ih =>
    rw [firstEnd_succ] at hend hnone
    rw [findNext, inside_bind, inside_cell, value_cell]
    by_cases hc : MsgEnd mem i
    · have hi := hend i (if_pos hc)
      rw [if_pos hc.1, inside_bind, inside_cell, value_cell, if_pos hc.2]
      exact ⟨⟨by omega, by omega⟩, ⟨by omega, by omega⟩, inside_pure _⟩
    · rw [if_neg hc] at hend hnone
      have hrest := @ih (i + 1) hend fun h => by
        have := hnone h
        omega
      have hi : rxDescSize + c2hDbgHdrLen + i + 1 < size := by
        cases hf : firstEnd mem (i + 1) n with
        | none =>
          have := hnone hf
          omega
        | some j =>
          have hj := hend j hf
          have := List.mem_range'_1.mp (List.mem_of_find?_eq_some hf)
          omega
      refine ⟨⟨by omega, by omega⟩, ?_⟩
      rw [inside_ite]
      refine ⟨fun hb => ?_, fun _ => hrest⟩
      rw [inside_bind, inside_cell, value_cell, if_neg fun h => hc ⟨hb, h⟩]
      exact ⟨⟨by omega, by omega⟩, hrest⟩

theorem inside_leBitsTo4Byte {off len : ℕ} :
    (leBitsTo4Byte p off len).Inside mem 0 size ↔ p + 4 ≤ size := by
  rw [leBitsTo4Byte, inside_bind, inside_cells]
  simp

/-- The search for the end of the first message in `n` bytes of content, and what follows it, are
bounded. -/
def SearchBounded (alloc : ℕ → Bool) (mem : ℕ → Byte) (size n : ℕ) : Prop :=
  (findNext n 0).Inside mem 0 size ∧ (alloc 0 = true →
    (1 ≤ ((findNext n 0).value mem + 256 - c2hDbgHdrLen) % 256 ∧ rxDescSize + c2hDbgHdrLen +
      ((findNext n 0).value mem + 256 - c2hDbgHdrLen) % 256 ≤ size) ∧
    Bounded (fun turns => dbgMsgs alloc turns 1 ((findNext n 0).value mem)) mem size (Copied size))

theorem searchBounded_iff (hn : n ≤ c2hDbgContentMaxLength) :
    (∀ alloc, SearchBounded alloc mem size n) ↔ DbgFits mem size n := by
  unfold SearchBounded
  rw [value_findNext]
  unfold DbgFits c2hDbgContentMaxLength at *
  cases hend : firstEnd mem 0 n with
  | some i =>
    have hi := List.mem_range'_1.mp (List.mem_of_find?_eq_some hend)
    have hlen : (c2hDbgHdrLen + i + 1 + 256 - c2hDbgHdrLen) % 256 = i + 1 := by omega
    dsimp only [Option.map_some, Option.getD_some]
    rw [hlen]
    constructor
    · intro h
      exact chain_of_bounded ((h fun _ => true).2 rfl).2
    · intro h alloc
      have hin : rxDescSize + (c2hDbgHdrLen + i + 1) < size := by
        cases h with
        | stop hin _ => exact hin
        | msg _ _ _ hin _ => omega
      refine ⟨inside_findNext (fun j hj => ?_) fun hnone => ?_, fun _ => ⟨⟨by omega, by omega⟩,
        h.bounded alloc 1⟩⟩
      · obtain rfl := Option.some.inj (hend.symm.trans hj)
        omega
      · rw [hend] at hnone
        cases hnone
  | none =>
    dsimp only [Option.map_none, Option.getD_none]
    have hlen : (0 + 256 - c2hDbgHdrLen) % 256 = 252 := rfl
    have hdbg : rxDescSize + c2hDbgHdrLen + 252 = rxDescSize + 256 := rfl
    rw [hlen, hdbg]
    constructor
    · intro h
      obtain ⟨⟨-, hin⟩, hloop⟩ := (h fun _ => true).2 rfl
      exact ⟨hin, chain_of_bounded hloop⟩
    · rintro ⟨hin, h⟩ alloc
      refine ⟨inside_findNext (fun j hj => ?_) fun _ => ?_, fun _ => ⟨⟨by omega, hin⟩,
        h.bounded alloc 1⟩⟩
      · rw [hend] at hj
        cases hj
      · unfold c2hDbgHdrLen
        omega

theorem bounded_getC2hDbg_iff : Bounded (getC2hDbg alloc) mem size (Copied size) ↔
    rxDescSize + 4 ≤ size ∧ (c2hHdrGetLen.value mem ≤ c2hDbgContentMaxLength →
      SearchBounded alloc mem size (c2hHdrGetLen.value mem)) := by
  unfold getC2hDbg
  rw [bounded_bind, bounded_ite, bounded_bind, bounded_ite, bounded_copyMsg, c2hHdrGetLen,
    inside_leBitsTo4Byte, not_lt]
  simp only [bounded_pure, copied_nil, implies_true, true_and, and_true]
  rfl

theorem bounded_parseC2hPkt_iff {other : ℕ → Reading Byte ℕ} :
    Bounded (parseC2hPkt other alloc) mem size (Copied size) ↔ rxDescSize + 4 ≤ size ∧
      (c2hHdrGetCmdId.value mem = 0xff →
        (c2hHdrGetC2hSubCmdId.value mem = 0 → Bounded (getC2hDbg alloc) mem size (Copied size)) ∧
        (c2hHdrGetC2hSubCmdId.value mem ∈ handled →
          (other (c2hHdrGetC2hSubCmdId.value mem)).Inside mem 0 size)) := by
  have hdisjoint : ∀ sub, sub ∈ handled → sub ≠ 0 := by decide
  unfold parseC2hPkt
  rw [bounded_bind, bounded_ite, bounded_bind, bounded_ite, bounded_ite, bounded_bind,
    c2hHdrGetCmdId, c2hHdrGetC2hSubCmdId, inside_leBitsTo4Byte, inside_leBitsTo4Byte, not_not]
  simp only [bounded_pure, copied_nil, implies_true, true_and, and_true]
  constructor
  · rintro ⟨hhdr, h⟩
    exact ⟨hhdr, fun hcmd => ⟨(h hcmd).2.1, fun hsub =>
      (h hcmd).2.2 (hdisjoint _ hsub) hsub⟩⟩
  · rintro ⟨hhdr, h⟩
    exact ⟨hhdr, fun hcmd => ⟨hhdr, (h hcmd).1, fun _ => (h hcmd).2⟩⟩

end Parse

/-- The parser of a packet is bounded, whatever memory it gets, just when the packet is as long as
its header and its chain of debug messages say. -/
theorem getC2hInfo_bounded_iff (other : ℕ → Reading Byte ℕ) (mem : ℕ → Byte) (size : ℕ) :
    (∀ alloc, Bounded (getC2hInfo other alloc) mem size (Copied size)) ↔
      PktFits other mem size := by
  have hinfo : ∀ alloc, Bounded (getC2hInfo other alloc) mem size (Copied size) ↔ 12 ≤ size ∧
      (getRxDescC2h.value mem = 1 → Bounded (parseC2hPkt other alloc) mem size (Copied size)) := by
    intro alloc
    unfold getC2hInfo
    rw [bounded_bind, bounded_ite, getRxDescC2h, inside_leBitsTo4Byte]
    simp only [bounded_pure, copied_nil, implies_true, and_true]
  simp only [hinfo, bounded_parseC2hPkt_iff, bounded_getC2hDbg_iff]
  constructor
  · intro h
    have hparse := (h fun _ => true).2
    refine ⟨(h fun _ => true).1, fun hc2h => (hparse hc2h).1, fun hc2h hcmd hsub hlen => ?_,
      fun hc2h hcmd => ((hparse hc2h).2 hcmd).2⟩
    exact (searchBounded_iff hlen).mp fun alloc =>
      ((((h alloc).2 hc2h).2 hcmd).1 hsub).2 hlen
  · intro h alloc
    refine ⟨h.desc, fun hc2h => ⟨h.hdr hc2h, fun hcmd => ⟨fun hsub => ⟨h.hdr hc2h, fun hlen =>
      (searchBounded_iff hlen).mpr (h.dbg hc2h hcmd hsub hlen) alloc⟩, h.handler hc2h hcmd⟩⟩⟩

/-- A packet with a debug message of one line feed, and what is behind it. -/
def dbgPkt (next : List Byte) : ℕ → Byte :=
  store (fun _ => 0) 11 ([0x10] ++ List.replicate 12 0 ++ [0xff, 0, 0, 1, 10] ++ next)

theorem dbgPkt_noOther : ∀ alloc, Bounded (getC2hInfo (fun _ => pure 0) alloc) (dbgPkt [0]) 30
    (Copied 30) := by
  refine (getC2hInfo_bounded_iff _ _ _).mpr ⟨by decide, fun _ => by decide, fun _ _ _ _ => ?_,
    fun _ _ _ => inside_pure _⟩
  exact .stop (by decide) (by decide)

/-- A second message whose length is 1. -/
theorem dbgPkt_empty :
    ¬∀ alloc, Bounded (getC2hInfo (fun _ => pure 0) alloc) (dbgPkt [0xff, 0, 0, 1, 0])
      64 (Copied 64) := by
  intro h
  have hmsgs := (h fun _ => true).result 2 _ rfl
  exact absurd (hmsgs _ (.tail _ (.head _))).1 (by decide)

end Rtl8821cu.HalmacC2h
