import Rtl8821cu.LibLoop

/-! The download of a firmware section in packets (`halmac_88xx/halmac_fw_88xx.c`), the reserved
page that a packet is sent to, and the DMA that takes it from there. -/
namespace Rtl8821cu.HalmacDlfw
open Store Reads Reading Loop

abbrev Byte := BitVec 8

/-- `enum halmac_ret_status`, as far as a download returns it. -/
inductive RetStatus
  | success
  | mallocFail
  | zeroLenRsvdPacket
  | busyState
  | dlRsvdPageFail
  | pollingBcnValidFail
  | ddmaFail
  | fwChecksumFail
  | fwSizeErr
  | cfgDlfwSizeFail
  deriving DecidableEq

inductive Interface
  | usb
  | sdio
  | pcie
  deriving DecidableEq

/-- What becomes of a reserved page that is not empty. -/
inductive RsvdPage
  | busy
  | sendFail
  | pollFail
  | sent

/-- What becomes of a transfer by the DMA. -/
inductive Ddma
  | notReady
  | stuck
  | copied

/-- How the platform and the device answer to the packet at an offset of the section: whether there
is memory for a copy, what the byte behind the copy holds, the reserved page, the DMA; and whether
the checksum is right at the end. -/
structure Platform where
  malloc : ℕ → Bool
  dum : ℕ → Byte
  rsvdPage : ℕ → RsvdPage
  ddma : ℕ → Ddma
  chksumOk : Bool

structure Adapter where
  intf : Interface
  dlfwPktSize : ℕ

def dlfwPktSizeLimit : ℕ := 31744

def cfgMaxDlSize (adapter : Adapter) (size : ℕ) : RetStatus × Adapter :=
  if dlfwPktSizeLimit < size then (.cfgDlfwSizeFail, adapter)
  else if size % 2 ≠ 0 then (.cfgDlfwSizeFail, adapter)
  else (.success, { adapter with dlfwPktSize := size })

/-- `TX_DESC_SIZE_88XX`, the size of a descriptor of the adapter too. -/
def txDescSize : ℕ := 48

def ocpbaseTxbuf : ℕ := 0x18780000

/-- What the device is told: a packet is sent to a reserved page, or the DMA is started. -/
inductive Event
  | send (page : ℕ) (pkt : List Byte)
  | dma (src dest len : ℕ) (first : Bool)

/-- `dl_rsvd_page_88xx` of `size` bytes that `buf` reads. -/
def dlRsvdPage (answer : RsvdPage) (pgAddr size : ℕ) (buf : Reading Byte (List Byte)) :
    Reading Byte (RetStatus × List Event) :=
  if size = 0 then pure (.zeroLenRsvdPacket, [])
  else
    match answer with
    | .busy => pure (.busyState, [])
    | .sendFail => do
      let pkt ← buf
      pure (.dlRsvdPageFail, [.send (pgAddr % 4096) pkt])
    | .pollFail => do
      let pkt ← buf
      pure (.pollingBcnValidFail, [.send (pgAddr % 4096) pkt])
    | .sent => do
      let pkt ← buf
      pure (.success, [.send (pgAddr % 4096) pkt])

/-- `send_fwpkt_88xx` of `size` bytes of the firmware at `p`, `off` bytes into the section. -/
def sendFwpkt (adapter : Adapter) (plat : Platform) (off pgAddr p size : ℕ) :
    Reading Byte (RetStatus × List Event) :=
  if adapter.intf = .usb ∧ (size + txDescSize) % 512 = 0 then
    if plat.malloc off then do
      let fwAddDum ← cells p size
      dlRsvdPage (plat.rsvdPage off) pgAddr (size + 1) (pure (fwAddDum ++ [plat.dum off]))
    else pure (.mallocFail, [])
  else dlRsvdPage (plat.rsvdPage off) pgAddr size (cells p size)

def iddmaDlfw (answer : Ddma) (src dest len : ℕ) (first : Bool) : RetStatus × List Event :=
  match answer with
  | .notReady => (.ddmaFail, [])
  | .stuck => (.ddmaFail, [.dma src dest (len % 2 ^ 18) first])
  | .copied => (.success, [.dma src dest (len % 2 ^ 18) first])

def checkFwChksum (plat : Platform) : RetStatus :=
  if plat.chksumOk then .success else .fwChecksumFail

/-- The variables of the loop, and what the device was told so far. -/
structure Dlfw where
  memOffset : ℕ
  residueSize : ℕ
  firstPart : Bool
  events : List Event

/-- A turn of the loop of `dlfw_to_mem_88xx`. -/
def dlfwTurn (adapter : Adapter) (plat : Platform) (fwBin src dest : ℕ) (s : Dlfw) :
    Reading Byte (Turn Dlfw (RetStatus × List Event)) :=
  if s.residueSize = 0 then pure (.leave (checkFwChksum plat, s.events))
  else do
    let pktSize :=
      if adapter.dlfwPktSize ≤ s.residueSize then adapter.dlfwPktSize else s.residueSize
    let sent ← sendFwpkt adapter plat s.memOffset (src / 128 % 65536) (fwBin + s.memOffset) pktSize
    if sent.1 ≠ .success then pure (.leave (sent.1, s.events ++ sent.2))
    else
      let dma := iddmaDlfw (plat.ddma s.memOffset) ((ocpbaseTxbuf + src + txDescSize) % 2 ^ 32)
        ((dest + s.memOffset) % 2 ^ 32) pktSize s.firstPart
      if dma.1 ≠ .success then pure (.leave (dma.1, s.events ++ sent.2 ++ dma.2))
      else
        pure (.next
          { memOffset := s.memOffset + pktSize
            residueSize := s.residueSize - pktSize
            firstPart := false
            events := s.events ++ sent.2 ++ dma.2 })

/-- `dlfw_to_mem_88xx` of `size` bytes at `fwBin`, with `turns` turns allowed. -/
def dlfwToMem (adapter : Adapter) (plat : Platform) (turns fwBin src dest size : ℕ) :
    Reading Byte (Option (RetStatus × List Event)) :=
  run (dlfwTurn adapter plat fwBin src dest) turns ⟨0, size, true, []⟩

/-- The speeds of the bus. -/
inductive UsbSpeed
  | full
  | high
  | super

def UsbSpeed.bulkOutSize : UsbSpeed → ℕ
  | .full => 64
  | .high => 512
  | .super => 1024

/-- The length of the transfer for a packet of `size` bytes (`usb_write_data_not_xmitframe`, and
`update_txdesc` for frames): `PACKET_OFFSET_SZ` bytes more where it would end at a boundary. -/
def usbTransferLen (speed : UsbSpeed) (size : ℕ) : ℕ :=
  if (txDescSize + size) % speed.bulkOutSize = 0 then txDescSize + size + 8 else txDescSize + size

section Send

variable {adapter : Adapter} {plat : Platform} {mem : ℕ → Byte} {off pgAddr p size : ℕ}

/-- The packet for a piece of the firmware: with a byte behind it where the transfer by USB would
end at a boundary. -/
def chunkPkt (adapter : Adapter) (plat : Platform) (off : ℕ) (c : List Byte) : List Byte :=
  if adapter.intf = .usb ∧ (c.length + txDescSize) % 512 = 0 then c ++ [plat.dum off] else c

/-- A packet whose transfer by USB does not end at a boundary. -/
def OffBoundary (pkt : List Byte) : Prop := (pkt.length + txDescSize) % 512 ≠ 0

theorem chunkPkt_offBoundary (husb : adapter.intf = .usb) (off : ℕ) (c : List Byte) :
    OffBoundary (chunkPkt adapter plat off c) := by
  unfold OffBoundary chunkPkt
  split_ifs with h
  · rw [List.length_append, List.length_singleton]
    omega
  · exact fun hlen => h ⟨husb, hlen⟩

theorem usbTransferLen_offBoundary {pkt : List Byte} (h : OffBoundary pkt) (speed : UsbSpeed) :
    usbTransferLen speed pkt.length % 512 ≠ 0 := by
  have hlen : (txDescSize + pkt.length) % 512 ≠ 0 := by rwa [Nat.add_comm]
  have hbulk : speed.bulkOutSize = 64 ∨ speed.bulkOutSize = 512 ∨ speed.bulkOutSize = 1024 := by
    cases speed <;> simp [UsbSpeed.bulkOutSize]
  rw [usbTransferLen]
  generalize txDescSize + pkt.length = n at hlen ⊢
  by_cases hend : n % speed.bulkOutSize = 0
  · rw [if_pos hend]
    rcases hbulk with hbulk | hbulk | hbulk <;> rw [hbulk] at hend <;> omega
  · rwa [if_neg hend]

theorem dlRsvdPage_spec (answer : RsvdPage) (pgAddr size : ℕ) (buf : Reading Byte (List Byte))
    {r : RetStatus × List Event} (hr : (dlRsvdPage answer pgAddr size buf).value mem = r) :
    (∀ e ∈ r.2, e = .send (pgAddr % 4096) (buf.value mem)) ∧
      (r.1 = .success → 0 < size ∧ r.2 = [.send (pgAddr % 4096) (buf.value mem)]) := by
  subst hr
  unfold dlRsvdPage
  by_cases hsize : size = 0
  · simp [hsize]
  · have hpos := Nat.pos_of_ne_zero hsize
    cases answer <;> simp [hsize, hpos]

/-- Whatever is sent is the packet for the piece, and a success says that it was sent. -/
theorem sendFwpkt_spec {r : RetStatus × List Event}
    (hr : (sendFwpkt adapter plat off pgAddr p size).value mem = r) :
    (∀ e ∈ r.2, e = .send (pgAddr % 4096) (chunkPkt adapter plat off (load mem p size))) ∧
      (r.1 = .success → 0 < size ∧
        r.2 = [.send (pgAddr % 4096) (chunkPkt adapter plat off (load mem p size))]) := by
  unfold sendFwpkt at hr
  unfold chunkPkt
  rw [length_load]
  by_cases hpad : adapter.intf = .usb ∧ (size + txDescSize) % 512 = 0
  · rw [if_pos hpad] at hr ⊢
    have hpos : 0 < size := by
      unfold txDescSize at hpad
      omega
    cases hmalloc : plat.malloc off with
    | false =>
      subst hr
      simp [hmalloc]
    | true =>
      rw [if_pos hmalloc, value_bind, value_cells] at hr
      obtain ⟨hall, hok⟩ := dlRsvdPage_spec _ _ _ _ hr
      exact ⟨hall, fun h => ⟨hpos, (hok h).2⟩⟩
  · rw [if_neg hpad] at hr ⊢
    have hspec := dlRsvdPage_spec _ _ _ _ hr
    rwa [value_cells] at hspec

end Send

/-- A section in pieces of at most `n` bytes. -/
structure Pieces (n : ℕ) (chunks : List (List Byte)) (bytes : List Byte) : Prop where
  flatten : chunks.flatten = bytes
  bounded : ∀ c ∈ chunks, c ≠ [] ∧ c.length ≤ n

/-- What the device is told for the pieces of a section from the offset `off` on. -/
def sectionEvents (adapter : Adapter) (plat : Platform) (src dest : ℕ) :
    ℕ → Bool → List (List Byte) → List Event
  | _, _, [] => []
  | off, first, c :: chunks =>
    .send (src / 128 % 65536 % 4096) (chunkPkt adapter plat off c) ::
      .dma ((ocpbaseTxbuf + src + txDescSize) % 2 ^ 32) ((dest + off) % 2 ^ 32) c.length first ::
        sectionEvents adapter plat src dest (off + c.length) false chunks

section Run

variable {adapter : Adapter} {plat : Platform} {mem : ℕ → Byte} {fwBin src dest : ℕ}

/-- What a run of the loop from a state on comes to. -/
def Downloads (adapter : Adapter) (plat : Platform) (mem : ℕ → Byte) (fwBin src dest : ℕ)
    (s : Dlfw) (turns : ℕ) : Prop :=
  ∃ status events, (run (dlfwTurn adapter plat fwBin src dest) turns s).value mem =
      some (status, s.events ++ events) ∧
    (adapter.intf = .usb → ∀ page pkt, .send page pkt ∈ events → OffBoundary pkt) ∧
    (status = .success → ∃ chunks,
      Pieces adapter.dlfwPktSize chunks (load mem (fwBin + s.memOffset) s.residueSize) ∧
        events = sectionEvents adapter plat src dest s.memOffset s.firstPart chunks)

/-- The size of the next packet. -/
def Dlfw.pktSize (adapter : Adapter) (s : Dlfw) : ℕ :=
  if adapter.dlfwPktSize ≤ s.residueSize then adapter.dlfwPktSize else s.residueSize

theorem Dlfw.pktSize_le (adapter : Adapter) (s : Dlfw) :
    s.pktSize adapter ≤ adapter.dlfwPktSize ∧ s.pktSize adapter ≤ s.residueSize := by
  rw [Dlfw.pktSize]
  split_ifs <;> omega

/-- The next piece of the section. -/
def Dlfw.piece (adapter : Adapter) (mem : ℕ → Byte) (fwBin : ℕ) (s : Dlfw) : List Byte :=
  load mem (fwBin + s.memOffset) (s.pktSize adapter)

/-- What the device is told of the next piece. -/
def Dlfw.told (adapter : Adapter) (plat : Platform) (mem : ℕ → Byte) (fwBin src dest : ℕ)
    (s : Dlfw) : List Event :=
  [.send (src / 128 % 65536 % 4096) (chunkPkt adapter plat s.memOffset (s.piece adapter mem fwBin)),
    .dma ((ocpbaseTxbuf + src + txDescSize) % 2 ^ 32) ((dest + s.memOffset) % 2 ^ 32)
      (s.pktSize adapter) s.firstPart]

/-- A turn with something left fails, or tells the device of a piece and goes on behind it. -/
theorem dlfwTurn_cases (plat : Platform) (mem : ℕ → Byte) (fwBin src dest : ℕ)
    (hlimit : adapter.dlfwPktSize ≤ dlfwPktSizeLimit) {s : Dlfw} (hres : s.residueSize ≠ 0) :
    (∃ status events,
      (dlfwTurn adapter plat fwBin src dest s).value mem = .leave (status, s.events ++ events) ∧
        status ≠ .success ∧ ∀ page pkt, .send page pkt ∈ events →
          pkt = chunkPkt adapter plat s.memOffset (s.piece adapter mem fwBin)) ∨
    0 < s.pktSize adapter ∧ (dlfwTurn adapter plat fwBin src dest s).value mem =
      .next ⟨s.memOffset + s.pktSize adapter, s.residueSize - s.pktSize adapter, false,
        s.events ++ s.told adapter plat mem fwBin src dest⟩ := by
  rw [dlfwTurn, if_neg hres, ← Dlfw.pktSize, value_bind]
  rcases hsent : (sendFwpkt adapter plat s.memOffset (src / 128 % 65536) (fwBin + s.memOffset)
    (s.pktSize adapter)).value mem with ⟨status, sends⟩
  obtain ⟨hall, hok⟩ := sendFwpkt_spec hsent
  have hpkt : ∀ page pkt, .send page pkt ∈ sends →
      pkt = chunkPkt adapter plat s.memOffset (s.piece adapter mem fwBin) := by
    intro page pkt hmem
    exact (Event.send.inj (hall _ hmem)).2
  by_cases hst : status = .success
  · obtain ⟨hpos, hsends⟩ := hok hst
    have hlt : s.pktSize adapter < 262144 := by
      have := (s.pktSize_le adapter).1
      rw [dlfwPktSizeLimit] at hlimit
      omega
    cases hdma : plat.ddma s.memOffset with
    | notReady =>
      refine .inl ⟨.ddmaFail, sends, ?_, by decide, hpkt⟩
      simp [hst, iddmaDlfw]
    | stuck =>
      refine .inl ⟨.ddmaFail, sends ++ [.dma ((ocpbaseTxbuf + src + txDescSize) % 2 ^ 32)
        ((dest + s.memOffset) % 2 ^ 32) (s.pktSize adapter) s.firstPart], ?_, by decide, ?_⟩
      · simp [hst, iddmaDlfw, hlt]
      · intro page pkt hmem
        exact hpkt page pkt (by simpa using hmem)
    | copied =>
      refine .inr ⟨hpos, ?_⟩
      dsimp only at hsends
      simp [hst, iddmaDlfw, hlt, Dlfw.told, hsends, Dlfw.piece]
  · refine .inl ⟨status, sends, ?_, hst, hpkt⟩
    simp [hst]

/-- However much is left, the loop ends, and after a success the device was told of each piece. -/
theorem dlfw_run (plat : Platform) (mem : ℕ → Byte) (fwBin src dest : ℕ)
    (hlimit : adapter.dlfwPktSize ≤ dlfwPktSizeLimit) (s : Dlfw) :
    ∃ turns, Downloads adapter plat mem fwBin src dest s turns := by
  induction hd : s.residueSize using Nat.strong_induction_on generalizing s with
  | _ d ih =>
    by_cases hzero : s.residueSize = 0
    · refine ⟨1, checkFwChksum plat, [], ?_, ?_, fun _ => ⟨[], ⟨?_, ?_⟩, rfl⟩⟩
      · rw [List.append_nil]
        exact value_run_leave (by rw [dlfwTurn, if_pos hzero, value_pure])
      · simp
      · rw [hzero]
        rfl
      · simp
    · have hle := s.pktSize_le adapter
      rcases dlfwTurn_cases plat mem fwBin src dest hlimit hzero with
        ⟨status, events, hturn, hfail, hpkt⟩ | ⟨hpos, hturn⟩
      · refine ⟨1, status, events, value_run_leave hturn, fun husb page pkt hmem => ?_,
          fun hok => absurd hok hfail⟩
        rw [hpkt page pkt hmem]
        exact chunkPkt_offBoundary husb _ _
      · obtain ⟨turns, status, events, hrun, hoff, hdone⟩ := ih (s.residueSize - s.pktSize adapter)
          (by omega) ⟨s.memOffset + s.pktSize adapter, s.residueSize - s.pktSize adapter, false,
            s.events ++ s.told adapter plat mem fwBin src dest⟩ rfl
        refine ⟨turns + 1, status, s.told adapter plat mem fwBin src dest ++ events, ?_, ?_, ?_⟩
        · rw [value_run_next hturn, hrun, List.append_assoc]
        · intro husb page pkt hmem
          rcases List.mem_append.mp hmem with hmem | hmem
          · obtain ⟨-, rfl⟩ : page = _ ∧ pkt = _ := by simpa [Dlfw.told] using hmem
            exact chunkPkt_offBoundary husb _ _
          · exact hoff husb page pkt hmem
        · intro hs
          obtain ⟨chunks, hpieces, hevents⟩ := hdone hs
          have hpiece : (s.piece adapter mem fwBin).length = s.pktSize adapter := length_load _ _ _
          refine ⟨s.piece adapter mem fwBin :: chunks, ⟨?_, ?_⟩, ?_⟩
          · rw [List.flatten_cons, hpieces.flatten, Dlfw.piece, ← Nat.add_assoc, ← load_add,
              Nat.add_sub_cancel' hle.2]
          · intro c hc
            rcases List.mem_cons.mp hc with rfl | hc
            · rw [← List.length_pos_iff, hpiece]
              exact ⟨hpos, hle.1⟩
            · exact hpieces.bounded c hc
          · rw [sectionEvents, hpiece, hevents]
            rfl

end Run

/-- The writes of the DMA into the memory of the device, in order: which byte goes to which address.
`txbuf` is the buffer for packets, where a page has 128 bytes and starts with a descriptor. -/
def dmaWrites (txbuf : ℕ → Byte) : List Event → List (ℕ × Byte)
  | [] => []
  | .send page pkt :: events => dmaWrites (store txbuf (128 * page + txDescSize) pkt) events
  | .dma src dest len _ :: events =>
    ((load txbuf (src - ocpbaseTxbuf) len).zipIdx.map fun x => ((dest + x.2) % 2 ^ 32, x.1)) ++
      dmaWrites txbuf events

/-- The bytes of a section from an offset on, each with the address that it is meant for. -/
def placed (dest off : ℕ) (bytes : List Byte) : List (ℕ × Byte) :=
  (bytes.zipIdx off).map fun x => ((dest + x.2) % 2 ^ 32, x.1)

theorem placed_append (dest off : ℕ) (bytes bytes' : List Byte) :
    placed dest off (bytes ++ bytes') =
      placed dest off bytes ++ placed dest (off + bytes.length) bytes' := by
  rw [placed, List.zipIdx_append, List.map_append]
  rfl

theorem load_chunkPkt (adapter : Adapter) (plat : Platform) (off a : ℕ) (c : List Byte)
    (txbuf : ℕ → Byte) : load (store txbuf a (chunkPkt adapter plat off c)) a c.length = c := by
  have hold := holdsAt_store txbuf a (chunkPkt adapter plat off c)
  refine load_of_holdsAt ?_
  unfold chunkPkt at hold ⊢
  split_ifs at hold ⊢
  · exact (holdsAt_append.mp hold).1
  · exact hold

/-- The DMA takes each piece from the page that it was sent to. -/
theorem dmaWrites_sectionEvents (adapter : Adapter) (plat : Platform) (dest : ℕ) {pg : ℕ}
    (hpg : pg < 4096) (off : ℕ) (first : Bool) (chunks : List (List Byte)) (txbuf : ℕ → Byte) :
    dmaWrites txbuf (sectionEvents adapter plat (128 * pg) dest off first chunks) =
      placed dest off chunks.flatten := by
  induction chunks generalizing off first txbuf with
  | nil => rfl
  | cons c chunks ih =>
    have hpage : 128 * pg / 128 % 65536 % 4096 = pg := by omega
    have hsrc : (ocpbaseTxbuf + 128 * pg + txDescSize) % 2 ^ 32 - ocpbaseTxbuf =
        128 * pg + txDescSize := by
      unfold ocpbaseTxbuf txDescSize
      omega
    have hmove : (c.zipIdx.map fun x => (((dest + off) % 2 ^ 32 + x.2) % 2 ^ 32, x.1)) =
        placed dest off c := by
      rw [placed, List.zipIdx_eq_map_add (i := off), List.map_map]
      refine List.map_congr_left fun x _ => ?_
      simp [Nat.add_assoc]
    rw [sectionEvents, dmaWrites, dmaWrites, hpage, hsrc, load_chunkPkt, hmove, ih,
      List.flatten_cons, placed_append]

/-- A section that was downloaded with success: the device was told of its pieces, in order, and
its DMA put each byte where it belongs. -/
structure Downloaded (adapter : Adapter) (plat : Platform) (sec : List Byte) (src dest : ℕ)
    (events : List Event) : Prop where
  pieces : ∃ chunks, Pieces adapter.dlfwPktSize chunks sec ∧
    events = sectionEvents adapter plat src dest 0 true chunks
  copied : ∀ txbuf, dmaWrites txbuf events = placed dest 0 sec

/-- With any packet size that the setter takes, the download of a section ends; after a success
every byte was copied once, in order, in pieces of at most that size, of which only the first has
the flag; and no transfer by USB ends at a boundary of 512 bytes. -/
theorem dlfwToMem_complete {adapter adapter' : Adapter} {size : ℕ}
    (hcfg : cfgMaxDlSize adapter size = (.success, adapter')) (plat : Platform) (mem : ℕ → Byte)
    {pg : ℕ} (hpg : pg < 4096) (fwBin dest secSize : ℕ) :
    ∃ turns status events,
      (dlfwToMem adapter' plat turns fwBin (128 * pg) dest secSize).value mem =
        some (status, events) ∧
      (adapter'.intf = .usb → ∀ page pkt, .send page pkt ∈ events →
        (txDescSize + pkt.length) % 512 ≠ 0 ∧
          ∀ speed, usbTransferLen speed pkt.length % 512 ≠ 0) ∧
      (status = .success → adapter'.dlfwPktSize = size ∧
        Downloaded adapter' plat (load mem fwBin secSize) (128 * pg) dest events) := by
  have hset : adapter'.dlfwPktSize = size ∧ size ≤ dlfwPktSizeLimit := by
    unfold cfgMaxDlSize at hcfg
    split_ifs at hcfg with hbig
    · cases hcfg
    · cases hcfg
    · cases hcfg
      exact ⟨rfl, Nat.not_lt.mp hbig⟩
  obtain ⟨turns, status, events, hrun, hoff, hdone⟩ := dlfw_run plat mem fwBin (128 * pg) dest
    (hset.1 ▸ hset.2) ⟨0, secSize, true, []⟩
  refine ⟨turns, status, events, hrun, fun husb page pkt hmem => ?_, fun hs => ⟨hset.1, ?_⟩⟩
  · have hpkt := hoff husb page pkt hmem
    refine ⟨?_, usbTransferLen_offBoundary hpkt⟩
    rw [Nat.add_comm]
    exact hpkt
  · obtain ⟨chunks, hpieces, rfl⟩ := hdone hs
    refine ⟨⟨chunks, hpieces, rfl⟩, fun txbuf => ?_⟩
    rw [dmaWrites_sectionEvents adapter' plat dest hpg, hpieces.flatten]
    rfl

/-- A platform where everything goes well. -/
def goodPlatform : Platform := ⟨fun _ => true, fun _ => 0, fun _ => .sent, fun _ => .copied, true⟩

theorem evenSize_complete :
    ∃ turns status events,
      (dlfwToMem ⟨.usb, 464⟩ goodPlatform turns 64 (128 * 0) 0x200000 465).value
          (fun i => BitVec.ofNat 8 i) = some (status, events) ∧
      (Interface.usb = .usb → ∀ page pkt, .send page pkt ∈ events →
        (txDescSize + pkt.length) % 512 ≠ 0 ∧
          ∀ speed, usbTransferLen speed pkt.length % 512 ≠ 0) ∧
      (status = .success → (464 : ℕ) = 464 ∧ Downloaded ⟨.usb, 464⟩ goodPlatform
        (load (fun i => BitVec.ofNat 8 i) 64 465) (128 * 0) 0x200000 events) :=
  @dlfwToMem_complete ⟨.usb, dlfwPktSizeLimit⟩ ⟨.usb, 464⟩ 464 rfl goodPlatform _ 0 (by decide) 64
    0x200000 465

end Rtl8821cu.HalmacDlfw
