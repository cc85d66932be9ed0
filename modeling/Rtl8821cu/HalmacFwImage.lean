import Rtl8821cu.HalmacDlfw
import Rtl8821cu.LibBytes

/-! The layout of a firmware image (`halmac_88xx/halmac_fw_88xx.c`): the check of its size and the
sections that are downloaded from it. -/
namespace Rtl8821cu.HalmacFwImage
open Store Reads Reading Loop Bytes HalmacDlfw

def wlanFwHdrSize : ℕ := 64

def wlanFwHdrChksumSize : ℕ := 8

/-- `rtk_le32_to_cpu` of a field of the header. -/
def le32 (off : ℕ) : Reading Byte ℕ := do
  let field ← cells off 4
  pure (ofLe field)

/-- The sizes of the sections, the checksums with them. -/
structure MemSizes where
  dmem : ℕ
  imem : ℕ
  emem : ℕ

/-- `emem_size` as the header gives it: 0 where bit 4 of the usage is not set. -/
def ememField : Reading Byte ℕ := do
  let usage ← cell 24
  if usage.getLsbD 4 then le32 52 else pure 0

/-- How both functions compute the sizes of the sections. -/
def memSizes : Reading Byte MemSizes := do
  let dmemSize ← le32 36
  let imemSize ← le32 48
  let ememSize ← ememField
  pure
    { dmem := (dmemSize + wlanFwHdrChksumSize) % 2 ^ 32
      imem := (imemSize + wlanFwHdrChksumSize) % 2 ^ 32
      emem := if ememSize ≠ 0 then (ememSize + wlanFwHdrChksumSize) % 2 ^ 32 else ememSize }

def chkFwSize (size : ℕ) : Reading Byte RetStatus :=
  if size < wlanFwHdrSize then pure .fwSizeErr
  else do
    let sizes ← memSizes
    let realSize := (wlanFwHdrSize + sizes.dmem + sizes.imem + sizes.emem) % 2 ^ 32
    if size ≠ realSize then pure .fwSizeErr else pure .success

/-- A part of the image. -/
structure Sec where
  start : ℕ
  size : ℕ
  deriving DecidableEq

inductive SecId
  | dmem
  | imem
  | emem

/-- What the download of a section depends on, besides its bytes: the platform, and the turns that
the loop is allowed. -/
structure Circumstances where
  adapter : Adapter
  plat : SecId → Platform
  turns : SecId → ℕ

/-- The sections that are downloaded: none when a loop runs out of turns. -/
abbrev Download := Reading Byte (Option (RetStatus × List Sec))

/-- `dlfw_to_mem_88xx` of a section; what comes after it only when it succeeds. -/
def downloadSec (z : Circumstances) (id : SecId) (s : Sec) (src dest : ℕ) (rest : Download) :
    Download := do
  match ← dlfwToMem z.adapter (z.plat id) (z.turns id) s.start src dest s.size with
  | none => pure none
  | some (status, _) =>
    if status ≠ .success then pure (some (status, [s]))
    else
      match ← rest with
      | none => pure none
      | some (status, secs) => pure (some (status, s :: secs))

/-- The address of a section in the device: bit 31 is cleared. -/
def secAddr (off : ℕ) : Reading Byte ℕ := do
  let addr ← le32 off
  pure (addr % 2 ^ 31)

/-- `update_fw_info_88xx`: what it reads of the header. -/
def updateFwInfo : Download := do
  let _ ← cells 4 2
  let _ ← cell 6
  let _ ← cell 7
  let _ ← cells 28 2
  let _ ← cells 16 4
  let _ ← cells 20 2
  pure (some (.success, []))

/-- The part of `start_dlfw_88xx` behind `DLFW_EMEM`. -/
def dlfwEmem (z : Circumstances) (sizes : MemSizes) (dlAddr : ℕ) (rest : Download) : Download := do
  let addr ← secAddr 56
  downloadSec z .emem ⟨wlanFwHdrSize + sizes.dmem + sizes.imem, sizes.emem⟩
    (dlAddr * 128 % 2 ^ 32) addr rest

def startDlfw (z : Circumstances) (dlAddr : ℕ) (ememOnly : Bool) : Download := do
  let sizes ← memSizes
  if ememOnly then
    if sizes.emem = 0 then pure (some (.success, []))
    else dlfwEmem z sizes dlAddr (pure (some (.success, [])))
  else do
    let addr ← secAddr 32
    downloadSec z .dmem ⟨wlanFwHdrSize, sizes.dmem⟩ 0 addr do
      let addr ← secAddr 60
      downloadSec z .imem ⟨wlanFwHdrSize + sizes.dmem, sizes.imem⟩ 0 addr
        (if sizes.emem ≠ 0 then dlfwEmem z sizes dlAddr updateFwInfo else updateFwInfo)

section Sections

variable {z : Circumstances} {id : SecId} {s : Sec} {src dest n : ℕ} {mem : ℕ → Byte}
  {rest : Download} {secs : List Sec}

theorem dlRsvdPage_inside (answer : RsvdPage) (pgAddr size : ℕ) {buf : Reading Byte (List Byte)}
    (h : buf.Inside mem 0 n) : (dlRsvdPage answer pgAddr size buf).Inside mem 0 n := by
  unfold dlRsvdPage
  split_ifs
  · exact inside_pure _
  · cases answer <;> simp [h]

theorem sendFwpkt_inside (adapter : Adapter) (plat : Platform) (off pgAddr : ℕ) {p size : ℕ}
    (h : p + size ≤ n) : (sendFwpkt adapter plat off pgAddr p size).Inside mem 0 n := by
  have hcells : (cells p size : Reading Byte (List Byte)).Inside mem 0 n :=
    inside_cells.mpr (by omega)
  unfold sendFwpkt
  split_ifs
  · exact inside_bind.mpr ⟨hcells, dlRsvdPage_inside _ _ _ (inside_pure _)⟩
  · exact inside_pure _
  · exact dlRsvdPage_inside _ _ _ hcells

/-- The loop reads in the section only. -/
theorem dlfwToMem_inside (adapter : Adapter) (plat : Platform) (turns : ℕ) {fwBin size : ℕ}
    (src dest : ℕ) (h : fwBin + size ≤ n) :
    (dlfwToMem adapter plat turns fwBin src dest size).Inside mem 0 n := by
  have hinv : ∀ t, Walk.Reaches (nextState (dlfwTurn adapter plat fwBin src dest) mem)
      ⟨0, size, true, []⟩ t → t.memOffset + t.residueSize = size := by
    intro t ht
    induction ht with
    | refl => exact Nat.zero_add size
    | @tail u v _ hstep ih =>
      have hle := u.pktSize_le adapter
      have hnext := eq_next_of_nextState hstep
      rw [dlfwTurn, ← Dlfw.pktSize] at hnext
      split_ifs at hnext with hzero
      · cases hnext
      · rw [value_bind] at hnext
        simp only [value_ite, value_pure] at hnext
        split_ifs at hnext
        cases hnext
        dsimp only
        omega
  refine forall_inside_iff.mpr (fun t ht => ?_) turns
  have hsum := hinv t ht
  have hle := t.pktSize_le adapter
  rw [dlfwTurn, ← Dlfw.pktSize]
  split_ifs
  · exact inside_pure _
  · refine inside_bind.mpr ⟨sendFwpkt_inside _ _ _ _ (by omega), ?_⟩
    dsimp only
    split_ifs <;> exact inside_pure _

theorem downloadSec_inside (z : Circumstances) (id : SecId) (src dest : ℕ)
    (hs : s.start + s.size ≤ n) (hrest : rest.Inside mem 0 n) :
    (downloadSec z id s src dest rest).Inside mem 0 n := by
  refine inside_bind.mpr ⟨dlfwToMem_inside _ _ _ _ _ hs, ?_⟩
  split
  · exact inside_pure _
  · split_ifs
    · exact inside_pure _
    · refine inside_bind.mpr ⟨hrest, ?_⟩
      split <;> exact inside_pure _

/-- A download that succeeds goes on to one that succeeds. -/
theorem downloadSec_success
    (h : (downloadSec z id s src dest rest).value mem = some (.success, secs)) :
    ∃ secs', secs = s :: secs' ∧ rest.value mem = some (.success, secs') := by
  rw [downloadSec, value_bind] at h
  split at h
  · cases h
  · rename_i status events _
    by_cases hst : status = .success
    · rw [if_neg (not_not.mpr hst), value_bind] at h
      split at h
      · cases h
      · rename_i status' secs' hrest
        cases h
        exact ⟨secs', rfl, hrest⟩
    · rw [if_pos hst] at h
      cases h
      exact absurd rfl hst

theorem downloadSec_of_success {events : List Event}
    (hrun : (dlfwToMem z.adapter (z.plat id) (z.turns id) s.start src dest s.size).value mem =
      some (.success, events)) (hrest : rest.value mem = some (.success, secs)) :
    (downloadSec z id s src dest rest).value mem = some (.success, s :: secs) := by
  rw [downloadSec, value_bind, hrun]
  simp [hrest]


theorem le32_inside {off : ℕ} (h : off + 4 ≤ n) : (le32 off).Inside mem 0 n :=
  inside_bind.mpr ⟨inside_cells.mpr (by omega), inside_pure _⟩

theorem secAddr_inside {off : ℕ} (h : off + 4 ≤ n) : (secAddr off).Inside mem 0 n :=
  inside_bind.mpr ⟨le32_inside h, inside_pure _⟩

theorem memSizes_inside (h : wlanFwHdrSize ≤ n) : memSizes.Inside mem 0 n := by
  rw [wlanFwHdrSize] at h
  refine inside_bind.mpr ⟨le32_inside (by omega), inside_bind.mpr ⟨le32_inside (by omega),
    inside_bind.mpr ⟨inside_bind.mpr ⟨inside_cell.mpr (by omega), ?_⟩, inside_pure _⟩⟩⟩
  rw [inside_ite]
  exact ⟨fun _ => le32_inside (by omega), fun _ => inside_pure _⟩

theorem updateFwInfo_inside (h : wlanFwHdrSize ≤ n) : updateFwInfo.Inside mem 0 n := by
  rw [wlanFwHdrSize] at h
  simp only [updateFwInfo, inside_bind, inside_cells, inside_cell, inside_pure, and_true]
  omega

end Sections

/-- The addresses of a part of the image. -/
def Sec.addrs (s : Sec) : List ℕ := List.range' s.start s.size

/-- The sections that a whole download takes. -/
def MemSizes.secs (sizes : MemSizes) : List Sec :=
  ⟨wlanFwHdrSize, sizes.dmem⟩ :: ⟨wlanFwHdrSize + sizes.dmem, sizes.imem⟩ ::
    if sizes.emem ≠ 0 then [⟨wlanFwHdrSize + sizes.dmem + sizes.imem, sizes.emem⟩] else []

/-- The end of the sections, without wrapping. -/
def MemSizes.total (sizes : MemSizes) : ℕ :=
  wlanFwHdrSize + sizes.dmem + sizes.imem + sizes.emem

theorem MemSizes.addrs_secs (sizes : MemSizes) :
    ((⟨0, wlanFwHdrSize⟩ : Sec) :: sizes.secs).flatMap Sec.addrs = List.range sizes.total := by
  have hjoin : ∀ a b c : ℕ, List.range' a b ++ List.range' (a + b) c = List.range' a (b + c) :=
    fun a b c => List.range'_append_1
  have hemem : (if sizes.emem ≠ 0 then
      [(⟨wlanFwHdrSize + sizes.dmem + sizes.imem, sizes.emem⟩ : Sec)] else []).flatMap Sec.addrs =
        List.range' (wlanFwHdrSize + sizes.dmem + sizes.imem) sizes.emem := by
    by_cases h : sizes.emem = 0
    · simp [h]
    · simp [h, Sec.addrs]
  rw [MemSizes.secs, List.flatMap_cons, List.flatMap_cons, List.flatMap_cons, hemem]
  show List.range' 0 wlanFwHdrSize ++ (List.range' wlanFwHdrSize sizes.dmem ++
    (List.range' (wlanFwHdrSize + sizes.dmem) sizes.imem ++ _)) = _
  rw [hjoin, hjoin]
  nth_rewrite 2 [← Nat.zero_add wlanFwHdrSize]
  rw [hjoin, MemSizes.total, List.range_eq_range', Nat.add_assoc, Nat.add_assoc]

/-- Every download that succeeds takes these sections. -/
theorem startDlfw_secs {z : Circumstances} {mem : ℕ → Byte} {dlAddr : ℕ} {secs : List Sec}
    (h : (startDlfw z dlAddr false).value mem = some (.success, secs)) :
    secs = (memSizes.value mem).secs := by
  rw [startDlfw, value_bind, if_neg Bool.false_ne_true, value_bind] at h
  obtain ⟨secs₁, rfl, hi⟩ := downloadSec_success h
  rw [value_bind] at hi
  obtain ⟨secs₂, rfl, he⟩ := downloadSec_success hi
  rw [MemSizes.secs]
  by_cases hemem : (memSizes.value mem).emem = 0
  · rw [if_neg (not_not.mpr hemem)] at he ⊢
    cases he
    rfl
  · rw [if_pos hemem] at he ⊢
    rw [dlfwEmem, value_bind] at he
    obtain ⟨secs₃, rfl, hrest⟩ := downloadSec_success he
    cases hrest
    rfl

theorem chkFwSize_success {size : ℕ} {mem : ℕ → Byte}
    (h : (chkFwSize size).value mem = .success) :
    wlanFwHdrSize ≤ size ∧ size = (memSizes.value mem).total % 2 ^ 32 := by
  unfold chkFwSize at h
  by_cases hsmall : size < wlanFwHdrSize
  · rw [if_pos hsmall] at h
    cases h
  · rw [if_neg hsmall, value_bind, value_ite, ← MemSizes.total] at h
    by_cases heq : size = (memSizes.value mem).total % 2 ^ 32
    · exact ⟨Nat.not_lt.mp hsmall, heq⟩
    · rw [if_pos (show size ≠ _ from heq)] at h
      cases h

theorem startDlfw_inside (z : Circumstances) (dlAddr : ℕ) (ememOnly : Bool) {mem : ℕ → Byte}
    {n : ℕ} (h : (memSizes.value mem).total ≤ n) :
    (startDlfw z dlAddr ememOnly).Inside mem 0 n := by
  have hhdr : wlanFwHdrSize ≤ n := by
    rw [MemSizes.total] at h
    omega
  have haddr : ∀ off, off + 4 ≤ 64 → (secAddr off).Inside mem 0 n := by
    intro off hoff
    rw [wlanFwHdrSize] at hhdr
    exact secAddr_inside (by omega)
  rw [MemSizes.total] at h
  have hemem : ∀ rest : Download, rest.Inside mem 0 n →
      (dlfwEmem z (memSizes.value mem) dlAddr rest).Inside mem 0 n := fun rest hrest =>
    inside_bind.mpr ⟨haddr 56 (by decide), downloadSec_inside _ _ _ _ h hrest⟩
  have hinfo : updateFwInfo.Inside mem 0 n := updateFwInfo_inside hhdr
  refine inside_bind.mpr ⟨memSizes_inside hhdr, ?_⟩
  cases ememOnly with
  | true =>
    rw [if_pos rfl, inside_ite]
    exact ⟨fun _ => inside_pure _, fun _ => hemem _ (inside_pure _)⟩
  | false =>
    refine inside_bind.mpr ⟨haddr 32 (by decide), downloadSec_inside _ _ _ _ ?_ ?_⟩
    · dsimp only
      omega
    · refine inside_bind.mpr ⟨haddr 60 (by decide), downloadSec_inside _ _ _ _ ?_ ?_⟩
      · dsimp only
        omega
      · rw [inside_ite]
        exact ⟨fun _ => hemem _ hinfo, fun _ => hinfo⟩

/-- A bus without padding, and packets of two bytes. -/
def plainAdapter : Adapter := ⟨.sdio, 2⟩

theorem plainTurn_next (mem : ℕ → Byte) (fwBin src dest : ℕ) {s : Dlfw} (h : s.residueSize ≠ 0) :
    ∃ t, (dlfwTurn plainAdapter goodPlatform fwBin src dest s).value mem = .next t ∧
      t.residueSize < s.residueSize := by
  have hpos : s.pktSize plainAdapter ≠ 0 := by
    rw [Dlfw.pktSize]
    split_ifs
    · decide
    · exact h
  have hle := (s.pktSize_le plainAdapter).2
  have hsent : (sendFwpkt plainAdapter goodPlatform s.memOffset (src / 128 % 65536)
      (fwBin + s.memOffset) (s.pktSize plainAdapter)).value mem =
        (.success, [.send (src / 128 % 65536 % 4096)
          (load mem (fwBin + s.memOffset) (s.pktSize plainAdapter))]) := by
    rw [sendFwpkt, if_neg (fun hpad => absurd hpad.1 (by decide))]
    show (dlRsvdPage .sent _ _ _).value mem = _
    rw [dlRsvdPage, if_neg hpos]
    simp
  rw [dlfwTurn, if_neg h, ← Dlfw.pktSize, value_bind, hsent]
  exact ⟨_, rfl, by dsimp only; omega⟩

/-- Where everything goes well, a download succeeds. -/
theorem dlfw_succeeds (mem : ℕ → Byte) (fwBin src dest : ℕ) (s : Dlfw) :
    ∃ turns events, (run (dlfwTurn plainAdapter goodPlatform fwBin src dest) turns s).value mem =
      some (.success, events) := by
  induction hd : s.residueSize using Nat.strong_induction_on generalizing s with
  | _ d ih =>
    by_cases hzero : s.residueSize = 0
    · refine ⟨1, s.events, value_run_leave ?_⟩
      rw [dlfwTurn, if_pos hzero]
      rfl
    · obtain ⟨t, hturn, hlt⟩ := plainTurn_next mem fwBin src dest hzero
      obtain ⟨turns, events, hrun⟩ := ih t.residueSize (hd ▸ hlt) t rfl
      exact ⟨turns + 1, events, by rw [value_run_next hturn, hrun]⟩

/-- An image that is taken apart as it should be: nothing outside of it is read, and the header and
the sections that are downloaded hold each of its bytes once, in order. -/
structure ParsedInside (mem : ℕ → Byte) (size : ℕ) : Prop where
  reads : ∀ z dlAddr ememOnly, (startDlfw z dlAddr ememOnly).Inside mem 0 size
  layout : ∀ z dlAddr secs, (startDlfw z dlAddr false).value mem = some (.success, secs) →
    ((⟨0, wlanFwHdrSize⟩ : Sec) :: secs).flatMap Sec.addrs = List.range size

theorem startDlfw_succeeds (mem : ℕ → Byte) :
    ∃ z secs, (startDlfw z 0 false).value mem = some (.success, secs) := by
  obtain ⟨sizes, hsizes⟩ : ∃ sizes, memSizes.value mem = sizes := ⟨_, rfl⟩
  obtain ⟨turnsD, _, hd⟩ := dlfw_succeeds mem wlanFwHdrSize 0 ((secAddr 32).value mem)
    ⟨0, sizes.dmem, true, []⟩
  obtain ⟨turnsI, _, hi⟩ := dlfw_succeeds mem (wlanFwHdrSize + sizes.dmem) 0
    ((secAddr 60).value mem) ⟨0, sizes.imem, true, []⟩
  obtain ⟨turnsE, _, he⟩ := dlfw_succeeds mem (wlanFwHdrSize + sizes.dmem + sizes.imem)
    (0 * 128 % 2 ^ 32) ((secAddr 56).value mem) ⟨0, sizes.emem, true, []⟩
  have hemem : ∃ secs, ((if sizes.emem ≠ 0 then dlfwEmem ⟨plainAdapter, fun _ => goodPlatform,
      fun | .dmem => turnsD | .imem => turnsI | .emem => turnsE⟩ sizes 0 updateFwInfo
        else updateFwInfo).value mem) = some (.success, secs) := by
    rw [value_ite]
    split_ifs
    · exact ⟨_, downloadSec_of_success he rfl⟩
    · exact ⟨_, rfl⟩
  obtain ⟨secs, hsecs⟩ := hemem
  refine ⟨⟨plainAdapter, fun _ => goodPlatform,
    fun | .dmem => turnsD | .imem => turnsI | .emem => turnsE⟩,
    ⟨wlanFwHdrSize, sizes.dmem⟩ :: ⟨wlanFwHdrSize + sizes.dmem, sizes.imem⟩ :: secs, ?_⟩
  rw [startDlfw, value_bind, hsizes, if_neg Bool.false_ne_true, value_bind]
  refine downloadSec_of_success hd ?_
  rw [value_bind]
  exact downloadSec_of_success hi hsecs

theorem ParsedInside.total_eq {mem : ℕ → Byte} {size : ℕ} (h : ParsedInside mem size) :
    (memSizes.value mem).total = size := by
  obtain ⟨z, secs, hrun⟩ := startDlfw_succeeds mem
  have hlayout := congrArg List.length (h.layout z 0 secs hrun)
  rwa [startDlfw_secs hrun, MemSizes.addrs_secs, List.length_range, List.length_range] at hlayout

/-- An image that the check accepts is taken apart as it should be exactly when the sizes in its
header do not wrap. -/
theorem startDlfw_parsed_iff {mem : ℕ → Byte} {size : ℕ}
    (hacc : (chkFwSize size).value mem = .success) :
    ParsedInside mem size ↔ (memSizes.value mem).total < 2 ^ 32 := by
  obtain ⟨-, hsize⟩ := chkFwSize_success hacc
  constructor
  · intro h
    rw [h.total_eq, hsize]
    exact Nat.mod_lt _ (by decide)
  · intro hlt
    rw [Nat.mod_eq_of_lt hlt] at hsize
    refine ⟨fun z dlAddr ememOnly => startDlfw_inside z dlAddr ememOnly hsize.ge,
      fun z dlAddr secs hrun => ?_⟩
    rw [startDlfw_secs hrun, MemSizes.addrs_secs, hsize]

/-- An image with 16 bytes of DMEM and 8 of IMEM, and a checksum behind each. -/
def twoSections (i : ℕ) : Byte :=
  if i = 36 then 16 else if i = 48 then 8 else if i < 64 then 0 else BitVec.ofNat 8 i

theorem twoSections_parsed : ParsedInside twoSections 104 :=
  (startDlfw_parsed_iff (by rfl)).mpr (by decide)

/-- A header alone, which gives the DMEM almost all of 32 bits. -/
def wrappedImage (i : ℕ) : Byte :=
  if i = 36 then 0xf0 else if i = 37 ∨ i = 38 ∨ i = 39 then 0xff else 0

theorem wrappedImage_not_parsed :
    (chkFwSize 64).value wrappedImage = .success ∧ ¬ParsedInside wrappedImage 64 := by
  refine ⟨by rfl, fun h => ?_⟩
  have htotal := h.total_eq
  rw [show (memSizes.value wrappedImage).total = 4294967360 by rfl] at htotal
  omega

end Rtl8821cu.HalmacFwImage
