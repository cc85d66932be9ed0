import Rtl8821cu.Ies
import Rtl8821cu.MacAddr

/-! A scanned network without a name takes the name from another frame (`core/rtw_wlan_util.c`). -/
namespace Rtl8821cu.AbsorbSsid
open Store Elements Ies

def maxIeSz : ℕ := 768

def ssidIe : BitVec 8 := 0

/-- The first `SsidLength` bytes of `NDIS_802_11_SSID`. -/
structure Ssid where
  bytes : List (BitVec 8)
  length_le : bytes.length ≤ 32

theorem Ssid.nil_length_le : ([] : List (BitVec 8)).length ≤ 32 := by decide

/-- What is used of `WLAN_BSSID_EX`; `ies` are the cells from `IEs` on. -/
structure BssidEx where
  macAddress : Mac
  bssType : BitVec 8
  ssid : Ssid
  ieLength : ℕ
  ies : ℕ → BitVec 8

/-- The subtypes of frames that are told apart. -/
inductive FrameSubtype
  | beacon
  | probersp
  | probereq
  | other
  deriving DecidableEq

def FrameSubtype.ieOffset : FrameSubtype → ℕ
  | .beacon | .probersp | .other => 12
  | .probereq => 0

def FrameSubtype.bssType : FrameSubtype → BitVec 8
  | .other => 0
  | .probereq => 1
  | .beacon => 2
  | .probersp => 3

def isAllNull (c : List (BitVec 8)) : Bool := c.all (· == 0)

def BssidEx.hiddenSsidAp (snetwork : BssidEx) : Bool :=
  snetwork.ssid.bytes.length == 0 || isAllNull snetwork.ssid.bytes

/-- `_rtw_find_network`: the place of the record. -/
def rtwFindNetwork (scannedQueue : List BssidEx) (addr : Mac) : Option ℕ :=
  if addr = Mac.zero then none else scannedQueue.findIdx? (·.macAddress == addr)

/-- The update of a record whose SSID element is at `p`. A copy of more than `backupIE` holds, as
that of a negative length is, is a memory fault. -/
def BssidEx.absorb (snetwork : BssidEx) (ssid : Ssid) (p ssidLenOri : ℕ) : Option BssidEx :=
  let nextIe := p + 2 + ssidLenOri
  let remainLen := snetwork.ieLength - nextIe
  if snetwork.ieLength < nextIe ∨ maxIeSz < remainLen then none
  else
    let backupIE := load snetwork.ies nextIe remainLen
    let ies := Function.update snetwork.ies (p + 1) (BitVec.ofNat 8 ssid.bytes.length)
    let ies := store ies (p + 2) ssid.bytes
    let ies := store ies (p + 2 + ssid.bytes.length) backupIE
    some { snetwork with
      ssid := ssid, ies := ies, ieLength := snetwork.ieLength + ssid.bytes.length }

/-- `rtw_absorb_ssid_ifneed`: the queue and the type of the report. -/
def rtwAbsorbSsidIfneed (scannedQueue : List BssidEx) (bssid : BssidEx) (mac : Mac)
    (subtype : FrameSubtype) : Option (List BssidEx × BssidEx) :=
  let ieOffset := subtype.ieOffset
  let bssid := { bssid with bssType := subtype.bssType }
  match rtwFindNetwork scannedQueue mac with
  | none => some (scannedQueue, bssid)
  | some k =>
    match scannedQueue[k]? with
    | none => some (scannedQueue, bssid)
    | some snetwork =>
      if snetwork.hiddenSsidAp && !bssid.hiddenSsidAp then
        match rtwGetIe snetwork.ies ieOffset ssidIe (snetwork.ieLength - ieOffset) with
        | none => some (scannedQueue, bssid)
        | some (p, ssidLenOri) =>
          (snetwork.absorb bssid.ssid p ssidLenOri).map fun r => (scannedQueue.set k r, bssid)
      else some (scannedQueue, bssid)

/-- A beacon's IE area: twelve fixed bytes and elements, the first SSID element among them. -/
structure IeArea where
  fixed : List (BitVec 8)
  front : List Element
  ssid : List (BitVec 8)
  behind : List Element
  length_fixed : fixed.length = 12
  front_ne : ∀ e ∈ front, e.id ≠ ssidIe
  length_le : ssid.length ≤ 255

namespace IeArea

def elements (A : IeArea) : List Element :=
  A.front ++ ⟨ssidIe, A.ssid, A.length_le⟩ :: A.behind

def bytes (A : IeArea) : List (BitVec 8) := A.fixed ++ encode A.elements

/-- Where the SSID element is. -/
def ssidPos (A : IeArea) : ℕ := 12 + (encode A.front).length

/-- The same area with another SSID. -/
def withSsid (A : IeArea) (s : Ssid) : IeArea :=
  { A with ssid := s.bytes, length_le := s.length_le.trans (by decide) }

end IeArea

/-- A record has an IE area, inside of `IEs`. -/
structure BssidEx.Has (r : BssidEx) (A : IeArea) : Prop where
  length : r.ieLength = A.bytes.length
  holds : HoldsAt r.ies 0 A.bytes
  length_le : r.ieLength ≤ maxIeSz

/-- The name is taken over: the elements are the same but for the SSID, `IELength` is their length,
and neither what is behind `IEs` nor another record is touched. -/
structure Absorbed (bssid : BssidEx) (scannedQueue queue : List BssidEx) (k : ℕ) (r : BssidEx)
    (A : IeArea) : Prop where
  others : ∀ j, j ≠ k → queue[j]? = scannedQueue[j]?
  record : ∃ r', queue[k]? = some r' ∧ r'.macAddress = r.macAddress ∧ r'.bssType = r.bssType ∧
    r'.ssid = bssid.ssid ∧ r'.Has (A.withSsid bssid.ssid) ∧ ∀ i, maxIeSz ≤ i → r'.ies i = r.ies i

/-- A record of the queue without a name, a report with one. -/
def needed (r bssid : BssidEx) : Prop := r.hiddenSsidAp = true ∧ bssid.hiddenSsidAp = false

/-- The name is taken over if it is needed, and else nothing changes. -/
def Right (scannedQueue : List BssidEx) (bssid : BssidEx) (mac : Mac) (subtype : FrameSubtype)
    (k : ℕ) (r : BssidEx) (A : IeArea) : Prop :=
  ∃ queue, rtwAbsorbSsidIfneed scannedQueue bssid mac subtype =
      some (queue, { bssid with bssType := subtype.bssType }) ∧
    (needed r bssid → Absorbed bssid scannedQueue queue k r A) ∧
    (¬needed r bssid → queue = scannedQueue)

section Area

variable {m : ℕ → BitVec 8} {A : IeArea} {s : Ssid}

theorem bytes_eq (A : IeArea) : A.bytes = (A.fixed ++ encode A.front ++ [ssidIe]) ++
    (BitVec.ofNat 8 A.ssid.length :: (A.ssid ++ encode A.behind)) := by
  simp [IeArea.bytes, IeArea.elements, encode_append, encode_cons, Element.bytes]

theorem length_front (A : IeArea) :
    (A.fixed ++ encode A.front ++ [ssidIe]).length = A.ssidPos + 1 := by
  simp [IeArea.ssidPos, A.length_fixed, Nat.add_assoc]

theorem length_bytes_eq (A : IeArea) :
    A.bytes.length = A.ssidPos + 2 + A.ssid.length + (encode A.behind).length := by
  rw [bytes_eq, List.length_append, length_front, List.length_cons, List.length_append]
  omega

/-- The parts of an area. -/
theorem holdsAt_bytes_iff : HoldsAt m 0 A.bytes ↔
    HoldsAt m 0 (A.fixed ++ encode A.front ++ [ssidIe]) ∧
      m (A.ssidPos + 1) = BitVec.ofNat 8 A.ssid.length ∧ HoldsAt m (A.ssidPos + 2) A.ssid ∧
        HoldsAt m (A.ssidPos + 2 + A.ssid.length) (encode A.behind) := by
  rw [bytes_eq, holdsAt_append (l := A.fixed ++ encode A.front ++ [ssidIe]), length_front,
    holdsAt_cons, holdsAt_append (l := A.ssid), Nat.zero_add]

/-- In an area `rtw_get_ie` finds the SSID element. -/
theorem rtwGetIe_area {r : BssidEx} (h : r.Has A) :
    rtwGetIe r.ies 12 ssidIe (r.ieLength - 12) = some (A.ssidPos, A.ssid.length) := by
  have hlen := length_bytes_eq A
  have hholds := h.holds
  rw [IeArea.bytes, holdsAt_append, A.length_fixed] at hholds
  refine rtwGetIe_of_holdsAt hholds.2 A.front_ne rfl ?_
  rw [h.length, hlen, IeArea.ssidPos]
  omega

/-- The update puts the new name in place of the old one and adds its length to `IELength`. -/
theorem absorb_holds {r : BssidEx} (h : r.Has A) :
    ∃ r', r.absorb s A.ssidPos A.ssid.length = some r' ∧ r'.macAddress = r.macAddress ∧
      r'.bssType = r.bssType ∧ r'.ssid = s ∧ r'.ieLength = r.ieLength + s.bytes.length ∧
      HoldsAt r'.ies 0 (A.withSsid s).bytes ∧
      ∀ i, (A.withSsid s).bytes.length ≤ i → r'.ies i = r.ies i := by
  have hlen := h.length.trans (length_bytes_eq A)
  have hmax := h.length_le
  obtain ⟨hfront, -, -, hbehind⟩ := holdsAt_bytes_iff.mp h.holds
  have hbackup : load r.ies (A.ssidPos + 2 + A.ssid.length)
      (r.ieLength - (A.ssidPos + 2 + A.ssid.length)) = encode A.behind := by
    rw [hlen, Nat.add_sub_cancel_left]
    exact load_of_holdsAt hbehind
  have hroom : ¬(r.ieLength < A.ssidPos + 2 + A.ssid.length ∨
      maxIeSz < r.ieLength - (A.ssidPos + 2 + A.ssid.length)) := by omega
  have heq : r.absorb s A.ssidPos A.ssid.length = some { r with
      ssid := s
      ies := store (store (Function.update r.ies (A.ssidPos + 1)
        (BitVec.ofNat 8 s.bytes.length)) (A.ssidPos + 2) s.bytes)
        (A.ssidPos + 2 + s.bytes.length) (encode A.behind)
      ieLength := r.ieLength + s.bytes.length } := by
    rw [BssidEx.absorb, if_neg hroom, hbackup]
  refine ⟨_, heq, rfl, rfl, rfl, rfl, ?_, fun i hi => ?_⟩
  · dsimp only
    refine holdsAt_bytes_iff.mpr ⟨?_, ?_, ?_, holdsAt_store _ _ _⟩
    · refine hfront.congr fun i _ hi => ?_
      rw [length_front, Nat.zero_add] at hi
      rw [store_of_lt _ _ (by omega), store_of_lt _ _ (by omega),
        Function.update_of_ne (by omega)]
    · change store _ _ _ (A.ssidPos + 1) = _
      rw [store_of_lt _ _ (by omega), store_of_lt _ _ (by omega), Function.update_self]
      rfl
    · exact (holdsAt_store _ _ _).store_behind (le_refl _) _
  · dsimp only
    rw [length_bytes_eq] at hi
    have hi' : A.ssidPos + 2 + s.bytes.length + (encode A.behind).length ≤ i := hi
    rw [store_of_ge _ _ (by omega), store_of_ge _ _ (by omega),
      Function.update_of_ne (by omega)]

theorem length_withSsid (A : IeArea) (s : Ssid) :
    (A.withSsid s).bytes.length + A.ssid.length = A.bytes.length + s.bytes.length := by
  rw [length_bytes_eq, length_bytes_eq]
  simp only [IeArea.withSsid, IeArea.ssidPos]
  omega

end Area

section Queue

variable {scannedQueue : List BssidEx} {bssid r : BssidEx} {mac : Mac} {subtype : FrameSubtype}
  {k : ℕ} {A : IeArea}

theorem ifneed_of_not_needed (hfind : rtwFindNetwork scannedQueue mac = some k)
    (hget : scannedQueue[k]? = some r) (h : ¬needed r bssid) :
    rtwAbsorbSsidIfneed scannedQueue bssid mac subtype =
      some (scannedQueue, { bssid with bssType := subtype.bssType }) := by
  have hif : ¬(r.hiddenSsidAp && !bssid.hiddenSsidAp) = true := by
    intro hb
    exact h (by simpa [needed] using hb)
  rw [rtwAbsorbSsidIfneed, hfind]
  dsimp only
  rw [hget]
  exact if_neg hif

theorem ifneed_of_needed (subtype : FrameSubtype)
    (hfind : rtwFindNetwork scannedQueue mac = some k)
    (hget : scannedQueue[k]? = some r) (h : needed r bssid) :
    rtwAbsorbSsidIfneed scannedQueue bssid mac subtype =
      match rtwGetIe r.ies subtype.ieOffset ssidIe (r.ieLength - subtype.ieOffset) with
      | none => some (scannedQueue, { bssid with bssType := subtype.bssType })
      | some (p, ssidLenOri) => (r.absorb bssid.ssid p ssidLenOri).map fun r =>
          (scannedQueue.set k r, { bssid with bssType := subtype.bssType }) := by
  have hif : (r.hiddenSsidAp && !bssid.hiddenSsidAp) = true := by
    simpa [needed] using h
  rw [rtwAbsorbSsidIfneed, hfind]
  dsimp only
  rw [hget]
  exact if_pos hif

/-- An element found in the right place is updated as it should be exactly if it was empty and there
is room. -/
theorem absorbed_iff (subtype : FrameSubtype) (hget : scannedQueue[k]? = some r)
    (hA : r.Has A) :
    (∃ queue, ((r.absorb bssid.ssid A.ssidPos A.ssid.length).map fun r =>
        (scannedQueue.set k r, { bssid with bssType := subtype.bssType })) =
          some (queue, { bssid with bssType := subtype.bssType }) ∧
        Absorbed bssid scannedQueue queue k r A) ↔
      A.ssid = [] ∧ A.bytes.length + bssid.ssid.bytes.length ≤ maxIeSz := by
  obtain ⟨r', heq, hmac, htype, hssid, hlen, hholds, hrest⟩ := absorb_holds (s := bssid.ssid) hA
  have hk : k < scannedQueue.length := (List.getElem?_eq_some_iff.mp hget).1
  have hset : (scannedQueue.set k r')[k]? = some r' := by simp [hk]
  have hwith := length_withSsid A bssid.ssid
  rw [hA.length] at hlen
  constructor
  · rintro ⟨queue, hq, habs⟩
    rw [heq, Option.map_some, Option.some_inj, Prod.mk.injEq] at hq
    obtain ⟨rfl, -⟩ := hq
    obtain ⟨r'', hr'', -, -, -, hhas, -⟩ := habs.record
    obtain rfl := Option.some.inj (hset.symm.trans hr'')
    have hwhole := hhas.length
    have hmax := hhas.length_le
    exact ⟨List.eq_nil_of_length_eq_zero (by omega), by omega⟩
  · rintro ⟨hnil, hmax⟩
    rw [hnil, List.length_nil, Nat.add_zero] at hwith
    have hhas : r'.Has (A.withSsid bssid.ssid) := ⟨hlen.trans hwith.symm, hholds, by omega⟩
    refine ⟨scannedQueue.set k r', by rw [heq, Option.map_some], fun j hj => ?_, ?_⟩
    · exact List.getElem?_set_ne hj.symm
    · exact ⟨r', hset, hmac, htype, hssid, hhas, fun i hi => hrest i (by omega)⟩

/-- Which reports are taken over as they should be: those for a record whose SSID element is empty
and which has room for the name. -/
theorem right_iff (hfind : rtwFindNetwork scannedQueue mac = some k)
    (hget : scannedQueue[k]? = some r) (hA : r.Has A) (hsub : subtype ≠ .probereq) :
    Right scannedQueue bssid mac subtype k r A ↔
      (needed r bssid → A.ssid = [] ∧ A.bytes.length + bssid.ssid.bytes.length ≤ maxIeSz) := by
  have hoffset : subtype.ieOffset = 12 := by
    cases subtype with
    | probereq => exact absurd rfl hsub
    | _ => rfl
  by_cases h : needed r bssid
  · have heq := ifneed_of_needed subtype hfind hget h
    rw [hoffset, rtwGetIe_area hA] at heq
    rw [Right, heq, ← absorbed_iff subtype hget hA]
    constructor
    · rintro ⟨queue, hq, habs, -⟩ -
      exact ⟨queue, hq, habs h⟩
    · intro hex
      obtain ⟨queue, hq, habs⟩ := hex h
      exact ⟨queue, hq, fun _ => habs, fun hn => absurd h hn⟩
  · refine ⟨fun _ hn => absurd hn h, fun _ => ?_⟩
    exact ⟨scannedQueue, ifneed_of_not_needed hfind hget h, fun hn => absurd hn h, fun _ => rfl⟩

/-- `rtw_absorb_ssid_ifneed` keeps a well-formed element list, with the new name in it, exactly if
the SSID element was empty and there is room for the name. For a probe request, which makes it read
the fixed bytes as elements, it does so if it comes to that element, or to none. -/
theorem absorb_ssid_iff (scannedQueue : List BssidEx) (bssid : BssidEx) (mac : Mac) (k : ℕ)
    (r : BssidEx) (A : IeArea) (hfind : rtwFindNetwork scannedQueue mac = some k)
    (hget : scannedQueue[k]? = some r) (hA : r.Has A) :
    (∀ subtype, subtype ≠ .probereq → (Right scannedQueue bssid mac subtype k r A ↔
      (needed r bssid →
        A.ssid = [] ∧ A.bytes.length + bssid.ssid.bytes.length ≤ maxIeSz))) ∧
    ((needed r bssid → ∀ p ssidLenOri,
        rtwGetIe r.ies 0 ssidIe r.ieLength = some (p, ssidLenOri) → p = A.ssidPos ∧
          A.ssid = [] ∧ A.bytes.length + bssid.ssid.bytes.length ≤ maxIeSz) →
      ∃ queue, rtwAbsorbSsidIfneed scannedQueue bssid mac .probereq =
          some (queue, { bssid with bssType := FrameSubtype.probereq.bssType }) ∧
        (queue = scannedQueue ∨ Absorbed bssid scannedQueue queue k r A)) := by
  refine ⟨fun subtype hsub => right_iff hfind hget hA hsub, fun hcond => ?_⟩
  by_cases h : needed r bssid
  · have heq := ifneed_of_needed .probereq hfind hget h
    rw [FrameSubtype.ieOffset, Nat.sub_zero] at heq
    cases hie : rtwGetIe r.ies 0 ssidIe r.ieLength with
    | none =>
      rw [hie] at heq
      exact ⟨scannedQueue, heq, Or.inl rfl⟩
    | some found =>
      obtain ⟨p, ssidLenOri⟩ := found
      obtain ⟨rfl, hroom⟩ := hcond h p ssidLenOri hie
      have hlen : ssidLenOri = A.ssid.length := by
        have hbyte := (holdsAt_bytes_iff.mp hA.holds).2.1
        have hle := A.length_le
        rw [(rtwGetIe_some hie).2, hbyte, BitVec.toNat_ofNat]
        omega
      rw [hie, hlen] at heq
      obtain ⟨queue, hq, habs⟩ := (absorbed_iff .probereq hget hA).mpr hroom
      exact ⟨queue, heq.trans hq, Or.inr habs⟩
  · exact ⟨scannedQueue, ifneed_of_not_needed hfind hget h, Or.inl rfl⟩

end Queue

/-- A memory with an area at its front. -/
def IeArea.memory (A : IeArea) (i : ℕ) : BitVec 8 := A.bytes.getD i 0

theorem IeArea.holdsAt_memory (A : IeArea) : HoldsAt A.memory 0 A.bytes := by
  intro i x hx
  rw [Nat.zero_add, IeArea.memory, List.getD_eq_getElem?_getD, Option.mem_def.mp hx]
  rfl

/-- An area with nothing but a SSID element of `n` zeros. -/
def hiddenArea (n : ℕ) (h : n ≤ 255) : IeArea :=
  ⟨List.replicate 12 0, [], List.replicate n 0, [], rfl, nofun, by rwa [List.length_replicate]⟩

def apMac : Mac := #v[2, 0, 0, 0, 0, 1]

/-- The record of a station that hides its name behind `n` zeros. -/
def hiddenAp (n : ℕ) (h : n ≤ 255) : BssidEx where
  macAddress := apMac
  bssType := 2
  ssid := ⟨[], Ssid.nil_length_le⟩
  ieLength := (hiddenArea n h).bytes.length
  ies := (hiddenArea n h).memory

/-- A probe response of that station. -/
def namedAp : BssidEx where
  macAddress := apMac
  bssType := 3
  ssid := ⟨[65], by decide⟩
  ieLength := 0
  ies _ := 0

/-- With an empty SSID element the name is taken over. -/
theorem absorb_ssid_empty :
    Right [hiddenAp 0 (by decide)] namedAp apMac .probersp 0 (hiddenAp 0 (by decide))
      (hiddenArea 0 (by decide)) :=
  ((absorb_ssid_iff [hiddenAp 0 (by decide)] namedAp apMac 0 (hiddenAp 0 (by decide))
    (hiddenArea 0 (by decide)) rfl rfl ⟨rfl, IeArea.holdsAt_memory _, by decide⟩).1
    .probersp (by decide)).mpr fun _ => ⟨rfl, by decide⟩

/-- With a SSID element of zeros `IELength` counts the zeros as well as the name. -/
theorem absorb_ssid_zeros : ¬∀ scannedQueue bssid mac subtype k r A,
    rtwFindNetwork scannedQueue mac = some k → scannedQueue[k]? = some r → r.Has A →
      subtype ≠ .probereq → Right scannedQueue bssid mac subtype k r A := by
  intro h
  have hright := h [hiddenAp 1 (by decide)] namedAp apMac .probersp 0 (hiddenAp 1 (by decide))
    (hiddenArea 1 (by decide)) rfl rfl ⟨rfl, IeArea.holdsAt_memory _, by decide⟩ (by decide)
  have hnil := ((right_iff rfl rfl ⟨rfl, IeArea.holdsAt_memory _, by decide⟩ (by decide)).mp
    hright ⟨rfl, rfl⟩).1
  cases hnil

end Rtl8821cu.AbsorbSsid
