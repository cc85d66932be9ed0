import Rtl8821cu.AesSiv
import Rtl8821cu.Ies

/-! The mesh peering frames that go out (`rtw_mpm_tx_ies_sync_bss` of `core/mesh/rtw_mesh.c`): the
protected element is opened, the elements are those of the BSS, and it is sealed again. -/
namespace Rtl8821cu.MeshAmpe
open Aes Siv
open Ies (rtwSetIe)

/-- `WLAN_EID_MESH_CONFIG`. -/
def eidMeshConfig : Byte := 113

/-- `WLAN_EID_MPM`. -/
def eidMpm : Byte := 117

/-- `WLAN_EID_AMPE`. -/
def eidAmpe : Byte := 139

/-- `WLAN_EID_MIC`. -/
def eidMic : Byte := 140

/-- `sizeof(struct rtw_ieee80211_hdr_3addr)`. -/
def hdrSize : ℕ := 24

/-- The device, the peer and the key between them. -/
structure Plink where
  own : List Byte
  addr : List Byte
  aek : List Byte

/-- The frame body up to the MIC element. -/
def bodyTo (frame : List Byte) (mic : ℕ) : List Byte := (frame.take mic).drop hdrSize

/-- The elements of a list that are complete, up to one that is not. -/
def tlvs : List Byte → List (Byte × List Byte)
  | id :: elen :: rest =>
    if elen.toNat > rest.length then []
    else (id, rest.take elen.toNat) :: tlvs (rest.drop elen.toNat)
  | [_] => []
  | [] => []
termination_by l => l.length
decreasing_by
  simp only [List.length_drop, List.length_cons]
  omega

/-- The elements that the frame has of its own. -/
def skipped (id : Byte) : Bool := id == 0 || id == 3 || id == 5

/-- `rtw_mpm_ampe_dec`, for the MIC element at `mic`. -/
def rtwMpmAmpeDec (p : Plink) (frame : List Byte) (mic : ℕ) : Option (List Byte) :=
  let ivCrypt := frame.drop (mic + 2)
  (aesSivDecrypt (p.aek.take 32) ivCrypt [p.own, p.addr, bodyTo frame mic]).bind fun ampe =>
    if ampe.getD 0 0 ≠ eidAmpe then none
    else if 16 + 2 + (ampe.getD 1 0).toNat > ivCrypt.length then none
    else some ampe

/-- The bytes of the element in front of a buffer. -/
def ampeIe (ampe : List Byte) : List Byte := ampe.take ((ampe.getD 1 0).toNat + 2)

/-- `rtw_mpm_ampe_enc`: what is stored behind the head of the MIC element, which is where `front`
ends. -/
def rtwMpmAmpeEnc (p : Plink) (inverse : Bool) (front ampe : List Byte) : Option (List Byte) :=
  let addrs := if inverse then [p.addr, p.own] else [p.own, p.addr]
  aesSivEncrypt (p.aek.take 32) (ampeIe ampe) (addrs ++ [bodyTo front front.length])

/-- The elements of the new frame. -/
def syncIes (bss : List Byte) (mpm : List Byte) : List Byte :=
  (tlvs bss).flatMap fun e =>
    if skipped e.1 then []
    else rtwSetIe e.1 e.2 ++ if e.1 = eidMeshConfig then rtwSetIe eidMpm mpm else []

/-- The length that is counted for them. -/
def syncIesLen (bss : List Byte) : ℕ :=
  ((tlvs bss).map fun e => if skipped e.1 then 0 else 2 + e.2.length).sum

/-- The new frame: what is written of it, and the length that it is sent with. -/
structure NewFrame where
  written : List Byte
  len : ℕ
  deriving DecidableEq

/-- `rtw_mpm_tx_ies_sync_bss`, with the body of the MPM element and the place of the MIC element. -/
def rtwMpmTxIesSyncBss (p : Plink) (bss frame : List Byte) (tlvIesOffset : ℕ) (mpm : List Byte)
    (mic : Option ℕ) : Option NewFrame :=
  let front := frame.take (hdrSize + tlvIesOffset) ++ syncIes bss mpm
  let len := hdrSize + tlvIesOffset + syncIesLen bss + (mpm.length + 2)
  match mic with
  | none => some ⟨front, len⟩
  | some mic =>
    (rtwMpmAmpeDec p frame mic).bind fun ampe =>
      (rtwMpmAmpeEnc p false front ampe).map fun c =>
        ⟨front ++ ([eidMic, 16] ++ c), len + (16 + 2 + ampe.length)⟩

/-- The number of Mesh Configuration elements of the BSS. -/
def configs (bss : List Byte) : ℕ := (tlvs bss).countP fun e => e.1 = eidMeshConfig

section Sync

variable {p : Plink} {bss frame mpm ampe : List Byte} {tlvIesOffset : ℕ} {nf : NewFrame}

theorem length_aesSivEncrypt {key pw c : List Byte} {elems : List (List Byte)}
    (h : aesSivEncrypt key pw elems = some c) : c.length = 16 + pw.length := by
  rw [aesSivEncrypt] at h
  split at h
  · cases h
  · simp only [Option.bind_eq_some_iff, Option.map_eq_some_iff, aesCtrEncrypt] at h
    obtain ⟨v, -, crypt, ⟨aes, -, rfl⟩, rfl⟩ := h
    rw [List.length_append, length_toList, length_ctrBlocks]

/-- The Mesh Configuration elements are those that the count of the length does not see. -/
theorem length_syncIes (bss mpm : List Byte) :
    (syncIes bss mpm).length = syncIesLen bss + configs bss * (mpm.length + 2) := by
  rw [syncIes, syncIesLen, configs]
  induction tlvs bss with
  | nil => simp
  | cons e l ih =>
    rw [List.flatMap_cons, List.length_append, ih, List.map_cons, List.sum_cons, List.countP_cons]
    by_cases hcfg : e.1 = eidMeshConfig
    · have hskip : skipped eidMeshConfig = false := by decide
      simp only [hcfg, hskip, rtwSetIe, Bool.false_eq_true, if_false, if_true,
        List.length_append, List.length_cons, decide_true]
      ring
    · cases hskip : skipped e.1 with
      | true => simp [hcfg]
      | false =>
        simp [hcfg, rtwSetIe]
        ring

/-- What the protected element is opened to. -/
structure Opened (p : Plink) (frame : List Byte) (mic : ℕ) (ampe : List Byte) : Prop where
  opened : aesSivDecrypt (p.aek.take 32) (frame.drop (mic + 2)) [p.own, p.addr, bodyTo frame mic] =
    some ampe
  eid : ampe.getD 0 0 = eidAmpe
  length : 16 + 2 + (ampe.getD 1 0).toNat ≤ (frame.drop (mic + 2)).length

theorem rtwMpmAmpeDec_eq_some_iff {mic : ℕ} {l : List Byte} :
    rtwMpmAmpeDec p frame mic = some l ↔ Opened p frame mic l := by
  simp only [rtwMpmAmpeDec, Option.bind_eq_some_iff]
  constructor
  · rintro ⟨ampe, hopen, h⟩
    split_ifs at h with heid hlen
    obtain rfl := Option.some.inj h
    exact ⟨hopen, not_not.mp heid, not_lt.mp hlen⟩
  · rintro ⟨hopen, heid, hlen⟩
    exact ⟨l, hopen, by rw [if_neg (not_not.mpr heid), if_neg (not_lt.mpr hlen)]⟩

/-- The protected element fits into what was decrypted. -/
theorem Opened.le_length {mic : ℕ} (h : Opened p frame mic ampe) :
    (ampe.getD 1 0).toNat + 2 ≤ ampe.length := by
  have hlen := length_aesSivEncrypt (aesSivDecrypt_eq_some_iff.mp h.opened)
  have := h.length
  omega

/-- The protected element of the new frame is opened to that of the old one. -/
theorem rtwMpmAmpeDec_sync {mic : ℕ} {c : List Byte} (hopen : Opened p frame mic ampe)
    {front : List Byte} (hseal : rtwMpmAmpeEnc p false front ampe = some c) :
    rtwMpmAmpeDec p (front ++ ([eidMic, 16] ++ c)) front.length = some (ampeIe ampe) := by
  have hle := hopen.le_length
  have hdrop : (front ++ ([eidMic, 16] ++ c)).drop (front.length + 2) = c := by
    rw [← List.append_assoc]
    exact List.drop_left' (by simp)
  have hbody : bodyTo (front ++ ([eidMic, 16] ++ c)) front.length =
      bodyTo front front.length := by
    rw [bodyTo, bodyTo, List.take_left, List.take_length]
  have hget : ∀ i < 2, (ampeIe ampe).getD i 0 = ampe.getD i 0 := fun i hi => by
    rw [ampeIe, List.getD_eq_getElem?_getD, List.getElem?_take_of_lt (by omega),
      List.getD_eq_getElem?_getD]
  have hlen := length_aesSivEncrypt hseal
  rw [ampeIe, List.length_take, min_eq_left hle] at hlen
  refine rtwMpmAmpeDec_eq_some_iff.mpr ⟨?_, ?_, ?_⟩
  · rw [hdrop, hbody]
    exact aesSivDecrypt_eq_some_iff.mpr hseal
  · rw [hget 0 (by decide)]
    exact hopen.eid
  · rw [hdrop, hget 1 (by decide)]
    omega

/-- A frame that goes out with the elements of the BSS: its protected element is opened to the one
of the frame that came in, and the whole of the frame is written, and not more, exactly if the
Mesh Configuration elements and what was opened come out even. -/
theorem rtwMpmTxIesSyncBss_spec {mic : ℕ}
    (hhead : hdrSize + tlvIesOffset ≤ frame.length)
    (h : rtwMpmTxIesSyncBss p bss frame tlvIesOffset mpm (some mic) = some nf) :
    ∃ ampe pos, rtwMpmAmpeDec p frame mic = some ampe ∧
      nf.written.take pos = frame.take (hdrSize + tlvIesOffset) ++ syncIes bss mpm ∧
      rtwMpmAmpeDec p nf.written pos = some (ampeIe ampe) ∧
      (nf.written.length = nf.len ↔ configs bss * (mpm.length + 2) + (ampeIe ampe).length =
        (mpm.length + 2) + ampe.length) := by
  simp only [rtwMpmTxIesSyncBss, Option.bind_eq_some_iff, Option.map_eq_some_iff] at h
  obtain ⟨ampe, hdec, c, hseal, rfl⟩ := h
  have hopen := rtwMpmAmpeDec_eq_some_iff.mp hdec
  refine ⟨ampe, _, hdec, List.take_left, rtwMpmAmpeDec_sync hopen hseal, ?_⟩
  have hlen := length_aesSivEncrypt hseal
  simp only [List.length_append, List.length_cons, List.length_nil, List.length_take,
    length_syncIes, hlen]
  omega

end Sync

/-- A frame with an empty protected element. -/
def zeroPlink : Plink := ⟨List.replicate 6 0, List.replicate 6 1, List.replicate 32 0⟩

def zeroFrame : List Byte := List.replicate 28 0 ++ ([eidMic, 16] ++
  [109, 126, 35, 9, 54, 46, 128, 40, 252, 3, 57, 149, 155, 244, 198, 27, 3, 187])

def zeroNewFrame : NewFrame where
  written := List.replicate 28 0 ++ ([eidMeshConfig, 0, eidMpm, 0, eidMic, 16] ++
    [44, 218, 18, 11, 96, 231, 182, 196, 18, 141, 227, 246, 121, 103, 123, 131, 59, 144])
  len := 52

theorem rtwMpmTxIesSyncBss_zeroFrame :
    ∃ ampe pos, rtwMpmAmpeDec zeroPlink zeroFrame 28 = some ampe ∧
      zeroNewFrame.written.take pos = zeroFrame.take 28 ++ syncIes [eidMeshConfig, 0] [] ∧
      rtwMpmAmpeDec zeroPlink zeroNewFrame.written pos = some (ampeIe ampe) ∧
      (zeroNewFrame.written.length = zeroNewFrame.len ↔
        configs [eidMeshConfig, 0] * 2 + (ampeIe ampe).length = 2 + ampe.length) :=
  @rtwMpmTxIesSyncBss_spec zeroPlink [eidMeshConfig, 0] zeroFrame [] 4 zeroNewFrame 28 (by decide)
    (by decide +kernel)

end Rtl8821cu.MeshAmpe
