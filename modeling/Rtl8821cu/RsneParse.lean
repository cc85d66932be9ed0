import Rtl8821cu.LibReads
import Rtl8821cu.LibBytes
import Rtl8821cu.LibElements

/-! The RSN element parser (`rtw_rsne_info_parse` in `core/rtw_ieee80211.c`). -/
namespace Rtl8821cu.RsneParse
open Store Reads Bytes Elements

/-- `struct rsne_info`: places of fields, and places of lists with their counts; none for `NULL`. -/
structure RsneInfo where
  gcs : Option ℕ
  pcs : Option (ℕ × ℕ)
  akm : Option (ℕ × ℕ)
  cap : Option ℕ
  pmkid : Option (ℕ × ℕ)
  gmcs : Option ℕ
  err : Bool
  deriving DecidableEq

/-- The return value and what is written. -/
abbrev Parse := Reading (BitVec 8) (Bool × RsneInfo)

def wlanEidRsn : BitVec 8 := 48

def rtwGetLe16 (p : ℕ) : Reading (BitVec 8) ℕ := do
  let l ← cells p 2
  pure (ofLe l)

/-- The label `err`. -/
def fail (info : RsneInfo) : Parse := pure (false, { info with err := true })

/-- No room for the next field: good at the end `e` of the element only. -/
def stopAt (e pos : ℕ) (info : RsneInfo) : Parse :=
  if e != pos then fail info else pure (true, info)

/-- Group Mgmt CS. -/
def parseGmcs (e pos : ℕ) (info : RsneInfo) : Parse :=
  if e < pos + 4 then stopAt e pos info else pure (true, { info with gmcs := some pos })

def parsePmkid (e pos : ℕ) (info : RsneInfo) : Parse :=
  if e < pos + 2 then stopAt e pos info
  else do
    let cnt ← rtwGetLe16 pos
    let pos := pos + 2
    if e < pos + 16 * cnt then fail info
    else parseGmcs e (pos + 16 * cnt) { info with pmkid := some (pos, cnt) }

def parseCap (e pos : ℕ) (info : RsneInfo) : Parse :=
  if e < pos + 2 then stopAt e pos info else parsePmkid e (pos + 2) { info with cap := some pos }

/-- The part that the pairwise suites and the AKM suites share. -/
def parseSuites (set : ℕ × ℕ → RsneInfo → RsneInfo) (next : ℕ → ℕ → RsneInfo → Parse)
    (e pos : ℕ) (info : RsneInfo) : Parse :=
  if e < pos + 2 then stopAt e pos info
  else do
    let cnt ← rtwGetLe16 pos
    let pos := pos + 2
    if e < pos + 4 * cnt then stopAt e pos info
    else next e (pos + 4 * cnt) (set (pos, cnt) info)

def parseAkm : ℕ → ℕ → RsneInfo → Parse :=
  parseSuites (fun l info => { info with akm := some l }) parseCap

/-- Pairwise CS. -/
def parsePcs : ℕ → ℕ → RsneInfo → Parse :=
  parseSuites (fun l info => { info with pcs := some l }) parseAkm

/-- Group CS. -/
def parseGcs (e pos : ℕ) (info : RsneInfo) : Parse :=
  if e < pos + 4 then stopAt e pos info else parsePcs e (pos + 4) { info with gcs := some pos }

/-- `info` behind `_rtw_memset`. -/
def RsneInfo.zero : RsneInfo := ⟨none, none, none, none, none, none, false⟩

def rtwRsneInfoParse (ie ieLen : ℕ) : Parse :=
  if ieLen < 4 then fail .zero
  else do
    let id ← cell ie
    if id ≠ wlanEidRsn then fail .zero
    else do
      let elen ← cell (ie + 1)
      if elen.toNat ≠ ieLen - 2 then fail .zero
      else do
        let ver ← rtwGetLe16 (ie + 2)
        if ver ≠ 1 then fail .zero else parseGcs (ie + ieLen) (ie + 4) .zero

/-- The fields set lie in the `n` bytes from `a` on, the lists with their counts. -/
structure RsneInfo.Within (info : RsneInfo) (a n : ℕ) : Prop where
  gcs : ∀ p ∈ info.gcs, a ≤ p ∧ p + 4 ≤ a + n
  pcs : ∀ l ∈ info.pcs, a ≤ l.1 ∧ l.1 + 4 * l.2 ≤ a + n
  akm : ∀ l ∈ info.akm, a ≤ l.1 ∧ l.1 + 4 * l.2 ≤ a + n
  cap : ∀ p ∈ info.cap, a ≤ p ∧ p + 2 ≤ a + n
  pmkid : ∀ l ∈ info.pmkid, a ≤ l.1 ∧ l.1 + 16 * l.2 ≤ a + n
  gmcs : ∀ p ∈ info.gmcs, a ≤ p ∧ p + 4 ≤ a + n

/-- The parse reads in the `n` bytes from `a` on, and all it sets lies there. -/
structure Safe (mem : ℕ → BitVec 8) (a n : ℕ) (x : Parse) : Prop where
  inside : x.Inside mem a n
  within : (x.value mem).2.Within a n

section Safe

variable {mem : ℕ → BitVec 8} {a n e pos : ℕ} {info : RsneInfo}

theorem Safe.pure {r : Bool × RsneInfo} (h : r.2.Within a n) : Safe mem a n (pure r) :=
  ⟨inside_pure r, h⟩

theorem Safe.fail (h : info.Within a n) : Safe mem a n (fail info) :=
  Safe.pure ⟨h.gcs, h.pcs, h.akm, h.cap, h.pmkid, h.gmcs⟩

theorem Safe.bind {α : Type} {x : Reading (BitVec 8) α} {f : α → Parse} (hx : x.Inside mem a n)
    (hf : Safe mem a n (f (x.value mem))) : Safe mem a n (x >>= f) := by
  refine ⟨inside_bind.mpr ⟨hx, hf.inside⟩, ?_⟩
  rw [value_bind]
  exact hf.within

theorem rtwGetLe16_inside {p : ℕ} (ha : a ≤ p) (hn : p + 2 ≤ a + n) :
    (rtwGetLe16 p).Inside mem a n :=
  inside_bind.mpr ⟨inside_cells.mpr (Or.inr ⟨ha, hn⟩), inside_pure _⟩

theorem stopAt_safe (h : info.Within a n) : Safe mem a n (stopAt e pos info) := by
  rw [stopAt]
  split_ifs
  · exact Safe.fail h
  · exact Safe.pure h

theorem parseGmcs_safe (ha : a ≤ pos) (h : info.Within a n) :
    Safe mem a n (parseGmcs (a + n) pos info) := by
  rw [parseGmcs]
  split_ifs with hroom
  · exact stopAt_safe h
  · refine Safe.pure { h with gmcs := ?_ }
    rintro _ ⟨⟩
    exact ⟨ha, not_lt.mp hroom⟩

theorem parsePmkid_safe (ha : a ≤ pos) (h : info.Within a n) :
    Safe mem a n (parsePmkid (a + n) pos info) := by
  rw [parsePmkid]
  split_ifs with hroom
  · exact stopAt_safe h
  · refine Safe.bind (rtwGetLe16_inside ha (not_lt.mp hroom)) ?_
    dsimp only
    split_ifs with hlist
    · exact Safe.fail h
    · refine parseGmcs_safe (by omega) { h with pmkid := ?_ }
      rintro _ ⟨⟩
      exact ⟨by omega, not_lt.mp hlist⟩

theorem parseCap_safe (ha : a ≤ pos) (h : info.Within a n) :
    Safe mem a n (parseCap (a + n) pos info) := by
  rw [parseCap]
  split_ifs with hroom
  · exact stopAt_safe h
  · refine parsePmkid_safe (by omega) { h with cap := ?_ }
    rintro _ ⟨⟩
    exact ⟨ha, not_lt.mp hroom⟩

theorem parseSuites_safe {set : ℕ × ℕ → RsneInfo → RsneInfo} {next : ℕ → ℕ → RsneInfo → Parse}
    (hset : ∀ l, a ≤ l.1 → l.1 + 4 * l.2 ≤ a + n → (set l info).Within a n)
    (hnext : ∀ {pos info}, a ≤ pos → info.Within a n → Safe mem a n (next (a + n) pos info))
    (ha : a ≤ pos) (h : info.Within a n) :
    Safe mem a n (parseSuites set next (a + n) pos info) := by
  rw [parseSuites]
  split_ifs with hroom
  · exact stopAt_safe h
  · refine Safe.bind (rtwGetLe16_inside ha (not_lt.mp hroom)) ?_
    dsimp only
    split_ifs with hlist
    · exact stopAt_safe h
    · exact hnext (by omega) (hset _ (by dsimp only; omega) (not_lt.mp hlist))

theorem parseAkm_safe (ha : a ≤ pos) (h : info.Within a n) :
    Safe mem a n (parseAkm (a + n) pos info) := by
  refine parseSuites_safe (fun l hl hn => { h with akm := ?_ }) parseCap_safe ha h
  rintro _ ⟨⟩
  exact ⟨hl, hn⟩

theorem parsePcs_safe (ha : a ≤ pos) (h : info.Within a n) :
    Safe mem a n (parsePcs (a + n) pos info) := by
  refine parseSuites_safe (fun l hl hn => { h with pcs := ?_ }) parseAkm_safe ha h
  rintro _ ⟨⟩
  exact ⟨hl, hn⟩

theorem parseGcs_safe (ha : a ≤ pos) (h : info.Within a n) :
    Safe mem a n (parseGcs (a + n) pos info) := by
  rw [parseGcs]
  split_ifs with hroom
  · exact stopAt_safe h
  · refine parsePcs_safe (by omega) { h with gcs := ?_ }
    rintro _ ⟨⟩
    exact ⟨ha, not_lt.mp hroom⟩

theorem within_zero : RsneInfo.zero.Within a n :=
  ⟨nofun, nofun, nofun, nofun, nofun, nofun⟩

/-- Every parse, also one that fails, stays in the element. -/
theorem rtwRsneInfoParse_safe : Safe mem a n (rtwRsneInfoParse a n) := by
  rw [rtwRsneInfoParse]
  split_ifs with hshort
  · exact Safe.fail within_zero
  · refine Safe.bind (inside_cell.mpr (by omega)) ?_
    split_ifs with hid
    · exact Safe.fail within_zero
    · refine Safe.bind (inside_cell.mpr (by omega)) ?_
      split_ifs with hlen
      · exact Safe.fail within_zero
      · refine Safe.bind (rtwGetLe16_inside (by omega) (by omega)) ?_
        split_ifs with hver
        · exact Safe.fail within_zero
        · exact parseGcs_safe (by omega) within_zero

end Safe

/-- What an RSN element tells. -/
structure RsnFields where
  version : BitVec 16
  group : Vector (BitVec 8) 4
  pairwise : List (Vector (BitVec 8) 4)
  akm : List (Vector (BitVec 8) 4)
  cap : Vector (BitVec 8) 2
  pmkids : List (Vector (BitVec 8) 16)
  gmcs : Vector (BitVec 8) 4

/-- The bytes of a list's entries. -/
def entries {k : ℕ} (l : List (Vector (BitVec 8) k)) : List (BitVec 8) := l.flatMap (·.toList)

/-- A list behind its count. -/
def counted {k : ℕ} (l : List (Vector (BitVec 8) k)) : List (BitVec 8) :=
  leBytes 2 l.length ++ entries l

namespace RsnFields

/-- The first `cut` of the optional fields, one behind the other, without those in front. -/
def fromGmcs (r : RsnFields) (cut : ℕ) : List (BitVec 8) :=
  if 6 ≤ cut then r.gmcs.toList else []

def fromPmkid (r : RsnFields) (cut : ℕ) : List (BitVec 8) :=
  if 5 ≤ cut then counted r.pmkids ++ r.fromGmcs cut else []

def fromCap (r : RsnFields) (cut : ℕ) : List (BitVec 8) :=
  if 4 ≤ cut then r.cap.toList ++ r.fromPmkid cut else []

def fromAkm (r : RsnFields) (cut : ℕ) : List (BitVec 8) :=
  if 3 ≤ cut then counted r.akm ++ r.fromCap cut else []

def fromPcs (r : RsnFields) (cut : ℕ) : List (BitVec 8) :=
  if 2 ≤ cut then counted r.pairwise ++ r.fromAkm cut else []

def fromGcs (r : RsnFields) (cut : ℕ) : List (BitVec 8) :=
  if 1 ≤ cut then r.group.toList ++ r.fromPcs cut else []

/-- The body of the element, cut behind `cut` of its optional fields. -/
def body (r : RsnFields) (cut : ℕ) : List (BitVec 8) :=
  leBytes 2 r.version.toNat ++ r.fromGcs cut

end RsnFields

/-- A field is reported, with a value that holds it, if it is there. -/
def Told {α : Type} (there : Prop) (field : Option α) (P : α → Prop) : Prop :=
  (there → ∃ x, field = some x ∧ P x) ∧ (¬there → field = none)

/-- The parse reports the first `cut` of the optional fields, and the others as absent. -/
structure Reports (mem : ℕ → BitVec 8) (info : RsneInfo) (r : RsnFields) (cut : ℕ) : Prop where
  gcs : Told (1 ≤ cut) info.gcs fun p => HoldsAt mem p r.group.toList
  pcs : Told (2 ≤ cut) info.pcs fun l =>
    l.2 = r.pairwise.length ∧ HoldsAt mem l.1 (entries r.pairwise)
  akm : Told (3 ≤ cut) info.akm fun l => l.2 = r.akm.length ∧ HoldsAt mem l.1 (entries r.akm)
  cap : Told (4 ≤ cut) info.cap fun p => HoldsAt mem p r.cap.toList
  pmkid : Told (5 ≤ cut) info.pmkid fun l =>
    l.2 = r.pmkids.length ∧ HoldsAt mem l.1 (entries r.pmkids)
  gmcs : Told (6 ≤ cut) info.gmcs fun p => HoldsAt mem p r.gmcs.toList
  err : info.err = false

section RoundTrip

variable {mem : ℕ → BitVec 8} {r : RsnFields} {info : RsneInfo} {cut pos e : ℕ}

theorem told_some {α : Type} {there : Prop} {x : α} {P : α → Prop} (ht : there) (h : P x) :
    Told there (some x) P :=
  ⟨fun _ => ⟨x, rfl, h⟩, fun hn => absurd ht hn⟩

theorem Told.congr {α : Type} {there there' : Prop} {o : Option α} {P : α → Prop}
    (h : Told there o P) (hiff : there' ↔ there) : Told there' o P :=
  ⟨fun ht => h.1 (hiff.mp ht), fun ht => h.2 fun hc => ht (hiff.mpr hc)⟩

/-- The reports agree when the same fields are there. -/
theorem Reports.congr {cut' : ℕ} (h : Reports mem info r cut)
    (hiff : ∀ k, 1 ≤ k → k ≤ 6 → (k ≤ cut' ↔ k ≤ cut)) : Reports mem info r cut' where
  gcs := h.gcs.congr (hiff 1 (by omega) (by omega))
  pcs := h.pcs.congr (hiff 2 (by omega) (by omega))
  akm := h.akm.congr (hiff 3 (by omega) (by omega))
  cap := h.cap.congr (hiff 4 (by omega) (by omega))
  pmkid := h.pmkid.congr (hiff 5 (by omega) (by omega))
  gmcs := h.gmcs.congr (hiff 6 (by omega) (by omega))
  err := h.err

theorem length_entries {k : ℕ} (l : List (Vector (BitVec 8) k)) :
    (entries l).length = k * l.length := by
  induction l with
  | nil => rfl
  | cons v l ih =>
    rw [entries, List.flatMap_cons, List.length_append, ← entries, ih, Vector.length_toList,
      List.length_cons]
    ring

/-- A count is read back. -/
theorem rtwGetLe16_value {l : List (BitVec 8)} {n : ℕ} (hn : n < 65536)
    (h : HoldsAt mem pos (leBytes 2 n ++ l)) : (rtwGetLe16 pos).value mem = n := by
  have hload := load_of_holdsAt (holdsAt_append.mp h).1
  rw [length_leBytes] at hload
  rw [rtwGetLe16, value_bind, value_cells, hload, value_pure, ofLe_leBytes]
  omega

theorem stopAt_end : (stopAt pos pos info).value mem = (true, info) := by
  rw [stopAt, if_neg (by simp), value_pure]

/-- What a memory shows of a list behind its count, and of what follows it. -/
theorem holdsAt_counted {k : ℕ} {l : List (Vector (BitVec 8) k)} {rest : List (BitVec 8)}
    (hn : l.length < 65536) (h : HoldsAt mem pos (counted l ++ rest)) :
    (rtwGetLe16 pos).value mem = l.length ∧ HoldsAt mem (pos + 2) (entries l) ∧
      HoldsAt mem (pos + 2 + k * l.length) rest := by
  rw [counted, List.append_assoc] at h
  obtain ⟨-, hentries⟩ := holdsAt_append.mp h
  rw [length_leBytes] at hentries
  obtain ⟨hl, hrest⟩ := holdsAt_append.mp hentries
  rw [length_entries] at hrest
  exact ⟨rtwGetLe16_value hn h, hl, hrest⟩

theorem length_counted {k : ℕ} (l : List (Vector (BitVec 8) k)) :
    (counted l).length = 2 + k * l.length := by
  rw [counted, List.length_append, length_leBytes, length_entries]

/-- From a place on, the first `cut` fields are reported: `k` of them already are. -/
def ReportsFrom (mem : ℕ → BitVec 8) (r : RsnFields) (cut k pos : ℕ) (rest : List (BitVec 8))
    (parse : ℕ → ℕ → RsneInfo → Parse) : Prop :=
  ∀ info, k ≤ cut → rest.length ≤ 255 → Reports mem info r k → HoldsAt mem pos rest →
    ((parse (pos + rest.length) pos info).value mem).1 = true ∧
      Reports mem ((parse (pos + rest.length) pos info).value mem).2 r cut

theorem parseGmcs_reports : ReportsFrom mem r cut 5 pos (r.fromGmcs cut) parseGmcs := by
  intro info hcut _ h hh
  rw [RsnFields.fromGmcs] at hh ⊢
  by_cases h6 : 6 ≤ cut
  · rw [if_pos h6] at hh ⊢
    rw [Vector.length_toList, parseGmcs, if_neg (by omega), value_pure]
    have hall : Reports mem { info with gmcs := some pos } r 6 := {
      gcs := h.gcs.congr (by decide)
      pcs := h.pcs.congr (by decide)
      akm := h.akm.congr (by decide)
      cap := h.cap.congr (by decide)
      pmkid := h.pmkid.congr (by decide)
      gmcs := told_some (by decide) hh
      err := h.err }
    exact ⟨rfl, hall.congr fun k _ hk => by omega⟩
  · rw [if_neg h6, List.length_nil, Nat.add_zero, parseGmcs, if_pos (by omega), stopAt_end]
    exact ⟨rfl, h.congr fun k _ hk => by omega⟩

theorem parsePmkid_reports : ReportsFrom mem r cut 4 pos (r.fromPmkid cut) parsePmkid := by
  intro info hcut hshort h hh
  rw [RsnFields.fromPmkid] at hshort hh ⊢
  by_cases h5 : 5 ≤ cut
  · rw [if_pos h5] at hshort hh ⊢
    rw [List.length_append, length_counted] at hshort ⊢
    obtain ⟨hcnt, hlist, hrest⟩ := holdsAt_counted (by omega) hh
    rw [parsePmkid, if_neg (by omega), value_bind, hcnt]
    dsimp only
    rw [if_neg (by omega)]
    have hnext : Reports mem { info with pmkid := some (pos + 2, r.pmkids.length) } r 5 := {
      gcs := h.gcs.congr (by decide)
      pcs := h.pcs.congr (by decide)
      akm := h.akm.congr (by decide)
      cap := h.cap.congr (by decide)
      pmkid := told_some (by decide) ⟨rfl, hlist⟩
      gmcs := h.gmcs.congr (by decide)
      err := h.err }
    have hgmcs := parseGmcs_reports _ h5 (by omega) hnext hrest
    rwa [show pos + 2 + 16 * r.pmkids.length + (r.fromGmcs cut).length =
      pos + (2 + 16 * r.pmkids.length + (r.fromGmcs cut).length) by omega] at hgmcs
  · rw [if_neg h5, List.length_nil, Nat.add_zero, parsePmkid, if_pos (by omega), stopAt_end]
    exact ⟨rfl, h.congr fun k _ hk => by omega⟩

theorem parseCap_reports : ReportsFrom mem r cut 3 pos (r.fromCap cut) parseCap := by
  intro info hcut hshort h hh
  rw [RsnFields.fromCap] at hshort hh ⊢
  by_cases h4 : 4 ≤ cut
  · rw [if_pos h4] at hshort hh ⊢
    rw [List.length_append, Vector.length_toList] at hshort ⊢
    obtain ⟨hcap, hrest⟩ := holdsAt_append.mp hh
    rw [Vector.length_toList] at hrest
    rw [parseCap, if_neg (by omega)]
    have hnext : Reports mem { info with cap := some pos } r 4 := {
      gcs := h.gcs.congr (by decide)
      pcs := h.pcs.congr (by decide)
      akm := h.akm.congr (by decide)
      cap := told_some (by decide) hcap
      pmkid := h.pmkid.congr (by decide)
      gmcs := h.gmcs.congr (by decide)
      err := h.err }
    have hpmkid := parsePmkid_reports _ h4 (by omega) hnext hrest
    rwa [Nat.add_assoc pos] at hpmkid
  · rw [if_neg h4, List.length_nil, Nat.add_zero, parseCap, if_pos (by omega), stopAt_end]
    exact ⟨rfl, h.congr fun k _ hk => by omega⟩

/-- A list of suites behind its count is reported, and the parse goes on behind it. -/
theorem parseSuites_value {set : ℕ × ℕ → RsneInfo → RsneInfo} {next : ℕ → ℕ → RsneInfo → Parse}
    {l : List (Vector (BitVec 8) 4)} {rest : List (BitVec 8)}
    (hshort : (counted l ++ rest).length ≤ 255) (hh : HoldsAt mem pos (counted l ++ rest)) :
    HoldsAt mem (pos + 2) (entries l) ∧ HoldsAt mem (pos + 2 + 4 * l.length) rest ∧
      (parseSuites set next (pos + (counted l ++ rest).length) pos info).value mem =
        (next (pos + 2 + 4 * l.length + rest.length) (pos + 2 + 4 * l.length)
          (set (pos + 2, l.length) info)).value mem := by
  rw [List.length_append, length_counted] at hshort ⊢
  obtain ⟨hcnt, hlist, hrest⟩ := holdsAt_counted (by omega) hh
  refine ⟨hlist, hrest, ?_⟩
  rw [parseSuites, if_neg (by omega), value_bind, hcnt]
  dsimp only
  rw [if_neg (by omega), show pos + (2 + 4 * l.length + rest.length) =
    pos + 2 + 4 * l.length + rest.length by omega]

theorem parseAkm_reports : ReportsFrom mem r cut 2 pos (r.fromAkm cut) parseAkm := by
  intro info hcut hshort h hh
  rw [RsnFields.fromAkm] at hshort hh ⊢
  by_cases h3 : 3 ≤ cut
  · rw [if_pos h3] at hshort hh ⊢
    obtain ⟨hlist, hrest, hvalue⟩ := parseSuites_value hshort hh
    rw [List.length_append] at hshort
    have hnext : Reports mem { info with akm := some (pos + 2, r.akm.length) } r 3 := {
      gcs := h.gcs.congr (by decide)
      pcs := h.pcs.congr (by decide)
      akm := told_some (by decide) ⟨rfl, hlist⟩
      cap := h.cap.congr (by decide)
      pmkid := h.pmkid.congr (by decide)
      gmcs := h.gmcs.congr (by decide)
      err := h.err }
    rw [parseAkm, hvalue]
    exact parseCap_reports _ h3 (by omega) hnext hrest
  · rw [if_neg h3, List.length_nil, Nat.add_zero, parseAkm, parseSuites, if_pos (by omega),
      stopAt_end]
    exact ⟨rfl, h.congr fun k _ hk => by omega⟩

theorem parsePcs_reports : ReportsFrom mem r cut 1 pos (r.fromPcs cut) parsePcs := by
  intro info hcut hshort h hh
  rw [RsnFields.fromPcs] at hshort hh ⊢
  by_cases h2 : 2 ≤ cut
  · rw [if_pos h2] at hshort hh ⊢
    obtain ⟨hlist, hrest, hvalue⟩ := parseSuites_value hshort hh
    rw [List.length_append] at hshort
    have hnext : Reports mem { info with pcs := some (pos + 2, r.pairwise.length) } r 2 := {
      gcs := h.gcs.congr (by decide)
      pcs := told_some (by decide) ⟨rfl, hlist⟩
      akm := h.akm.congr (by decide)
      cap := h.cap.congr (by decide)
      pmkid := h.pmkid.congr (by decide)
      gmcs := h.gmcs.congr (by decide)
      err := h.err }
    rw [parsePcs, hvalue]
    exact parseAkm_reports _ h2 (by omega) hnext hrest
  · rw [if_neg h2, List.length_nil, Nat.add_zero, parsePcs, parseSuites, if_pos (by omega),
      stopAt_end]
    exact ⟨rfl, h.congr fun k _ hk => by omega⟩

theorem parseGcs_reports : ReportsFrom mem r cut 0 pos (r.fromGcs cut) parseGcs := by
  intro info hcut hshort h hh
  rw [RsnFields.fromGcs] at hshort hh ⊢
  by_cases h1 : 1 ≤ cut
  · rw [if_pos h1] at hshort hh ⊢
    rw [List.length_append, Vector.length_toList] at hshort ⊢
    obtain ⟨hgcs, hrest⟩ := holdsAt_append.mp hh
    rw [Vector.length_toList] at hrest
    rw [parseGcs, if_neg (by omega)]
    have hnext : Reports mem { info with gcs := some pos } r 1 := {
      gcs := told_some (by decide) hgcs
      pcs := h.pcs.congr (by decide)
      akm := h.akm.congr (by decide)
      cap := h.cap.congr (by decide)
      pmkid := h.pmkid.congr (by decide)
      gmcs := h.gmcs.congr (by decide)
      err := h.err }
    have hpcs := parsePcs_reports _ h1 (by omega) hnext hrest
    rwa [Nat.add_assoc pos] at hpcs
  · rw [if_neg h1, List.length_nil, Nat.add_zero, parseGcs, if_pos (by omega), stopAt_end]
    exact ⟨rfl, h.congr fun k _ hk => by omega⟩

/-- The `n` bytes from `a` on are an RSN element with the first `cut` of the optional fields. -/
structure RsnElement (mem : ℕ → BitVec 8) (a n : ℕ) (r : RsnFields) (cut : ℕ) : Prop where
  length_le : (r.body cut).length ≤ 255
  length_eq : n = (r.body cut).length + 2
  holds : HoldsAt mem a (Element.mk wlanEidRsn (r.body cut) length_le).bytes

/-- Behind its header an encoded element is parsed exactly if it has version 1. -/
theorem RsnElement.parse_value {a n : ℕ} (h : RsnElement mem a n r cut) :
    (rtwRsneInfoParse a n).value mem =
      if r.version.toNat = 1 then
        (parseGcs (a + 4 + (r.fromGcs cut).length) (a + 4) .zero).value mem
      else (false, { RsneInfo.zero with err := true }) := by
  obtain ⟨hid, hlen, hbody⟩ := holdsAt_bytes h.holds
  have hn := h.length_eq
  have hshort := h.length_le
  have hver := rtwGetLe16_value (by omega) hbody
  dsimp only at hlen
  rw [RsnFields.body, List.length_append, length_leBytes] at hn hlen hshort
  rw [rtwRsneInfoParse, if_neg (by omega), value_cell_bind, if_neg (not_not.mpr hid), value_cell_bind,
    if_neg (by omega), value_bind, hver]
  by_cases h1 : r.version.toNat = 1
  · rw [if_neg (not_not.mpr h1), if_pos h1,
      show a + n = a + 4 + (r.fromGcs cut).length by omega]
  · rw [if_pos h1, if_neg h1]
    rfl

/-- Every encoded element of version 1 is parsed into its fields, those cut off as absent. -/
theorem RsnElement.reports {a n : ℕ} (h : RsnElement mem a n r cut) (hv : r.version = 1) :
    ((rtwRsneInfoParse a n).value mem).1 = true ∧
      Reports mem ((rtwRsneInfoParse a n).value mem).2 r cut := by
  have hzero : Reports mem .zero r 0 := by
    refine ⟨?_, ?_, ?_, ?_, ?_, ?_, rfl⟩ <;> exact ⟨fun hc => absurd hc (by decide), fun _ => rfl⟩
  have hbody := (holdsAt_append.mp (holdsAt_bytes h.holds).2.2).2
  have hshort := h.length_le
  rw [RsnFields.body, List.length_append, length_leBytes] at hshort
  rw [h.parse_value, if_pos (by rw [hv]; rfl)]
  exact parseGcs_reports _ (Nat.zero_le cut) (by omega) hzero hbody

theorem RsnElement.rejected {a n : ℕ} (h : RsnElement mem a n r cut) (hv : r.version ≠ 1) :
    ((rtwRsneInfoParse a n).value mem).1 = false := by
  have hne : r.version.toNat ≠ 1 := fun hc => hv (BitVec.eq_of_toNat_eq hc)
  rw [h.parse_value, if_neg hne]

end RoundTrip

/-- The parser reads the element only and reports nothing outside of it; an encoded element of
version 1, cut behind any of its optional fields, is parsed into exactly these, and one of another
version is rejected. -/
theorem rsne_info_parse_spec (mem : ℕ → BitVec 8) (a n : ℕ) :
    Safe mem a n (rtwRsneInfoParse a n) ∧ ∀ r cut, RsnElement mem a n r cut →
      (r.version = 1 → ((rtwRsneInfoParse a n).value mem).1 = true ∧
        Reports mem ((rtwRsneInfoParse a n).value mem).2 r cut) ∧
      (r.version ≠ 1 → ((rtwRsneInfoParse a n).value mem).1 = false) :=
  ⟨rtwRsneInfoParse_safe, fun _ _ h => ⟨h.reports, h.rejected⟩⟩

/-- Fields with version 2 and nothing else of note. -/
def versionTwo : RsnFields where
  version := 2
  group := Vector.replicate 4 0
  pairwise := []
  akm := []
  cap := Vector.replicate 2 0
  pmkids := []
  gmcs := Vector.replicate 4 0

/-- The element with version 2 and no optional field. -/
def versionTwoIe (i : ℕ) : BitVec 8 := [0x30, 0x02, 0x02, 0x00].getD i 0

/-- The element is encoded from its fields, and is rejected. -/
theorem rsne_info_parse_versionTwo : RsnElement versionTwoIe 0 4 versionTwo 0 ∧
    ((rtwRsneInfoParse 0 4).value versionTwoIe).1 = false := by
  have helement : RsnElement versionTwoIe 0 4 versionTwo 0 := by
    refine ⟨by decide, by decide, ?_⟩
    intro k x hx
    have hk : k < 4 := (List.getElem?_eq_some_iff.mp hx).1
    interval_cases k <;> cases hx <;> rfl
  exact ⟨helement, helement.rejected (by decide)⟩

end Rtl8821cu.RsneParse
