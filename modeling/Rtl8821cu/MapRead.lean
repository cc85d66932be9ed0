import Rtl8821cu.LibStore

/-! Maps made of segments (`struct map_t`, `os_dep/osdep_service.c`): a range read against the read
of one byte. -/
namespace Rtl8821cu.MapRead
open Store

abbrev Byte := BitVec 8

def success : ℕ := 1

def fail : ℕ := 0

/-- `struct map_seg_t`. -/
structure MapSeg where
  sa : ℕ
  len : ℕ
  c : ℕ → Byte

/-- The segment has a byte for the address. -/
def MapSeg.Covers (seg : MapSeg) (a : ℕ) : Prop := seg.sa ≤ a ∧ a < seg.sa + seg.len

instance (seg : MapSeg) (a : ℕ) : Decidable (seg.Covers a) := inferInstanceAs (Decidable (_ ∧ _))

/-- `struct map_t`, with segments that lie in the map and do not share an address. -/
structure Map where
  len : ℕ
  initValue : Byte
  segs : List MapSeg
  len_lt : len < 65536
  inside : ∀ seg ∈ segs, seg.sa + seg.len ≤ len
  apart : segs.Pairwise fun seg seg' => ∀ a, seg.Covers a → ¬seg'.Covers a

/-- What of a segment is copied, from where and to where: the turn of the loop of `map_readN`. -/
def copySeg (offset len : ℕ) (buf : ℕ → Byte) (seg : MapSeg) : ℕ → Byte :=
  if seg.sa + seg.len ≤ offset ∨ offset + len ≤ seg.sa then buf
  else if offset ≤ seg.sa then
    let cLen :=
      if seg.sa + seg.len ≤ offset + len then seg.len else (offset + len - seg.sa) % 65536
    store buf (seg.sa - offset) (load seg.c 0 cLen)
  else
    let cLen :=
      if offset + len ≤ seg.sa + seg.len then len else (seg.sa + seg.len - offset) % 65536
    store buf 0 (load seg.c (offset - seg.sa) cLen)

/-- `map_readN`: its result and the buffer. No branch sets the result to `_SUCCESS`. -/
def mapReadN (map : Map) (offset len : ℕ) (buf : ℕ → Byte) : ℕ × (ℕ → Byte) :=
  let ret := fail
  if len = 0 then (ret, buf)
  else if map.len < offset + len then (ret, buf)
  else (ret, map.segs.foldl (copySeg offset len) (store buf 0 (List.replicate len map.initValue)))

def mapRead8 (map : Map) (offset : ℕ) : Byte :=
  if map.len < offset + 1 then map.initValue
  else
    match map.segs.find? fun seg => ¬(seg.sa + seg.len ≤ offset ∨ offset + 1 ≤ seg.sa) with
    | some seg => seg.c (offset - seg.sa)
    | none => map.initValue

theorem store_load (m c : ℕ → Byte) (a src n i : ℕ) :
    store m a (load c src n) i = if a ≤ i ∧ i < a + n then c (src + (i - a)) else m i := by
  by_cases h : a ≤ i ∧ i < a + n
  · have hcell := holdsAt_store m a (load c src n) (i - a) (c (src + (i - a)))
      (by simp [load, show i - a < n by omega])
    rw [if_pos h, ← hcell, Nat.add_sub_cancel' h.1]
  · rw [if_neg h, store_of_disjoint m _ (by rw [length_load]; omega)]

/-- However a segment lies to the range, its turn copies the bytes that it has for the range. -/
theorem copySeg_apply {offset len : ℕ} (seg : MapSeg) (hlen : offset + len < 65536)
    (hseg : seg.sa + seg.len < 65536) (buf : ℕ → Byte) {i : ℕ} (hi : i < len) :
    copySeg offset len buf seg i =
      if seg.Covers (offset + i) then seg.c (offset + i - seg.sa) else buf i := by
  have hcov : seg.Covers (offset + i) ↔ seg.sa ≤ offset + i ∧ offset + i < seg.sa + seg.len :=
    Iff.rfl
  rw [copySeg]
  by_cases hout : seg.sa + seg.len ≤ offset ∨ offset + len ≤ seg.sa
  · rw [if_pos hout, if_neg (by rw [hcov]; omega)]
  · rw [if_neg hout]
    by_cases hleft : offset ≤ seg.sa
    · simp only [if_pos hleft, store_load,
        Nat.mod_eq_of_lt (show offset + len - seg.sa < 65536 by omega)]
      by_cases h : seg.Covers (offset + i)
      · obtain ⟨hge, hlt⟩ := hcov.mp h
        rw [if_pos h, if_pos ⟨by omega, by split_ifs <;> omega⟩,
          show 0 + (i - (seg.sa - offset)) = offset + i - seg.sa by omega]
      · rw [if_neg h, if_neg]
        rw [hcov] at h
        split_ifs <;> omega
    · simp only [if_neg hleft, store_load,
        Nat.mod_eq_of_lt (show seg.sa + seg.len - offset < 65536 by omega)]
      by_cases h : seg.Covers (offset + i)
      · obtain ⟨hge, hlt⟩ := hcov.mp h
        rw [if_pos h, if_pos ⟨by omega, by split_ifs <;> omega⟩,
          show offset - seg.sa + (i - 0) = offset + i - seg.sa by omega]
      · rw [if_neg h, if_neg]
        rw [hcov] at h
        split_ifs <;> omega

/-- A byte of the range after the turns of segments that do not share an address. -/
theorem foldl_copySeg {offset len : ℕ} {segs : List MapSeg} (hlen : offset + len < 65536)
    (hseg : ∀ seg ∈ segs, seg.sa + seg.len < 65536)
    (hapart : segs.Pairwise fun seg seg' => ∀ a, seg.Covers a → ¬seg'.Covers a)
    (buf : ℕ → Byte) {i : ℕ} (hi : i < len) :
    segs.foldl (copySeg offset len) buf i =
      match segs.find? fun seg => seg.Covers (offset + i) with
      | some seg => seg.c (offset + i - seg.sa)
      | none => buf i := by
  induction segs generalizing buf with
  | nil => rfl
  | cons seg segs ih =>
    obtain ⟨hhead, htail⟩ := List.pairwise_cons.mp hapart
    rw [List.foldl_cons, ih (fun seg' h => hseg seg' (List.mem_cons_of_mem _ h)) htail,
      copySeg_apply seg hlen (hseg seg List.mem_cons_self) buf hi]
    by_cases hcov : seg.Covers (offset + i)
    · have hnone : segs.find? (fun seg' => decide (seg'.Covers (offset + i))) = none := by
        rw [List.find?_eq_none]
        intro seg' hmem
        simpa using hhead seg' hmem _ hcov
      rw [hnone, List.find?_cons_of_pos (by simpa using hcov)]
      exact if_pos hcov
    · rw [List.find?_cons_of_neg (by simpa using hcov), if_neg hcov]

theorem mapRead8_eq (map : Map) {a : ℕ} (ha : a < map.len) :
    mapRead8 map a =
      match map.segs.find? fun seg => seg.Covers a with
      | some seg => seg.c (a - seg.sa)
      | none => map.initValue := by
  have hcov : (fun seg : MapSeg => decide ¬(seg.sa + seg.len ≤ a ∨ a + 1 ≤ seg.sa)) =
      fun seg => decide (seg.Covers a) := by
    funext seg
    rw [decide_eq_decide, MapSeg.Covers]
    omega
  rw [mapRead8, if_neg (by omega), hcov]

/-- The buffer gets the bytes that the byte reader gives. -/
theorem mapReadN_fills (map : Map) {offset len : ℕ} (hlen : 0 < len)
    (hin : offset + len ≤ map.len) (buf : ℕ → Byte) {i : ℕ} (hi : i < len) :
    (mapReadN map offset len buf).2 i = mapRead8 map (offset + i) := by
  have hlt := map.len_lt
  have hseg : ∀ seg ∈ map.segs, seg.sa + seg.len < 65536 := fun seg h =>
    (map.inside seg h).trans_lt hlt
  rw [mapReadN, if_neg hlen.ne', if_neg (by omega), mapRead8_eq map (by omega)]
  dsimp only
  rw [foldl_copySeg (by omega) hseg map.apart _ hi,
    store_replicate buf map.initValue (Nat.zero_le i) (by omega)]

theorem mapReadN_ret (map : Map) (offset len : ℕ) (buf : ℕ → Byte) :
    (mapReadN map offset len buf).1 = fail := by
  unfold mapReadN
  split_ifs <;> rfl

/-- What a range read has to do. -/
structure ReadsRange (map : Map) (offset len : ℕ) (buf : ℕ → Byte) : Prop where
  inRange : offset + len ≤ map.len → (mapReadN map offset len buf).1 = success ∧
    ∀ i < len, (mapReadN map offset len buf).2 i = mapRead8 map (offset + i)
  outOfRange : map.len < offset + len → mapReadN map offset len buf = (fail, buf)

/-- A read in the map fills the buffer as it should, but says that it failed; so that the reader
does what it has to exactly when it is asked for a range outside of the map. -/
theorem mapReadN_reads_iff (map : Map) (offset : ℕ) {len : ℕ} (hlen : 0 < len) (buf : ℕ → Byte) :
    (ReadsRange map offset len buf ↔ map.len < offset + len) ∧
      (offset + len ≤ map.len →
        ∀ i < len, (mapReadN map offset len buf).2 i = mapRead8 map (offset + i)) := by
  refine ⟨⟨fun h => ?_, fun hout => ⟨fun hin => ?_, fun _ => ?_⟩⟩, fun hin i hi =>
    mapReadN_fills map hlen hin buf hi⟩
  · by_contra hin
    have hret := (h.inRange (by omega)).1
    rw [mapReadN_ret] at hret
    exact absurd hret (by decide)
  · omega
  · rw [mapReadN, if_neg hlen.ne', if_pos hout]

/-- One segment of two bytes, behind a byte that has the value of the map. -/
def shortMap : Map where
  len := 3
  initValue := 0xff
  segs := [⟨1, 2, fun _ => 0x21⟩]
  len_lt := by decide
  inside := by simp
  apart := List.pairwise_singleton _ _

theorem shortMap_reads :
    (ReadsRange shortMap 2 2 (fun _ => 0) ↔ shortMap.len < 2 + 2) ∧
      (2 + 2 ≤ shortMap.len →
        ∀ i < 2, (mapReadN shortMap 2 2 fun _ => 0).2 i = mapRead8 shortMap (2 + i)) :=
  mapReadN_reads_iff shortMap 2 Nat.two_pos _

theorem shortMap_not_reads : ¬ReadsRange shortMap 0 3 fun _ => 0 := by
  intro h
  have hret := (h.inRange (by decide)).1
  exact absurd hret (by decide)

end Rtl8821cu.MapRead
