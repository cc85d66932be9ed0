import Rtl8821cu.Nat25Fits

/-! PPPoE discovery in `nat25_db_handle` (`core/rtw_br_ext.c`): the search of the relay tag, and the
tags that are put in front of the others. -/
namespace Rtl8821cu.Nat25Handle
open Guard Store Bytes Nat25Pppoe

/-- The bytes of a new tag, by the length field of the tag as the processor reads it. -/
def newLen (env : Env) (tagLen : ℕ) : ℕ := env.host.raw tagLen + tagHdrLen

/-- There is no room for a tag; or it comes out of `tag_buf`, the tags end inside of the packet, and
the bytes behind them are the same when they are read that much later. -/
def AddFits (env : Env) (tagLen : ℕ) (s : Buf Byte) : Prop :=
  s.room < newLen env tagLen ∨ newLen env tagLen ≤ tagBufSize ∧
    (field s lengthOff = 0 ∨ tagOff + field s lengthOff ≤ s.len) ∧
    ∀ i, tagOff + field s lengthOff ≤ i → i < s.len → s.mem (i + newLen env tagLen) = s.mem i

/-- The packet when a tag was added to it. -/
def tagged (env : Env) (tagLen : ℕ) (tag : List Byte) (s : Buf Byte) : Buf Byte :=
  (((skbPut (newLen env tagLen) s).store (tagOff + newLen env tagLen)
    (load s.mem tagOff (field s lengthOff))).store lengthOff
      (be16 ((field s lengthOff + newLen env tagLen) % 65536))).store tagOff
        ((List.range (newLen env tagLen)).map (tagBuf tag env.stack))

section Tags

variable {env : Env} {s t : Buf Byte} {length type pos : ℕ} {r r' : Option ℕ}

theorem getBe16_load (m : ℕ → Byte) (a : ℕ) {n k : ℕ} (h : k + 2 ≤ n) :
    getBe16 (load m a n) k = getBe16 (load m (a + k) 2) 0 := by
  have h0 := getD_load m a (show k < n by omega) 0
  have h1 := getD_load m a (show k + 1 < n by omega) 0
  have h2 := getD_load m (a + k) (show 0 < 2 by omega) 0
  have h3 := getD_load m (a + k) (show 1 < 2 by omega) 0
  rw [getBe16, getBe16, h0, h1, h2, h3]
  rfl

theorem meets_findTagLoop {Q : Option ℕ → Buf Byte → Prop} :
    Meets (findPppoeTagLoop length type pos) s Q ↔ ∃ r, Tags s length type pos r ∧ Q r s := by
  induction pos using findPppoeTagLoop.induct length with
  | case1 pos hlt ih =>
    rw [findPppoeTagLoop, if_pos hlt, meets_bind, meets_read, inside_iff (by decide),
      getBe16_load _ _ (by decide), Nat.add_zero]
    by_cases htype : getBe16 (load s.mem (tagOff + pos) 2) 0 = type
    · rw [if_pos htype, meets_pure]
      constructor
      · rintro ⟨hin, hQ⟩
        exact ⟨_, .found hlt hin htype, hQ⟩
      · rintro ⟨r, htags, hQ⟩
        cases htags with
        | done hge => omega
        | found _ hin => exact ⟨hin, hQ⟩
        | skip _ _ hne => exact absurd htype hne
    · have hlen : getBe16 (load s.mem (tagOff + pos) tagHdrLen) 2 = field s (tagOff + pos + 2) :=
        getBe16_load _ _ (by decide)
      rw [if_neg htype, ih, hlen]
      constructor
      · rintro ⟨hin, r, htags, hQ⟩
        exact ⟨r, .skip hlt hin htype htags, hQ⟩
      · rintro ⟨r, htags, hQ⟩
        cases htags with
        | done hge => omega
        | found _ _ heq => exact absurd heq htype
        | skip _ hin _ rest => exact ⟨hin, r, rest, hQ⟩
  | case2 pos hge =>
    rw [findPppoeTagLoop, if_neg hge, meets_pure]
    constructor
    · intro hQ
      exact ⟨none, .done (by omega), hQ⟩
    · rintro ⟨r, htags, hQ⟩
      cases htags with
      | done => exact hQ
      | found hlt => omega
      | skip hlt => omega

theorem Tags.unique (h : Tags s length type pos r) (h' : Tags s length type pos r') : r = r' := by
  induction h with
  | done hge =>
    cases h' with
    | done => rfl
    | found hlt => omega
    | skip hlt => omega
  | found hlt hin htype =>
    cases h' with
    | done => omega
    | found => rfl
    | skip _ _ hne => exact absurd htype hne
  | skip hlt hin hne rest ih =>
    cases h' with
    | done => omega
    | found _ _ htype => exact absurd htype hne
    | skip _ _ _ rest' => exact ih rest'

theorem meets_findTag {Q : Option ℕ → Buf Byte → Prop} :
    Meets (findPppoeTag pttRelaySid) s Q ↔ 20 ≤ s.len ∧ ∃ r, RelayTag s r ∧ Q r s := by
  rw [findPppoeTag, meets_bind, meets_read, inside_iff (by decide), meets_findTagLoop]
  rfl

/-- The header of the tag that was found lies behind that of the packet. -/
theorem Tags.inside (h : Tags s length type pos r) :
    ∀ off ∈ r, tagOff ≤ off ∧ off + tagHdrLen ≤ s.len ∧ field s off = type := by
  induction h with
  | done => simp
  | found hlt hin htype =>
    rintro _ ⟨⟩
    exact ⟨by omega, hin, htype⟩
  | skip _ _ _ _ ih => exact ih

end Tags

section Add

variable {env : Env} {s w : Buf Byte} {tagLen : ℕ} {tag : List Byte}

theorem meets_addPppoeTag {Q : ℤ → Buf Byte → Prop} (h : 20 ≤ s.len) :
    Meets (addPppoeTag env tagLen tag) s Q ↔
      (s.room < newLen env tagLen → Q (-1) s) ∧ (¬s.room < newLen env tagLen →
        newLen env tagLen ≤ tagBufSize ∧
        (field s lengthOff = 0 ∨ tagOff + field s lengthOff ≤ s.len) ∧
        Q 0 (tagged env tagLen tag s)) := by
  have hnew : env.host.raw tagLen + tagHdrLen = newLen env tagLen := rfl
  rw [addPppoeTag, meets_bind, meets_look, hnew, meets_ite, meets_pure]
  refine and_congr_right fun _ => imp_congr_right fun _ => ?_
  have hlen : ntohs (load (skbPut (newLen env tagLen) s).mem lengthOff 2) = field s lengthOff := rfl
  have hput : (skbPut (newLen env tagLen) s).len = s.len + newLen env tagLen := rfl
  have h20 : tagOff = 20 := rfl
  rw [meets_bind, meets_resize, meets_bind, meets_read, hlen, moveBytes, meets_bind, meets_bind,
    meets_read, meets_write, writeLength, meets_bind, meets_write, length_load, length_be16,
    inside_store]
  have hl : (skbPut (newLen env tagLen) s).Inside lengthOff 2 := inside_of_le (by
    rw [hput, lengthOff]
    omega)
  by_cases hbuf : newLen env tagLen ≤ tagBufSize
  · rw [if_neg (not_lt.mpr hbuf), meets_bind, meets_write, meets_pure, List.length_map,
      List.length_range]
    simp only [store_len, Buf.Inside, hput] at hl ⊢
    constructor
    · rintro ⟨-, -, hmove, -, -, hQ⟩
      exact ⟨hbuf, by omega, hQ⟩
    · rintro ⟨-, hmove, hQ⟩
      exact ⟨hl, by omega, by omega, hl, by omega, hQ⟩
  · rw [if_pos (not_le.mp hbuf), meets_fault]
    constructor
    · rintro ⟨-, -, -, -, hfalse⟩
      exact hfalse.elim
    · rintro ⟨hle, -⟩
      exact absurd hle hbuf

/-- The tags are behind the new one, and what was behind them stays where it was. -/
theorem tagged_mem {i : ℕ} (hi : tagOff ≤ i) :
    (tagged env tagLen tag s).mem (i + newLen env tagLen) =
      if i < tagOff + field s lengthOff then s.mem i else s.mem (i + newLen env tagLen) := by
  have h20 : tagOff = lengthOff + 2 := rfl
  rw [tagged, store_mem_of_disjoint (.inr (by simp; omega)),
    store_mem_of_disjoint (.inr (by rw [length_be16]; omega))]
  split_ifs with hlt
  · obtain ⟨k, rfl⟩ : ∃ k, i = tagOff + k := ⟨i - tagOff, by omega⟩
    rw [Nat.add_right_comm, store_at (by rw [length_load]; omega)]
    simp [load]
  · rw [store_mem_of_disjoint (.inr (by rw [length_load]; omega))]
    rfl

theorem tagged_mem_of_lt {i : ℕ} (hi : i < lengthOff) :
    (tagged env tagLen tag s).mem i = s.mem i := by
  have h20 : tagOff = lengthOff + 2 := rfl
  rw [tagged, store_mem_of_disjoint (.inl (by omega)), store_mem_of_disjoint (.inl hi),
    store_mem_of_disjoint (.inl (by omega))]
  rfl

/-- Without the new tag, the packet is as it was. -/
theorem apart_tagged_iff (hw : Apart (Within lengthOff 2) w s) :
    Apart (Within lengthOff 2) w
        (cut tagOff ((tagged env tagLen tag s).len - w.len) (tagged env tagLen tag s)) ↔
      ∀ i, tagOff + field s lengthOff ≤ i → i < s.len →
        s.mem (i + newLen env tagLen) = s.mem i := by
  have h20 : tagOff = lengthOff + 2 := rfl
  have hlen : (tagged env tagLen tag s).len = s.len + newLen env tagLen := rfl
  have hws := hw.len
  have hd : (tagged env tagLen tag s).len - w.len = newLen env tagLen := by omega
  rw [hd]
  constructor
  · intro hkept i hi hilen
    have hfar : ¬Within lengthOff 2 i := fun hin => by
      have := hin.2
      omega
    have hcut := hkept.mem i (by omega) hfar
    rw [← hw.mem i (by omega) hfar, cut] at hcut
    dsimp only at hcut
    rwa [if_neg (by omega), tagged_mem (by omega), if_neg (by omega)] at hcut
  · intro hpad
    refine ⟨by rw [cut]; dsimp only; omega, fun i hi hno => ?_⟩
    rw [← hw.mem i hi hno, cut]
    dsimp only
    by_cases hlt : i < tagOff
    · rw [if_pos hlt, tagged_mem_of_lt]
      by_contra hge
      exact hno ⟨by omega, by omega⟩
    · rw [if_neg hlt, tagged_mem (by omega)]
      split_ifs with hmove
      · rfl
      · exact hpad i (by omega) (by omega)

theorem field_tagged {l : List Byte} {v : ℕ} (hv : v < 65536) (htag : tag = be16 v ++ l) :
    field (tagged env tagLen tag s) tagOff = v := by
  have hholds : HoldsAt (tagged env tagLen tag s).mem tagOff (be16 v) := by
    intro k x hx
    have hk : k < 2 := (List.getElem?_eq_some_iff.mp hx).1
    have hd : k < newLen env tagLen := by
      rw [newLen, tagHdrLen]
      omega
    rw [tagged, store_at (by simpa using hd), List.getElem_map, List.getElem_range, tagBuf, htag,
      List.getD_eq_getElem?_getD, List.getElem?_append_left (by simpa using hk), hx]
    rfl
  have hload : load (tagged env tagLen tag s).mem tagOff 2 = be16 v := load_of_holdsAt hholds
  rw [field, hload]
  exact getBe16_be16 hv [] [] rfl

end Add

/-- The packet when bytes were pulled out of it. -/
def pulled (off n : ℕ) (s : Buf Byte) : Buf Byte :=
  skbTrim n (s.store off (load s.mem (off + n) (s.len - (off + n))))

/-- The packet when its relay tag was deleted. -/
def untagged (off : ℕ) (s : Buf Byte) : Buf Byte :=
  (pulled off (tagHdrLen + field s (off + 2)) s).store lengthOff
    (be16 ((field s lengthOff + 65536 - tagHdrLen - field s (off + 2)) % 65536))

section Pull

variable {s : Buf Byte} {off n : ℕ}

theorem meets_pullAndMerge {Q : Bool → Buf Byte → Prop} (h : off + n ≤ s.len) :
    Meets (pullAndMerge off n) s Q ↔ Q true (pulled off n s) := by
  have hin : s.Inside (off + n) (s.len - (off + n)) := by
    rw [Buf.Inside]
    omega
  have hin' : s.Inside off (s.len - (off + n)) := by
    rw [Buf.Inside]
    omega
  rw [pullAndMerge, meets_bind, meets_look, if_neg (by omega), moveBytes, meets_bind, meets_bind,
    meets_read, meets_write, meets_bind, meets_resize, meets_pure, length_load,
    and_iff_right hin, and_iff_right hin']
  rfl

theorem pulled_len : (pulled off n s).len = s.len - n := rfl

theorem pulled_mem {i : ℕ} (h : off + n ≤ s.len) (hi : i < s.len - n) :
    (pulled off n s).mem i = (cut off n s).mem i := by
  show (s.store off _).mem i = if i < off then s.mem i else s.mem (i + n)
  split_ifs with hlt
  · exact store_mem_of_disjoint (.inl hlt)
  · obtain ⟨k, rfl⟩ : ∃ k, i = off + k := ⟨i - off, by omega⟩
    rw [store_at (by rw [length_load]; omega)]
    simp [load, Nat.add_right_comm]

/-- The length field goes with the tag. -/
theorem apart_untagged (h : off + (tagHdrLen + field s (off + 2)) ≤ s.len) :
    Apart (Within lengthOff 2) (withoutTag s (some off)) (untagged off s) := by
  have hpull : Apart (Within lengthOff 2) (withoutTag s (some off))
      (pulled off (tagHdrLen + field s (off + 2)) s) :=
    ⟨rfl, fun i hi _ => pulled_mem h hi⟩
  exact hpull.store fun k hk => ⟨by omega, by simpa using hk⟩

theorem field_pulled {a : ℕ} (h : off + n ≤ s.len) (ha : a + 2 ≤ off) :
    field (pulled off n s) a = field s a := by
  have hload : load (pulled off n s).mem a 2 = load s.mem a 2 := by
    refine load_congr fun i hi hi' => ?_
    rw [pulled_mem h (by omega), cut]
    exact if_pos (by omega)
  rw [field, hload, field]

theorem cut_zero (a : ℕ) (s : Buf Byte) : cut a 0 s = s := by
  simp [cut]

end Pull

end Rtl8821cu.Nat25Handle
