import Rtl8821cu.Nat25PppoeFits

/-! The relay tag of PPPoE discovery (`core/rtw_br_ext.c`): on a packet that is handled inside of
it, `nat25_db_handle` does what `nat25Insert` and `nat25Lookup` do to its bytes. -/
namespace Rtl8821cu.Nat25Handle
open Guard Store Bytes Nat25Pppoe

/-- The bytes of a packet, with the number of free ones behind them. -/
def skb (s : Buf Byte) : Skb := ⟨load s.mem 0 s.len, s.room⟩

/-- What is returned with the packet that is left, for the bytes that it should have. -/
def Returns (ret : ℤ) (t : Buf Byte) : Option Skb → Prop
  | none => ret = -1
  | some p => ret = 0 ∧ skb t = p

section Bytes

variable {m : ℕ → Byte} {s : Buf Byte} {a n k off : ℕ} {l : List Byte}

theorem take_load (h : k ≤ n) : (load m a n).take k = load m a k := by
  obtain ⟨d, rfl⟩ := Nat.exists_eq_add_of_le h
  rw [load_add, List.take_left' (length_load m a k)]

theorem drop_load (h : k ≤ n) : (load m a n).drop k = load m (a + k) (n - k) := by
  obtain ⟨d, rfl⟩ := Nat.exists_eq_add_of_le h
  rw [load_add, List.drop_left' (length_load m a k), Nat.add_sub_cancel_left]

theorem load_store (h : a + l.length ≤ n) :
    load (Store.store m a l) 0 n = overwrite (load m 0 n) a l := by
  have hn : n = a + (l.length + (n - (a + l.length))) := by omega
  have hlow : load (Store.store m a l) 0 a = load m 0 a :=
    load_congr fun i _ hi => store_of_lt m l (by omega)
  have hnew : load (Store.store m a l) a l.length = l := load_of_holdsAt (holdsAt_store m a l)
  have hhigh : load (Store.store m a l) (a + l.length) (n - (a + l.length)) =
      load m (a + l.length) (n - (a + l.length)) :=
    load_congr fun i hi _ => store_of_ge m l hi
  rw [overwrite, take_load (by omega), drop_load h, Nat.zero_add]
  conv_lhs => rw [hn, load_add, load_add, Nat.zero_add]
  rw [hlow, hnew, hhigh, List.append_assoc]

theorem getBe16_skb (h : off + 2 ≤ s.len) : getBe16 (skb s).data off = field s off := by
  rw [skb, field, getBe16_load s.mem 0 h, Nat.zero_add]

theorem slice_skb (h : off + n ≤ s.len) : ((skb s).data.drop off).take n = load s.mem off n := by
  rw [skb, drop_load (by omega), take_load (by omega), Nat.zero_add]

theorem skb_store (h : a + l.length ≤ s.len) :
    skb (s.store a l) = { skb s with data := overwrite (skb s).data a l } := by
  rw [skb, skb, Buf.store, load_store h]

end Bytes

section Parts

variable {env : Env} {s : Buf Byte} {length type pos tagLen off n : ℕ} {r : Option ℕ}
  {tag : List Byte}

theorem Tags.findTagLoop_eq (h : Tags s length type pos r) :
    findTagLoop (skb s).data length type pos = r := by
  induction h with
  | done hge => rw [findTagLoop, if_neg (by omega)]
  | found hlt hin htype =>
    rw [tagHdrLen] at hin
    rw [findTagLoop, if_pos hlt]
    dsimp only
    rw [getBe16_skb (by omega), htype, if_pos rfl]
  | skip hlt hin htype rest ih =>
    rw [tagHdrLen] at hin
    rw [findTagLoop, if_pos hlt]
    dsimp only
    rw [getBe16_skb (by omega), if_neg htype, getBe16_skb (by omega), Nat.add_assoc, ih]

theorem RelayTag.find_eq (h : RelayTag s r) (h20 : 20 ≤ s.len) :
    nat25FindPppoeTag (skb s).data pttRelaySid = r := by
  rw [nat25FindPppoeTag, getBe16_skb (by rw [lengthOff]; omega)]
  exact h.findTagLoop_eq

theorem skbPullAndMerge_skb (h : off + n ≤ s.len) :
    skbPullAndMerge (skb s) off n = some (skb (pulled off n s)) := by
  have hlen : (skb s).data.length = s.len := length_load _ _ _
  have hdata : load (pulled off n s).mem 0 (s.len - n) =
      (skb s).data.take off ++ (skb s).data.drop (off + n) := by
    have hlow : load (pulled off n s).mem 0 off = load s.mem 0 off := by
      refine load_congr fun i _ hi => ?_
      rw [pulled_mem h (by omega), cut]
      exact if_pos (by omega)
    have hhigh : load (pulled off n s).mem off (s.len - (off + n)) =
        load s.mem (off + n) (s.len - (off + n)) := by
      have hheld := holdsAt_store s.mem off (load s.mem (off + n) (s.len - (off + n)))
      have := load_of_holdsAt hheld
      rwa [length_load] at this
    rw [show s.len - n = off + (s.len - (off + n)) by omega, load_add, Nat.zero_add, hlow, hhigh,
      skb, take_load (by omega), drop_load h, Nat.zero_add]
  rw [skbPullAndMerge, hlen, if_neg (by omega), ← hdata]
  rfl

/-- The free room is read where `skb_put` finds it. -/
theorem nat25AddPppoeTag_skb (h : 20 ≤ s.len) (hroom : ¬s.room < newLen env tagLen)
    (hmove : field s lengthOff = 0 ∨ tagOff + field s lengthOff ≤ s.len) :
    nat25AddPppoeTag env.host (skb s) tagLen (tagBuf tag env.stack) (fun i => s.mem (s.len + i)) =
      some (skb (tagged env tagLen tag s)) := by
  have hnew : env.host.raw tagLen + tagHdrLen = newLen env tagLen := rfl
  have h18 : lengthOff + 2 ≤ s.len := by
    rw [lengthOff]
    omega
  have h20 : tagOff = 20 := rfl
  have hput : (skb s).data ++ (List.range (newLen env tagLen)).map (fun i => s.mem (s.len + i)) =
      (skb (skbPut (newLen env tagLen) s)).data := by
    rw [skb, skb, skbPut, load_add, Nat.zero_add]
    rfl
  have htags : ((skb s).data.drop tagOff).take (field s lengthOff) =
      load s.mem tagOff (field s lengthOff) := by
    rcases hmove with hzero | hle
    · rw [hzero]
      rfl
    · exact slice_skb hle
  have hlen : (skbPut (newLen env tagLen) s).len = s.len + newLen env tagLen := rfl
  unfold nat25AddPppoeTag
  dsimp only
  rw [hnew, if_neg (show ¬(skb s).tailroom < newLen env tagLen from hroom), getBe16_skb h18, hput,
    htags, tagged, skb_store (by simp [hlen]; omega), skb_store (by simp [hlen]; omega),
    skb_store (by simp [hlen]; omega)]
  rfl

/-- The tag is added as it is to the bytes of the packet. -/
theorem meets_addPppoeTag_skb (h20 : 20 ≤ s.len)
    (h : Meets (addPppoeTag env tagLen tag) s fun _ _ => True) :
    Meets (addPppoeTag env tagLen tag) s fun ret t =>
      Returns ret t (nat25AddPppoeTag env.host (skb s) tagLen (tagBuf tag env.stack)
        fun i => s.mem (s.len + i)) := by
  rw [meets_addPppoeTag h20] at h ⊢
  constructor
  · intro hroom
    have hnone : nat25AddPppoeTag env.host (skb s) tagLen (tagBuf tag env.stack)
        (fun i => s.mem (s.len + i)) = none := if_pos hroom
    rw [hnone]
    rfl
  · intro hroom
    obtain ⟨hbuf, hmove, -⟩ := h.2 hroom
    refine ⟨hbuf, hmove, ?_⟩
    rw [nat25AddPppoeTag_skb h20 hroom hmove]
    exact ⟨rfl, rfl⟩

end Parts

section Discovery

variable {env : Env} {s : Buf Byte}

/-- The header of the packet stays where it is when a tag goes. -/
theorem load_untagged {off a n : ℕ} (h : off + (tagHdrLen + field s (off + 2)) ≤ s.len)
    (hoff : lengthOff + 2 ≤ off) (ha : a + n ≤ lengthOff) :
    load (untagged off s).mem a n = load s.mem a n := by
  refine load_congr fun i _ hi => ?_
  have hlen : (withoutTag s (some off)).len = s.len - (tagHdrLen + field s (off + 2)) := rfl
  rw [(apart_untagged h).mem i (by omega) fun hin => absurd hin.1 (by omega), withoutTag, cut]
  exact if_pos (by omega)

theorem field_length_pulled {off : ℕ} (h : off + (tagHdrLen + field s (off + 2)) ≤ s.len)
    (hoff : lengthOff + 2 ≤ off) :
    getBe16 (skb (pulled off (tagHdrLen + field s (off + 2)) s)).data lengthOff =
      field s lengthOff := by
  rw [getBe16_skb (by rw [pulled_len]; omega), field_pulled h hoff]

/-- `nat25Insert` of a packet with a relay tag of its own. -/
theorem nat25Insert_skb {off : ℕ} (htag : RelayTag s (some off)) (h20 : 20 ≤ s.len)
    (h : off + (tagHdrLen + field s (off + 2)) ≤ s.len)
    (hbuf : ¬tagBufSize < field s (off + 2) + tagHdrLen + relayLen) (room : ℕ → Byte) :
    nat25Insert env.host env.stack room (skb s) =
      nat25AddPppoeTag env.host (skb (untagged off s)) (relayLen + field s (off + 2))
        (tagBuf (relayTagBytes (load s.mem 6 6) (load s.mem (off + tagHdrLen) (field s (off + 2))))
          env.stack) room := by
  obtain ⟨hoff, hin⟩ := htag.inside
  have h18 : lengthOff + 2 ≤ off := hoff
  rw [tagHdrLen] at hin
  have hsrc : ((skb s).data.drop 6).take 6 = load s.mem 6 6 := slice_skb (by omega)
  have hold : ((skb s).data.drop (off + tagHdrLen)).take (field s (off + 2)) =
      load s.mem (off + tagHdrLen) (field s (off + 2)) := slice_skb (by rwa [Nat.add_assoc])
  have hbytes : (⟨setLength (skb (pulled off (tagHdrLen + field s (off + 2)) s)).data
      (field s lengthOff + 65536 - tagHdrLen - field s (off + 2)),
      (skb (pulled off (tagHdrLen + field s (off + 2)) s)).tailroom⟩ : Skb) =
      skb (untagged off s) := by
    rw [untagged, skb_store (by rw [pulled_len, length_be16]; omega)]
    rfl
  rw [nat25Insert, htag.find_eq h20]
  dsimp only
  rw [getBe16_skb (by omega),
    if_neg (show ¬field s (off + 2) + tagHdrLen + relayLen > 40 from hbuf), skbPullAndMerge_skb h]
  dsimp only
  rw [field_length_pulled h h18, hsrc, hold, hbytes]

/-- The relay tag is put in as `nat25Insert` puts it into the bytes of the packet. -/
theorem meets_insertRelayTag_skb (h : Meets (insertRelayTag env) s fun _ _ => True) :
    Meets (insertRelayTag env) s fun ret t =>
      ∃ room, Returns ret t (nat25Insert env.host env.stack room (skb s)) := by
  rw [insertRelayTag, meets_bind, meets_findTag] at h ⊢
  obtain ⟨h20, r, htag, h⟩ := h
  refine ⟨h20, r, htag, ?_⟩
  have hfind := htag.find_eq h20
  cases r with
  | none =>
    have hsrc : ((skb s).data.drop 6).take 6 = load s.mem 6 6 := slice_skb (by omega)
    dsimp only at h ⊢
    unfold nat25Insert
    rw [meets_bind, meets_read] at h ⊢
    rw [hfind, hsrc]
    exact ⟨h.1, (meets_addPppoeTag_skb h20 h.2).mono fun ret t ht => ⟨_, ht⟩⟩
  | some off =>
    dsimp only at h ⊢
    obtain ⟨hoff, hin⟩ := htag.inside
    have h18 : lengthOff + 2 ≤ off := hoff
    have hfield : ntohs (load s.mem (off + 2) 2) = field s (off + 2) := rfl
    rw [tagHdrLen] at hin
    rw [meets_bind, meets_read, hfield, meets_ite] at h ⊢
    refine ⟨h.1, fun hbig => ?_, fun hbuf => ?_⟩
    · refine meets_pure.mpr ⟨fun _ => 0, ?_⟩
      rw [nat25Insert, hfind]
      dsimp only
      rw [getBe16_skb (by omega),
        if_pos (show field s (off + 2) + tagHdrLen + relayLen > 40 from hbig)]
      rfl
    · have hrest := h.2.2 hbuf
      rw [meets_bind, meets_read] at hrest ⊢
      obtain ⟨hread, hrest⟩ := hrest
      have hold : off + (tagHdrLen + field s (off + 2)) ≤ s.len := by
        rcases hread with hzero | hle
        · rw [tagHdrLen]
          omega
        · omega
      have hpulled : ntohs (load (pulled off (tagHdrLen + field s (off + 2)) s).mem lengthOff 2) =
          field s lengthOff := field_pulled hold h18
      have hlen : (untagged off s).len = s.len - (tagHdrLen + field s (off + 2)) := rfl
      have h20' : 20 ≤ (untagged off s).len := by
        rw [lengthOff] at h18
        omega
      rw [meets_bind, meets_pullAndMerge hold, if_pos rfl, meets_bind, meets_read, meets_bind,
        hpulled, writeLength, meets_write, meets_bind, meets_read] at hrest ⊢
      obtain ⟨hl, hl', hs, hadd⟩ := hrest
      have hsrc := load_untagged hold h18 (show 6 + 6 ≤ lengthOff by decide)
      refine ⟨hread, hl, hl', hs, (meets_addPppoeTag_skb h20' hadd).mono fun ret t ht => ?_⟩
      refine ⟨fun i => (untagged off s).mem ((untagged off s).len + i), ?_⟩
      rw [nat25Insert_skb htag h20 hold hbuf, ← hsrc]
      exact ht

/-- Once the bytes are pulled out, the length fields are written. -/
theorem meets_takenOut {w : Buf Byte} {off rest n v : ℕ}
    (h : Meets (do
      let length ← read lengthOff 2
      writeLength (ntohs length + 65536 - n)
      if 0 < rest then do
        write (off + 2) (be16 v)
        pure 0
      else pure 0) w fun (_ : ℤ) _ => True) :
    Meets (do
      let length ← read lengthOff 2
      writeLength (ntohs length + 65536 - n)
      if 0 < rest then do
        write (off + 2) (be16 v)
        pure 0
      else pure 0) w fun ret t =>
        let data := setLength (skb w).data (getBe16 (skb w).data lengthOff + 65536 - n)
        Returns ret t (some { skb w with
          data := if rest > 0 then overwrite data (off + 2) (be16 v) else data }) := by
  rw [meets_bind, meets_read, meets_bind, writeLength, meets_write, meets_ite] at h ⊢
  obtain ⟨hl, hl', hlong, hshort⟩ := h
  have hin : lengthOff + 2 ≤ w.len := (inside_iff (by decide)).mp hl
  have hlength : getBe16 (skb w).data lengthOff = ntohs (load w.mem lengthOff 2) := getBe16_skb hin
  have hset : ∀ v, ({ skb w with data := setLength (skb w).data v } : Skb) =
      skb (w.store lengthOff (be16 (v % 65536))) := fun v => (skb_store hin).symm
  dsimp only
  rw [hlength]
  refine ⟨hl, hl', fun hpos => ?_, fun hzero => ?_⟩
  · have hwrite := hlong hpos
    rw [meets_bind, meets_write] at hwrite ⊢
    have hin' : off + 2 + 2 ≤ w.len := (inside_iff (by decide)).mp hwrite.1
    refine ⟨hwrite.1, rfl, ?_⟩
    rw [if_pos hpos, skb_store hin', ← hset]
  · refine ⟨rfl, ?_⟩
    rw [if_neg hzero]
    exact (hset _).symm

/-- The relay tag is taken out as `nat25Lookup` takes it out of the bytes of the packet. -/
theorem meets_removeRelayTag_skb (h : Meets removeRelayTag s fun _ _ => True) :
    Meets removeRelayTag s fun ret t => Returns ret t (nat25Lookup (skb s)) := by
  rw [removeRelayTag, meets_bind, meets_findTag] at h ⊢
  obtain ⟨h20, r, htag, h⟩ := h
  refine ⟨h20, r, htag, ?_⟩
  rw [nat25Lookup, htag.find_eq h20]
  cases r with
  | none => exact rfl
  | some off =>
    dsimp only at h ⊢
    obtain ⟨hoff, hin⟩ := htag.inside
    have h18 : lengthOff + 2 ≤ off := hoff
    have hfield : ntohs (load s.mem (off + 2) 2) = field s (off + 2) := rfl
    have hmagic : ntohs (load s.mem (off + tagHdrLen) 2) = field s (off + tagHdrLen) := rfl
    have hguard : (if relayLen < field s (off + 2) then tagHdrLen else 0) = tagRest s off := rfl
    have hlist : (if field s (off + 2) > relayLen then tagHdrLen else 0) = tagRest s off := rfl
    rw [tagHdrLen] at hin
    rw [getBe16_skb (by omega), hlist]
    rw [meets_bind, meets_read, hfield, hguard, meets_ite] at h ⊢
    refine ⟨h.1, fun hshort => ?_, fun hlong => ?_⟩
    · rw [if_pos hshort]
      exact rfl
    rw [if_neg hlong]
    have h := h.2.2 hlong
    rw [meets_bind, meets_read, hmagic, meets_ite] at h ⊢
    have hcode : off + tagHdrLen + 2 ≤ s.len := (inside_iff (by decide)).mp h.1
    rw [getBe16_skb hcode]
    refine ⟨h.1, fun hno => ?_, fun hyes => ?_⟩
    · rw [if_pos hno]
      exact rfl
    rw [if_neg hyes]
    have h := h.2.2 hyes
    rw [meets_bind, meets_read, meets_bind, meets_write] at h ⊢
    have hmac : off + tagHdrLen + 2 + 6 ≤ s.len := (inside_iff (by decide)).mp h.1
    refine ⟨h.1, h.2.1, ?_⟩
    rw [slice_skb hmac, ← skb_store (by rw [length_load]; omega)]
    have h := h.2.2
    generalize load s.mem (off + tagHdrLen + 2) 6 = mac at h ⊢
    have hpart : off + tagRest s off + (tagHdrLen + relayLen - tagRest s off) ≤
        (s.store 0 mac).len := by
      have hrest : tagRest s off = tagHdrLen ∨ tagRest s off = 0 := tagRest_eq_or
      simp only [tagHdrLen] at hrest hmac
      rw [store_len, tagHdrLen, relayLen]
      omega
    rw [skbPullAndMerge_skb hpart]
    rw [meets_bind, meets_pullAndMerge hpart, if_pos rfl] at h ⊢
    exact meets_takenOut h

end Discovery

end Rtl8821cu.Nat25Handle
