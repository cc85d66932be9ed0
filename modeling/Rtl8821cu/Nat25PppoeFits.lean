import Rtl8821cu.Nat25Tags

/-! PPPoE packets that `nat25_db_handle` (`core/rtw_br_ext.c`) handles inside of them, with the
relay tag put in or taken out and the rest as it was. -/
namespace Rtl8821cu.Nat25Handle
open Guard Store Bytes Nat25Pppoe

/-- The relay tag is found, or the end of the tags; an old one that fits `tag_buf` lies in the
packet. -/
def RelayInsertFits (env : Env) (s : Buf Byte) : Prop :=
  20 ≤ s.len ∧ ∃ r, RelayTag s r ∧ (r = none → AddFits env relayLen s) ∧
    ∀ off ∈ r, ¬tagBufSize < field s (off + 2) + tagHdrLen + relayLen →
      off + (tagHdrLen + field s (off + 2)) ≤ s.len ∧
        AddFits env (relayLen + field s (off + 2)) (untagged off s)

/-- The relay tag is found, or the end of the tags; what is taken out of it lies in the packet. -/
def RelayLookupFits (s : Buf Byte) : Prop :=
  20 ≤ s.len ∧ ∃ r, RelayTag s r ∧ ∀ off ∈ r, relayLen ≤ field s (off + 2) →
    off + 6 ≤ s.len ∧ (field s (off + 4) = magicCode → off + 12 ≤ s.len)

structure PppoeFits (env : Env) (m : Method) (s : Buf Byte) : Prop where
  check : m = .check → 18 ≤ s.len
  insert : m = .insert → 18 ≤ s.len ∧
    (field s 16 = 0 → isRequest (s.mem 15) = true → env.addPPPoETag = true → RelayInsertFits env s)
  lookup : m = .lookup → 16 ≤ s.len ∧
    (isReply (s.mem 15) = true → env.addPPPoETag = true → RelayLookupFits s) ∧
    (isReply (s.mem 15) = false → 18 ≤ s.len)

/-- What a method leaves of a PPPoE packet. -/
def PppoeKept (m : Method) (s t : Buf Byte) : Prop :=
  Apart (MacFields s .pppoe m) s t ∨ RelayKept s t m

section Insert

variable {env : Env} {s w s' : Buf Byte} {r : Option ℕ} {tagLen off : ℕ} {tag l : List Byte}

theorem PppoeKept.refl (m : Method) (s : Buf Byte) : PppoeKept m s s := .inl (.refl _ s)

theorem RelayTag.inside (h : RelayTag s (some off)) : tagOff ≤ off ∧ off + tagHdrLen ≤ s.len := by
  obtain ⟨hoff, hin, -⟩ := Tags.inside h off rfl
  exact ⟨hoff, hin⟩

/-- A packet without its tag is kept, also when no other one is put in. -/
theorem kept_untagged (htag : RelayTag s r) (hw : Apart (Within lengthOff 2) (withoutTag s r) s') :
    PppoeKept .insert s s' := by
  have hlen := hw.len
  refine .inr (.insert htag ?_ fun hlt => by omega)
  rwa [hlen, Nat.sub_self, cut_zero]

theorem kept_tagged_iff (htag : RelayTag s r)
    (hw : Apart (Within lengthOff 2) (withoutTag s r) s')
    (hne : s'.len + newLen env tagLen ≠ s.len) (hl : tag = be16 pttRelaySid ++ l) :
    PppoeKept .insert s (tagged env tagLen tag s') ↔
      ∀ i, tagOff + field s' lengthOff ≤ i → i < s'.len →
        s'.mem (i + newLen env tagLen) = s'.mem i := by
  rw [← @apart_tagged_iff env s' _ tagLen tag hw]
  constructor
  · rintro (hapart | hkept)
    · exact absurd hapart.len hne
    · cases hkept with
      | insert htag' hkept' hnew =>
        obtain rfl := htag.unique htag'
        exact hkept'
  · intro hkept
    exact .inr (.insert htag hkept fun _ => field_tagged (by decide) hl)

theorem meets_addTag_iff (htag : RelayTag s r)
    (hw : Apart (Within lengthOff 2) (withoutTag s r) s') (h20 : 20 ≤ s'.len)
    (hne : s'.len + newLen env tagLen ≠ s.len) (hl : tag = be16 pttRelaySid ++ l) :
    Meets (addPppoeTag env tagLen tag) s' (fun _ t => PppoeKept .insert s t) ↔
      AddFits env tagLen s' := by
  rw [meets_addPppoeTag h20, kept_tagged_iff htag hw hne hl, AddFits]
  have hsame := kept_untagged htag hw
  constructor
  · rintro ⟨-, hadd⟩
    exact or_iff_not_imp_left.mpr hadd
  · intro hadd
    exact ⟨fun _ => hsame, or_iff_not_imp_left.mp hadd⟩

theorem newLen_ne (env : Env) (tagLen : ℕ) : newLen env tagLen ≠ 0 := by
  rw [newLen, tagHdrLen]
  omega

/-- The relay tag that is put in is longer than the one that it takes the place of. -/
theorem newLen_relay_ne {v : ℕ} (hv : v ≤ 28) : newLen env (relayLen + v) ≠ tagHdrLen + v := by
  rw [newLen, tagHdrLen, relayLen]
  cases env.host with
  | bigEndian =>
    simp only [Host.raw]
    omega
  | littleEndian =>
    have hlow : (2 + 6 + v) % 256 = 2 + 6 + v := Nat.mod_eq_of_lt (by omega)
    simp only [Host.raw, hlow]
    omega

/-- A relay tag, old or none, is followed by the new one. -/
theorem relayTagBytes_eq (src old : List Byte) : ∃ l,
    relayTagBytes src old = be16 pttRelaySid ++ l :=
  ⟨_, List.append_assoc _ _ _⟩

theorem meets_insertNew_iff (h : 20 ≤ s.len) (htag : RelayTag s none) (src : List Byte) :
    Meets (addPppoeTag env relayLen (relayTagBytes src [])) s
      (fun _ t => PppoeKept .insert s t) ↔ AddFits env relayLen s := by
  obtain ⟨l, hl⟩ := relayTagBytes_eq src []
  have hne := newLen_ne env relayLen
  exact meets_addTag_iff htag (.refl _ s) h (by omega) hl

theorem meets_insertOld_iff (htag : RelayTag s (some off))
    (hin : off + (tagHdrLen + field s (off + 2)) ≤ s.len) (hv : field s (off + 2) ≤ 28)
    (src old : List Byte) :
    Meets (addPppoeTag env (relayLen + field s (off + 2)) (relayTagBytes src old)) (untagged off s)
      (fun _ t => PppoeKept .insert s t) ↔
        AddFits env (relayLen + field s (off + 2)) (untagged off s) := by
  obtain ⟨l, hl⟩ := relayTagBytes_eq src old
  obtain ⟨hoff, -⟩ := htag.inside
  have h20 : tagOff = 20 := rfl
  have hlen : (untagged off s).len = s.len - (tagHdrLen + field s (off + 2)) := rfl
  have hne : newLen env (relayLen + field s (off + 2)) ≠ tagHdrLen + field s (off + 2) :=
    newLen_relay_ne hv
  exact meets_addTag_iff htag (apart_untagged hin) (by omega) (by omega) hl

theorem meets_insertRelayTag :
    Meets (insertRelayTag env) s (fun _ t => PppoeKept .insert s t) ↔ RelayInsertFits env s := by
  rw [insertRelayTag, meets_bind, meets_findTag]
  refine and_congr_right fun h20 => exists_congr fun r => and_congr_right fun htag => ?_
  have hsrc : s.Inside 6 6 := inside_of_le (by omega)
  cases r with
  | none =>
    dsimp only
    rw [meets_bind, meets_read, and_iff_right hsrc, meets_insertNew_iff h20 htag]
    simp
  | some off =>
    dsimp only
    obtain ⟨hoff, hin⟩ := htag.inside
    have hfield : ntohs (load s.mem (off + 2) 2) = field s (off + 2) := rfl
    have hlen : s.Inside (off + 2) 2 := inside_of_le (by
      rw [tagHdrLen] at hin
      omega)
    rw [meets_bind, meets_read, and_iff_right hlen, hfield, meets_ite, meets_pure,
      and_iff_right fun _ => PppoeKept.refl .insert s]
    simp only [reduceCtorEq, false_imp_iff, true_and, Option.mem_some_iff, forall_eq']
    refine imp_congr_right fun hbuf => ?_
    have hv : field s (off + 2) ≤ 28 := by
      simp only [tagBufSize, tagHdrLen, relayLen] at hbuf
      omega
    rw [meets_bind, meets_read]
    by_cases hold : off + (tagHdrLen + field s (off + 2)) ≤ s.len
    · have h18 : lengthOff + 2 ≤ off := hoff
      have hpulled : ntohs (load (pulled off (tagHdrLen + field s (off + 2)) s).mem lengthOff 2) =
          field s lengthOff := field_pulled hold h18
      rw [and_iff_right (inside_of_le (by omega)), meets_bind, meets_pullAndMerge hold, if_pos rfl,
        meets_bind, meets_read, meets_bind, hpulled, writeLength, meets_write, meets_bind,
        meets_read, and_iff_right hold, ← meets_insertOld_iff htag hold hv
          (load (untagged off s).mem 6 6) (load s.mem (off + tagHdrLen) (field s (off + 2)))]
      have hl : (pulled off (tagHdrLen + field s (off + 2)) s).Inside lengthOff 2 :=
        inside_of_le (by rw [pulled_len]; omega)
      have hs : (untagged off s).Inside 6 6 := inside_of_le (by
        have hlen : (untagged off s).len = s.len - (tagHdrLen + field s (off + 2)) := rfl
        rw [lengthOff] at h18
        omega)
      constructor
      · rintro ⟨-, -, -, hadd⟩
        exact hadd
      · intro hadd
        exact ⟨hl, hl, hs, hadd⟩
    · refine iff_of_false (fun hread => ?_) (fun hfits => hold hfits.1)
      rcases hread.1 with hzero | hle
      · omega
      · omega

end Insert

section Lookup

variable {env : Env} {s : Buf Byte} {off : ℕ}

/-- The destination is rewritten before the bytes are pulled out. -/
theorem apart_pulled {fields : ℕ → Prop} {mac : List Byte} {a n : ℕ} (h : a + n ≤ s.len)
    (hmac : mac.length = 6) (hf : ∀ i < 6, fields i) :
    Apart fields (cut a n s) (pulled a n (s.store 0 mac)) := by
  refine ⟨rfl, fun i hi hno => ?_⟩
  have hi6 : 6 ≤ i := not_lt.mp fun hlt => hno (hf i hlt)
  have hpull : (pulled a n (s.store 0 mac)).mem i = (cut a n (s.store 0 mac)).mem i :=
    pulled_mem h hi
  rw [hpull, cut, cut]
  dsimp only
  rw [store_mem_of_disjoint (.inr (by omega)), store_mem_of_disjoint (.inr (by omega))]

theorem tagRest_eq_or : tagRest s off = tagHdrLen ∨ tagRest s off = 0 := by
  rw [tagRest]
  split_ifs
  · exact .inl rfl
  · exact .inr rfl

/-- Once the tag is known to lie in the packet, it is taken out. -/
theorem meets_takeOut (htag : RelayTag s (some off)) (hrelay : relayLen ≤ field s (off + 2))
    (hend : off + 12 ≤ s.len) {mac : List Byte} (hmac : mac.length = 6) :
    Meets (do
      let merged ← pullAndMerge (off + tagRest s off) (tagHdrLen + relayLen - tagRest s off)
      if merged then do
        let length ← read lengthOff 2
        writeLength (ntohs length + 65536 - (tagHdrLen + relayLen - tagRest s off))
        if 0 < tagRest s off then do
          write (off + 2) (be16 (field s (off + 2) - relayLen))
          pure 0
        else pure 0
      else pure (-1)) (s.store 0 mac) (fun (_ : ℤ) t => PppoeKept .lookup s t) := by
  obtain ⟨hoff, -⟩ := htag.inside
  have h18 : lengthOff + 2 ≤ off := hoff
  have hrest : tagRest s off = tagHdrLen ∨ tagRest s off = 0 := tagRest_eq_or
  have hn : off + tagRest s off + (tagHdrLen + relayLen - tagRest s off) ≤ s.len := by
    simp only [tagHdrLen, relayLen] at hrest ⊢
    omega
  have hlong : off + tagRest s off ≤ (pulled (off + tagRest s off)
      (tagHdrLen + relayLen - tagRest s off) (s.store 0 mac)).len := by
    rw [pulled_len, store_len]
    simp only [tagHdrLen, relayLen] at hrest ⊢
    omega
  have hpull : Apart (fun i => Within 0 6 i ∨ Within lengthOff 2 i ∨
      0 < tagRest s off ∧ Within (off + 2) 2 i)
      (cut (off + tagRest s off) (tagHdrLen + relayLen - tagRest s off) s)
      (pulled (off + tagRest s off) (tagHdrLen + relayLen - tagRest s off) (s.store 0 mac)) :=
    apart_pulled hn hmac fun i hi => .inl ⟨Nat.zero_le i, by omega⟩
  have hl : (pulled (off + tagRest s off) (tagHdrLen + relayLen - tagRest s off)
      (s.store 0 mac)).Inside lengthOff 2 := inside_of_le (by omega)
  rw [meets_bind, meets_pullAndMerge (s := s.store 0 mac) hn, if_pos rfl, meets_bind, meets_read,
    and_iff_right hl, meets_bind, writeLength, meets_write, length_be16, and_iff_right hl,
    meets_ite]
  have hlength := fun v => hpull.store (a := lengthOff) (l := be16 v) fun k hk =>
    .inr (.inl ⟨by omega, by simpa using hk⟩)
  constructor
  · intro hpos
    have hfour : tagRest s off = 4 := hrest.resolve_right hpos.ne'
    rw [meets_bind, meets_write, meets_pure]
    refine ⟨inside_of_le (by rw [store_len, length_be16]; omega),
      .inr (.lookup htag hrelay ((hlength _).store fun k hk => ?_))⟩
    exact .inr (.inr ⟨hpos, by omega, by simpa using hk⟩)
  · intro _
    exact .inr (.lookup htag hrelay (hlength _))

theorem meets_removeRelayTag :
    Meets removeRelayTag s (fun _ t => PppoeKept .lookup s t) ↔ RelayLookupFits s := by
  rw [removeRelayTag, meets_bind, meets_findTag]
  refine and_congr_right fun h20 => exists_congr fun r => and_congr_right fun htag => ?_
  have hsame := PppoeKept.refl .lookup s
  cases r with
  | none =>
    dsimp only
    rw [meets_pure]
    simpa using hsame
  | some off =>
    dsimp only
    obtain ⟨hoff, hin⟩ := htag.inside
    have hfield : ntohs (load s.mem (off + 2) 2) = field s (off + 2) := rfl
    have hlen : s.Inside (off + 2) 2 := inside_of_le (by
      rw [tagHdrLen] at hin
      omega)
    rw [meets_bind, meets_read, and_iff_right hlen, hfield, meets_ite, meets_pure,
      and_iff_right fun _ => hsame]
    simp only [Option.mem_some_iff, forall_eq', not_lt]
    refine imp_congr_right fun hrelay => ?_
    have hmagic : ntohs (load s.mem (off + tagHdrLen) 2) = field s (off + 4) := rfl
    rw [meets_bind, meets_read, inside_iff (by decide), hmagic, meets_ite, meets_pure,
      and_iff_right fun _ => hsame, not_not]
    refine and_congr_right fun _ => imp_congr_right fun _ => ?_
    rw [meets_bind, meets_read, inside_iff (by decide)]
    constructor
    · rintro ⟨hend, -⟩
      exact hend
    · intro hend
      refine ⟨hend, ?_⟩
      rw [meets_bind, meets_write, length_load]
      exact ⟨inside_of_le (by omega), meets_takeOut htag hrelay hend (length_load _ _ _)⟩

end Lookup

theorem meets_handlePppoe {env : Env} {m : Method} {s : Buf Byte} (h : 14 ≤ s.len) :
    Meets (handlePppoe env m) s (fun _ t => PppoeKept m s t) ↔ PppoeFits env m s := by
  have hsame := PppoeKept.refl m s
  have hsid : ntohs (load s.mem (ethHlen + 2) 2) = field s 16 := rfl
  have hcode : s.mem (ethHlen + 1) = s.mem 15 := rfl
  have hsa : s.Inside 6 6 := inside_of_le (by omega)
  unfold handlePppoe
  cases m with
  | check =>
    dsimp only
    rw [meets_bind, meets_read, inside_iff (by decide), meets_ite, meets_pure, meets_pure]
    constructor
    · rintro ⟨h18, -⟩
      exact ⟨fun _ => h18, by simp, by simp⟩
    · intro hf
      exact ⟨hf.check rfl, fun _ => hsame, fun _ => hsame⟩
  | parse =>
    refine iff_of_true ?_ ⟨by simp, by simp, by simp⟩
    exact hsame
  | insert =>
    dsimp only
    rw [meets_bind, meets_read, inside_iff (by decide), hsid, meets_ite, meets_bind, meets_cell,
      hcode]
    constructor
    · rintro ⟨h18, hdisc, -⟩
      refine ⟨by simp, fun _ => ⟨h18, fun hzero hreq hadd => ?_⟩, by simp⟩
      have hrelay := (hdisc hzero).2
      rw [if_pos hreq, if_pos hadd] at hrelay
      exact meets_insertRelayTag.mp hrelay
    · intro hf
      obtain ⟨h18, hrelay⟩ := hf.insert rfl
      refine ⟨h18, fun hzero => ⟨by rw [ethHlen]; omega, ?_⟩, fun _ => ?_⟩
      · by_cases hreq : isRequest (s.mem 15) = true
        · rw [if_pos hreq]
          by_cases hadd : env.addPPPoETag = true
          · rw [if_pos hadd]
            exact meets_insertRelayTag.mpr (hrelay hzero hreq hadd)
          · rw [if_neg hadd, meets_bind, meets_read, meets_ite]
            exact ⟨hsa, fun _ => hsame, fun _ => hsame⟩
        · rw [if_neg hreq]
          exact hsame
      · rw [meets_bind, meets_read, meets_bind, meets_insert h]
        exact ⟨inside_of_le (by omega), hsame⟩
  | lookup =>
    dsimp only
    have hda : ∀ i < 6, MacFields s .pppoe .lookup i := fun i hi => ⟨Nat.zero_le i, by omega⟩
    have hrep := fun addr => @apart_replaced env s _ addr hda
    rw [meets_bind, meets_cell, hcode]
    constructor
    · rintro ⟨h16, hrest⟩
      refine ⟨by simp, by simp, fun _ => ⟨h16, fun hreply hadd => ?_, fun hreply => ?_⟩⟩
      · rw [if_pos hreply, if_pos hadd] at hrest
        exact meets_removeRelayTag.mp hrest
      · rw [if_neg (by simp [hreply]), meets_bind, meets_read, inside_iff (by decide)] at hrest
        exact hrest.1
    · intro hf
      obtain ⟨h16, hrelay, hsession⟩ := hf.lookup rfl
      refine ⟨h16, ?_⟩
      by_cases hreply : isReply (s.mem 15) = true
      · rw [if_pos hreply]
        by_cases hadd : env.addPPPoETag = true
        · rw [if_pos hadd]
          exact meets_removeRelayTag.mpr (hrelay hreply hadd)
        · rw [if_neg hadd, meets_ite, meets_bind]
          refine ⟨fun _ => hsame, fun _ => ?_⟩
          exact (meets_writeDa h (.refl _ s) hda (by simp)).mono fun _ _ hkept => .inl hkept
      · have h18 := hsession (by simpa using hreply)
        rw [if_neg hreply, meets_bind, meets_read, inside_iff (by decide), hsid, meets_ite]
        refine ⟨h18, fun _ => ?_, fun _ => hsame⟩
        rw [meets_bind, meets_read, meets_bind, meets_lookup h]
        exact ⟨hsa, .inl (hrep _)⟩

end Rtl8821cu.Nat25Handle
