import Rtl8821cu.HalmacOfld

/-! The list of channels that the firmware reads: its records, and their decoding. -/
namespace Rtl8821cu.Halmac
open LeWord Store

/-- The fields of a channel's record. -/
structure ChFields where
  channel : BitVec 32
  priChIdx : BitVec 32
  bw : BitVec 32
  timeout : BitVec 32
  actionId : BitVec 32
  deriving DecidableEq

/-- The fields of an extra record, and its data. -/
structure ExtraFields where
  actionId : BitVec 32
  data : List (BitVec 8)
  deriving DecidableEq

/-- What a record keeps of a channel. -/
def ChInfo.fields (info : ChInfo) : ChFields where
  channel := info.channel.setWidth 32 &&& lowMask 8
  priChIdx := info.priChIdx &&& lowMask 4
  bw := info.bw &&& lowMask 4
  timeout := info.timeout.setWidth 32 &&& lowMask 8
  actionId := info.actionId &&& lowMask 7

/-- What a record keeps of extra information. -/
def ChExtraInfo.fields (info : ChExtraInfo) : ExtraFields where
  actionId := info.extraActionId &&& lowMask 7
  data := info.data

/-- The fields of the word of a channel. -/
def chFields (w : BitVec 32) : ChFields where
  channel := getBits w 0 8
  priChIdx := getBits w 8 4
  bw := getBits w 12 4
  timeout := getBits w 16 8
  actionId := getBits w 24 7

/-- The extra records that follow a record: while the bit of the last record is set, one of two
bytes and its data. -/
def decodeExtras : ℕ → Bool → List (BitVec 8) → Option (List ExtraFields × List (BitVec 8))
  | _, false, l => some ([], l)
  | fuel + 1, true, b0 :: b1 :: l =>
    let w := ofBytes b0 b1 0 0
    let size := (getBits w 8 8).toNat
    if l.length < size then none
    else do
      let (extras, rest) ← decodeExtras fuel (w.getLsbD 7) (l.drop size)
      pure (⟨getBits w 0 7, l.take size⟩ :: extras, rest)
  | _, true, _ => none

/-- The channels of a list, each with its extra records. -/
def decodeList : ℕ → List (BitVec 8) → Option (List (ChFields × List ExtraFields))
  | _, [] => some []
  | fuel + 1, b0 :: b1 :: b2 :: b3 :: l => do
    let w := ofBytes b0 b1 b2 b3
    let (extras, rest) ← decodeExtras l.length (w.getLsbD 31) l
    let chs ← decodeList fuel rest
    pure ((chFields w, extras) :: chs)
  | _, _ => none

def ChInfo.record (info : ChInfo) : List (BitVec 8) := bytes (info.word 0)

def ChExtraInfo.record (info : ChExtraInfo) : List (BitVec 8) :=
  (bytes (info.word 0)).take 2 ++ info.data

/-- A channel with its extra records. -/
abbrev ChEntry : Type := ChInfo × List ChExtraInfo

def ChEntry.records (e : ChEntry) : List (BitVec 8) :=
  e.1.record ++ e.2.flatMap ChExtraInfo.record

/-- What the records of a channel keep. -/
def ChEntry.fields (e : ChEntry) : ChFields × List ExtraFields :=
  (e.1.fields, e.2.map ChExtraInfo.fields)

/-- The flags of the records that follow a flag `f`: each but the last is 1, the last is `g`. -/
def Chained : BitVec 8 → List ChExtraInfo → BitVec 8 → Prop
  | f, [], g => f = g
  | f, info :: infos, g => f = 1 ∧ Chained info.extraInfo infos g

/-- The last record of a channel announces no extra record, and each other one does. -/
def ChEntry.Closed (e : ChEntry) : Prop := Chained e.1.extraInfo e.2 0

section Words

theorem getLsbD_field {off len : ℕ} (h : off + len ≤ 32) (w v : BitVec 32) {i : ℕ} (hi : off ≤ i)
    (hi' : i < off + len) : (setBits w off len v).getLsbD i = v.getLsbD (i - off) := by
  rw [getLsbD_setBits (by omega), if_pos (by omega)]

theorem ChInfo.word_fields (info : ChInfo) (w : BitVec 32) : chFields (info.word w) = info.fields := by
  simp (disch := omega) only [chFields, ChInfo.word, ChInfo.fields, getBits_setBits_self,
    getBits_setBits_of_disjoint]

theorem ChInfo.word_extra (info : ChInfo) (w : BitVec 32) :
    (info.word w).getLsbD 31 = info.extraInfo.getLsbD 0 := by
  rw [ChInfo.word, getLsbD_field (by omega) _ _ (by omega) (by omega)]
  simp

/-- The record of a channel covers its word. -/
theorem ChInfo.word_eq (info : ChInfo) (w : BitVec 32) : info.word w = info.word 0 := by
  apply BitVec.eq_of_getLsbD_eq
  intro i hi
  simp (disch := omega) only [ChInfo.word, getLsbD_setBits]
  split_ifs
  all_goals first | rfl | omega

theorem ChExtraInfo.word_size (info : ChExtraInfo) (w : BitVec 32) :
    getBits (info.word w) 8 8 = info.extraInfoSize.setWidth 32 &&& lowMask 8 := by
  rw [ChExtraInfo.word, getBits_setBits_self (by omega)]

theorem ChExtraInfo.word_action (info : ChExtraInfo) (w : BitVec 32) :
    getBits (info.word w) 0 7 = info.extraActionId &&& lowMask 7 := by
  simp (disch := omega) only [ChExtraInfo.word, getBits_setBits_self, getBits_setBits_of_disjoint]

theorem ChExtraInfo.word_extra (info : ChExtraInfo) (w : BitVec 32) :
    (info.word w).getLsbD 7 = info.extraInfo.getLsbD 0 := by
  rw [ChExtraInfo.word, getLsbD_setBits (by omega), if_neg (by omega),
    getLsbD_field (by omega) _ _ (by omega) (by omega)]
  simp

/-- The first word of an extra record covers its low half. -/
theorem ChExtraInfo.getLsbD_word (info : ChExtraInfo) (w : BitVec 32) {i : ℕ} (hi : i < 16) :
    (info.word w).getLsbD i = (info.word 0).getLsbD i := by
  simp (disch := omega) only [ChExtraInfo.word, getLsbD_setBits]
  split_ifs
  all_goals first | rfl | omega

theorem ChExtraInfo.word_high (info : ChExtraInfo) {i : ℕ} (hi : 16 ≤ i) :
    (info.word 0).getLsbD i = false := by
  rw [ChExtraInfo.word, getLsbD_setBits (by omega), if_neg (by omega), getLsbD_setBits (by omega),
    if_neg (by omega), getLsbD_setBits (by omega), if_neg (by omega)]
  simp

theorem ChExtraInfo.take_bytes (info : ChExtraInfo) (w : BitVec 32) :
    (bytes (info.word w)).take 2 = (bytes (info.word 0)).take 2 := by
  have hbyte : ∀ off, off + 8 ≤ 16 →
      (info.word w).extractLsb' off 8 = (info.word 0).extractLsb' off 8 := by
    intro off hoff
    apply BitVec.eq_of_getLsbD_eq
    intro i hi
    rw [BitVec.getLsbD_extractLsb', BitVec.getLsbD_extractLsb', info.getLsbD_word w (by omega)]
  simp [bytes, hbyte]

/-- The two bytes of an extra record give its word. -/
theorem ChExtraInfo.ofBytes_word (info : ChExtraInfo) :
    ofBytes ((info.word 0).extractLsb' 0 8) ((info.word 0).extractLsb' 8 8) 0 0 = info.word 0 := by
  have hzero : ∀ off, 16 ≤ off → (info.word 0).extractLsb' off 8 = 0 := by
    intro off hoff
    apply BitVec.eq_of_getLsbD_eq
    intro i hi
    rw [BitVec.getLsbD_extractLsb', info.word_high (by omega)]
    simp
  have hword := ofBytes_bytes (info.word 0)
  rwa [hzero 16 (by omega), hzero 24 (by omega)] at hword

end Words

section Decode

@[simp] theorem ChExtraInfo.length_data (info : ChExtraInfo) :
    info.data.length = info.extraInfoSize.toNat := by
  simp [ChExtraInfo.data]

@[simp] theorem ChExtraInfo.length_record (info : ChExtraInfo) :
    info.record.length = 2 + info.extraInfoSize.toNat := by
  simp [ChExtraInfo.record]

@[simp] theorem ChInfo.length_record (info : ChInfo) : info.record.length = 4 := rfl

theorem ChExtraInfo.record_eq (info : ChExtraInfo) :
    info.record = (info.word 0).extractLsb' 0 8 :: (info.word 0).extractLsb' 8 8 :: info.data := rfl

theorem ChExtraInfo.size_toNat (info : ChExtraInfo) :
    (getBits (info.word 0) 8 8).toNat = info.extraInfoSize.toNat := by
  rw [info.word_size]
  have hmask : lowMask 8 = 255#32 := by decide
  rw [hmask]
  have hlt := info.extraInfoSize.isLt
  rw [BitVec.toNat_and, BitVec.toNat_setWidth, Nat.mod_eq_of_lt (by omega),
    show (255#32).toNat = 2 ^ 8 - 1 from rfl, Nat.and_two_pow_sub_one_eq_mod,
    Nat.mod_eq_of_lt hlt]

theorem Chained.bit {f : BitVec 8} {infos : List ChExtraInfo} (h : Chained f infos 0) :
    f.getLsbD 0 = !infos.isEmpty := by
  cases infos with
  | nil =>
    obtain rfl : f = 0 := h
    rfl
  | cons info infos =>
    obtain rfl : f = 1 := h.1
    rfl

theorem decodeExtras_records {f : BitVec 8} {infos : List ChExtraInfo} (h : Chained f infos 0)
    {fuel : ℕ} (hfuel : infos.length ≤ fuel) (rest : List (BitVec 8)) :
    decodeExtras fuel (f.getLsbD 0) (infos.flatMap ChExtraInfo.record ++ rest) =
      some (infos.map ChExtraInfo.fields, rest) := by
  induction infos generalizing f fuel with
  | nil =>
    rw [h.bit]
    simp [decodeExtras]
  | cons info infos ih =>
    obtain ⟨fuel, rfl⟩ : ∃ n, fuel = n + 1 := Nat.exists_eq_add_one_of_ne_zero (by
      rintro rfl
      simp at hfuel)
    have htail := ih h.2 (Nat.le_of_succ_le_succ hfuel)
    rw [h.bit, List.flatMap_cons, info.record_eq, List.append_assoc, List.cons_append,
      List.cons_append]
    simp only [List.isEmpty_cons, Bool.not_false, decodeExtras, info.ofBytes_word, info.size_toNat,
      info.word_extra, info.word_action, List.length_append, info.length_data]
    rw [if_neg (by omega), List.drop_left' info.length_data, List.take_left' info.length_data,
      htail]
    rfl

theorem length_le_flatMap_record (infos : List ChExtraInfo) :
    infos.length ≤ (infos.flatMap ChExtraInfo.record).length := by
  induction infos with
  | nil => simp
  | cons info infos ih =>
    rw [List.flatMap_cons, List.length_append, info.length_record, List.length_cons]
    omega

/-- The firmware reads back the channels of a list whose records announce what follows them. -/
theorem decodeList_records {entries : List ChEntry} (h : ∀ e ∈ entries, e.Closed) {fuel : ℕ}
    (hfuel : entries.length ≤ fuel) :
    decodeList fuel (entries.flatMap ChEntry.records) = some (entries.map ChEntry.fields) := by
  induction entries generalizing fuel with
  | nil => simp [decodeList]
  | cons e entries ih =>
    obtain ⟨info, infos⟩ := e
    obtain ⟨fuel, rfl⟩ : ∃ n, fuel = n + 1 := Nat.exists_eq_add_one_of_ne_zero (by
      rintro rfl
      simp at hfuel)
    have htail := ih (fun e he => h e (by simp [he])) (Nat.le_of_succ_le_succ hfuel)
    have hclosed : Chained info.extraInfo infos 0 := h (info, infos) (by simp)
    have hle : infos.length ≤
        (infos.flatMap ChExtraInfo.record ++ entries.flatMap ChEntry.records).length := by
      have hle := length_le_flatMap_record infos
      rw [List.length_append]
      omega
    have hextras := decodeExtras_records hclosed hle (entries.flatMap ChEntry.records)
    rw [List.flatMap_cons, ChEntry.records, List.append_assoc]
    simp only [ChInfo.record, bytes, List.cons_append, List.nil_append, decodeList, ofBytes_bytes,
      info.word_extra, hextras, info.word_fields]
    simp [htail, ChEntry.fields]

end Decode

end Rtl8821cu.Halmac
