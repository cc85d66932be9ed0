import Rtl8821cu.Nat25Pppoe

/-! The relay tag of PPPoE discovery: what `NAT25_INSERT` and `NAT25_LOOKUP` make of a frame with a
well-formed tag list. -/
namespace Rtl8821cu.Nat25Pppoe
open Bytes

section Layout

variable {a b b' c : List (BitVec 8)}

theorem overwrite_append {off : ℕ} (ha : a.length = off) (hb : b'.length = b.length) :
    overwrite (a ++ (b ++ c)) off b' = a ++ (b' ++ c) := by
  subst ha
  rw [overwrite, hb, List.take_left' rfl, ← List.append_assoc a b c,
    List.drop_left' (by simp), List.append_assoc]

theorem setLength_append {n v : ℕ} (ha : a.length = lengthOff) :
    setLength (a ++ (be16 n ++ c)) v = a ++ (be16 (v % 65536) ++ c) :=
  overwrite_append ha rfl

theorem length_tagBytes (t : Tag) : t.bytes.length = tagHdrLen + t.value.length := by
  simp [Tag.bytes, tagHdrLen]
  omega

@[simp] theorem tagsBytes_nil : tagsBytes [] = [] := rfl

@[simp] theorem tagsBytes_cons (t : Tag) (l : List Tag) :
    tagsBytes (t :: l) = t.bytes ++ tagsBytes l := rfl

@[simp] theorem tagsBytes_append (l l' : List Tag) :
    tagsBytes (l ++ l') = tagsBytes l ++ tagsBytes l' := by
  simp [tagsBytes]

theorem length_hdr (f : Frame) : f.hdr.length = lengthOff := by
  simp [Frame.hdr, lengthOff]

end Layout

section Find

variable {a c : List (BitVec 8)} {type : ℕ}

/-- The type and length of a tag at its place. -/
theorem getBe16_tag {off : ℕ} (ha : a.length = off) (t : Tag) (ht : t.value.length < 65536) :
    getBe16 (a ++ (t.bytes ++ c)) off = t.type.toNat ∧
      getBe16 (a ++ (t.bytes ++ c)) (off + 2) = t.value.length := by
  have h1 : a ++ (t.bytes ++ c) =
      a ++ (be16 t.type.toNat ++ (be16 t.value.length ++ t.value ++ c)) := by
    simp [Tag.bytes]
  have h2 : a ++ (t.bytes ++ c) =
      (a ++ be16 t.type.toNat) ++ (be16 t.value.length ++ (t.value ++ c)) := by
    simp [Tag.bytes]
  constructor
  · rw [h1]
    exact getBe16_be16 t.type.isLt _ _ ha
  · rw [h2]
    exact getBe16_be16 ht _ _ (by simp [ha])

/-- The search walks over the tags of other types. -/
theorem findTagLoop_skip (l : List Tag) (hl : ∀ t ∈ l, t.value.length < 65536)
    (hne : ∀ t ∈ l, t.type.toNat ≠ type) {length pos : ℕ} (ha : a.length = tagOff + pos)
    (hlen : pos + (tagsBytes l).length ≤ length) :
    findTagLoop (a ++ (tagsBytes l ++ c)) length type pos =
      findTagLoop (a ++ (tagsBytes l ++ c)) length type (pos + (tagsBytes l).length) := by
  induction l generalizing a pos with
  | nil => simp
  | cons t l ih =>
    have hbytes := length_tagBytes t
    rw [tagsBytes_cons, List.length_append] at hlen
    obtain ⟨htype, hvalue⟩ := getBe16_tag (c := tagsBytes l ++ c) ha t (hl t (by simp))
    have ha' : (a ++ t.bytes).length = tagOff + (pos + t.bytes.length) := by
      rw [List.length_append, ha, add_assoc]
    have hnext := ih (fun x hx => hl x (by simp [hx])) (fun x hx => hne x (by simp [hx])) ha'
      (by omega)
    rw [List.append_assoc] at hnext
    rw [tagsBytes_cons, List.append_assoc, findTagLoop, if_pos (by unfold tagHdrLen at hbytes; omega)]
    dsimp only
    rw [htype, if_neg (hne t (by simp)), hvalue, show pos + tagHdrLen + t.value.length =
      pos + t.bytes.length by omega, hnext, List.length_append, add_assoc]

variable {f : Frame}

/-- A frame as its parts up to a list of tags and the rest. -/
theorem Frame.bytes_tags (f : Frame) (l l' : List Tag) (h : f.tags = l ++ l') :
    f.bytes = (f.hdr ++ be16 (tagsBytes f.tags).length) ++
      (tagsBytes l ++ (tagsBytes l' ++ f.trailer)) := by
  simp [Frame.bytes, h, List.append_assoc]

/-- A frame as its parts before a tag, the tag and the rest. -/
theorem Frame.bytes_at (f : Frame) {l l' : List Tag} {t : Tag} (h : f.tags = l ++ t :: l') :
    f.bytes = (f.hdr ++ be16 (tagsBytes f.tags).length ++ tagsBytes l) ++
      (t.bytes ++ (tagsBytes l' ++ f.trailer)) := by
  simp [Frame.bytes, h, List.append_assoc]

theorem Frame.getBe16_length (f : Frame) (h : (tagsBytes f.tags).length < 65536) :
    getBe16 f.bytes lengthOff = (tagsBytes f.tags).length :=
  getBe16_be16 h _ _ (length_hdr f)

theorem value_lt_of_mem {l : List Tag} (h : (tagsBytes l).length < 65536) {t : Tag} (ht : t ∈ l) :
    t.value.length < 65536 := by
  obtain ⟨l1, l2, rfl⟩ := List.append_of_mem ht
  have := length_tagBytes t
  rw [tagsBytes_append, tagsBytes_cons, List.length_append, List.length_append] at h
  omega

/-- The first tag of a type is found. -/
theorem nat25FindPppoeTag_some {l l' : List Tag} {t : Tag} (htags : f.tags = l ++ t :: l')
    (hlen : (tagsBytes f.tags).length < 65536) (hne : ∀ x ∈ l, x.type.toNat ≠ type)
    (ht : t.type.toNat = type) :
    nat25FindPppoeTag f.bytes type = some (tagOff + (tagsBytes l).length) := by
  have hsplit := f.bytes_tags l (t :: l') htags
  have hall : ∀ x ∈ f.tags, x.value.length < 65536 := fun x hx => value_lt_of_mem hlen hx
  have hlength := f.getBe16_length hlen
  have hbytes := length_tagBytes t
  have htotal : (tagsBytes f.tags).length =
      (tagsBytes l).length + (t.bytes.length + (tagsBytes l').length) := by
    simp [htags]
  have hhead : (f.hdr ++ be16 (tagsBytes f.tags).length).length = tagOff + 0 := by
    rw [List.length_append, length_hdr]
    rfl
  have hskip := findTagLoop_skip (c := tagsBytes (t :: l') ++ f.trailer) l
    (fun x hx => hall x (by simp [htags, hx])) hne hhead
    (show 0 + (tagsBytes l).length ≤ (tagsBytes f.tags).length by omega)
  rw [← hsplit, zero_add] at hskip
  have hat : (f.hdr ++ be16 (tagsBytes f.tags).length ++ tagsBytes l).length =
      tagOff + (tagsBytes l).length := by
    rw [List.length_append, hhead, add_zero]
  obtain ⟨htype, -⟩ := getBe16_tag (c := tagsBytes l' ++ f.trailer) hat t
    (hall t (by simp [htags]))
  rw [nat25FindPppoeTag, hlength, hskip, findTagLoop,
    if_pos (by unfold tagHdrLen at hbytes; omega)]
  dsimp only
  rw [f.bytes_at htags, htype, if_pos ht]

/-- Without a tag of the type the search ends at the end of the tags. -/
theorem nat25FindPppoeTag_none (hlen : (tagsBytes f.tags).length < 65536)
    (hne : ∀ x ∈ f.tags, x.type.toNat ≠ type) : nat25FindPppoeTag f.bytes type = none := by
  have hsplit := f.bytes_tags f.tags [] (by simp)
  have hhead : (f.hdr ++ be16 (tagsBytes f.tags).length).length = tagOff + 0 := by
    rw [List.length_append, length_hdr]
    rfl
  have hskip := findTagLoop_skip (c := tagsBytes [] ++ f.trailer) f.tags
    (fun x hx => value_lt_of_mem hlen hx) hne hhead
    (show 0 + (tagsBytes f.tags).length ≤ (tagsBytes f.tags).length by omega)
  rw [← hsplit, zero_add] at hskip
  rw [nat25FindPppoeTag, f.getBe16_length hlen, hskip, findTagLoop, if_neg (by omega)]

end Find

section Edit

variable {a b c : List (BitVec 8)} {tailroom : ℕ}

theorem skbPullAndMerge_append {off len : ℕ} (ha : a.length = off) (hb : b.length = len) :
    skbPullAndMerge ⟨a ++ (b ++ c), tailroom⟩ off len = some ⟨a ++ c, tailroom + len⟩ := by
  have hfit : ¬(off + len > (a ++ (b ++ c)).length ∨ (a ++ (b ++ c)).length < len) := by
    rw [List.length_append, List.length_append]
    omega
  rw [skbPullAndMerge, if_neg hfit, List.take_left' ha, ← List.append_assoc,
    List.drop_left' (by rw [List.length_append, ha, hb])]

theorem map_tagBuf (tag : List (BitVec 8)) (stack : ℕ → BitVec 8) :
    (List.range tag.length).map (tagBuf tag stack) = tag := by
  apply List.ext_getElem
  · simp
  · intro i _ hi
    simp [tagBuf, List.getD_eq_getElem?_getD, hi]

/-- `__nat25_add_pppoe_tag` puts as many bytes before the tags as it takes the tag for. -/
theorem nat25AddPppoeTag_eq (host : Host) (f : Frame) (hlen : (tagsBytes f.tags).length < 65536)
    (tagLen : ℕ) (tagMem room : ℕ → BitVec 8)
    (hroom : host.raw tagLen + tagHdrLen ≤ tailroom) :
    ∃ trailer, nat25AddPppoeTag host ⟨f.bytes, tailroom⟩ tagLen tagMem room =
      some ⟨f.hdr ++ (be16 (((tagsBytes f.tags).length + (host.raw tagLen + tagHdrLen)) % 65536) ++
        ((List.range (host.raw tagLen + tagHdrLen)).map tagMem ++ (tagsBytes f.tags ++ trailer))),
        tailroom - (host.raw tagLen + tagHdrLen)⟩ := by
  unfold nat25AddPppoeTag
  generalize host.raw tagLen + tagHdrLen = d at hroom ⊢
  have hhead : (f.hdr ++ be16 (tagsBytes f.tags).length).length = tagOff := by
    rw [List.length_append, length_hdr]
    rfl
  have hdata : f.bytes = (f.hdr ++ be16 (tagsBytes f.tags).length) ++
      (tagsBytes f.tags ++ f.trailer) := by
    rw [Frame.bytes, List.append_assoc]
  have hmoved : (f.bytes.drop tagOff).take (tagsBytes f.tags).length = tagsBytes f.tags := by
    rw [hdata, List.drop_left' hhead, List.take_left' rfl]
  have hput : ((tagsBytes f.tags ++ f.trailer) ++ (List.range d).map room).length =
      (tagsBytes f.tags).length + f.trailer.length + d := by
    simp only [List.length_append, List.length_map, List.length_range]
  refine ⟨((tagsBytes f.tags ++ f.trailer) ++ (List.range d).map room).drop
    (d + (tagsBytes f.tags).length), ?_⟩
  rw [if_neg (by simpa using hroom)]
  dsimp only
  rw [f.getBe16_length hlen, hmoved]
  generalize hX : (tagsBytes f.tags ++ f.trailer) ++ (List.range d).map room = X at hput ⊢
  have hwhole : f.bytes ++ (List.range d).map room =
      (f.hdr ++ be16 (tagsBytes f.tags).length) ++ X := by
    rw [hdata, List.append_assoc, hX]
  have hover : overwrite (f.bytes ++ (List.range d).map room) (tagOff + d) (tagsBytes f.tags) =
      f.hdr ++ (be16 (tagsBytes f.tags).length ++
        (X.take d ++ (tagsBytes f.tags ++ X.drop (d + (tagsBytes f.tags).length)))) := by
    rw [overwrite, hwhole, ← hhead, List.take_length_add_append, add_assoc,
      List.drop_length_add_append]
    simp only [List.append_assoc]
  rw [hover, setLength_append (length_hdr f), ← List.append_assoc, overwrite_append]
  · rw [List.append_assoc]
  · rw [List.length_append, length_hdr]
    rfl
  · simp only [List.length_map, List.length_range, List.length_take, hput]
    omega

end Edit

/-- A Relay-Session-Id tag. -/
def Tag.isRelay (t : Tag) : Bool := t.type.toNat == pttRelaySid

/-- The value of the client's own Relay-Session-Id tag. -/
def Frame.relay (f : Frame) : Option (List (BitVec 8)) := (f.tags.find? Tag.isRelay).map Tag.value

/-- The tag that stands for a client: the magic code, its address and its own value. -/
def relayTag (mac : Mac) (old : List (BitVec 8)) : Tag :=
  ⟨BitVec.ofNat 16 pttRelaySid, be16 magicCode ++ mac.toList ++ old⟩

def Frame.added (f : Frame) : Tag := relayTag f.src (f.relay.getD [])

/-- The frame without the client's own Relay-Session-Id tag. -/
def Frame.bare (f : Frame) : Frame := { f with tags := f.tags.eraseP Tag.isRelay }

/-- The bytes that the client's own tag takes. -/
def Frame.freed (f : Frame) : ℕ := (f.relay.map (tagHdrLen + ·.length)).getD 0

section Insert

variable {f : Frame} {tailroom : ℕ}

theorem isRelay_iff (t : Tag) : t.isRelay = true ↔ t.type.toNat = pttRelaySid := by
  simp [Tag.isRelay]

theorem length_relayTag_value (mac : Mac) (old : List (BitVec 8)) :
    (relayTag mac old).value.length = relayLen + old.length := by
  simp [relayTag, relayLen]
  omega

theorem relayTag_bytes (mac : Mac) (old : List (BitVec 8)) :
    (relayTag mac old).bytes = relayTagBytes mac.toList old := by
  rw [Tag.bytes, length_relayTag_value, relayTagBytes]
  simp [relayTag, pttRelaySid]

theorem Frame.src_eq (f : Frame) : (f.bytes.drop 6).take 6 = f.src.toList := by
  have h : f.bytes = f.dst.toList ++ (f.src.toList ++ (be16 f.proto.toNat ++
      [f.verType, f.code] ++ be16 f.sid.toNat ++ (be16 (tagsBytes f.tags).length ++
        (tagsBytes f.tags ++ f.trailer)))) := by
    simp [Frame.bytes, Frame.hdr]
  rw [h, List.drop_left' (by simp), List.take_left' (by simp)]

/-- The client's own tag, if it has one, is the first of its type. -/
theorem Frame.relay_cases (f : Frame) :
    (f.relay = none ∧ f.tags.eraseP Tag.isRelay = f.tags ∧
      ∀ x ∈ f.tags, x.type.toNat ≠ pttRelaySid) ∨
    ∃ l t l', f.tags = l ++ t :: l' ∧ f.relay = some t.value ∧
      f.tags.eraseP Tag.isRelay = l ++ l' ∧ t.type.toNat = pttRelaySid ∧
        ∀ x ∈ l, x.type.toNat ≠ pttRelaySid := by
  unfold Frame.relay
  rcases hfind : f.tags.find? Tag.isRelay with _ | t
  · have hnone : ∀ x ∈ f.tags, ¬x.isRelay = true := by
      simpa using hfind
    exact Or.inl ⟨rfl, List.eraseP_of_forall_not hnone,
      fun x hx he => hnone x hx ((isRelay_iff x).2 he)⟩
  · obtain ⟨ht, l, l', htags, hl⟩ := List.find?_eq_some_iff_append.1 hfind
    have hl' : ∀ x ∈ l, ¬x.isRelay = true := by
      simpa using hl
    refine Or.inr ⟨l, t, l', htags, rfl, ?_, (isRelay_iff t).1 ht,
      fun x hx he => hl' x hx ((isRelay_iff x).2 he)⟩
    rw [htags, List.eraseP_append_right _ hl', List.eraseP_cons_of_pos ht]

/-- The bytes of the client's own tag are the ones the bare frame lacks. -/
theorem Frame.length_bare (f : Frame) :
    (tagsBytes f.bare.tags).length + f.freed = (tagsBytes f.tags).length := by
  unfold Frame.bare Frame.freed
  rcases f.relay_cases with ⟨hnone, herase, -⟩ | ⟨l, t, l', htags, hsome, herase, -, -⟩
  · simp [hnone, herase]
  · have hbytes := length_tagBytes t
    rw [hsome, herase, htags]
    simp
    omega

/-- `NAT25_INSERT` takes the client's own tag out and puts the relay tag in. -/
theorem nat25Insert_eq (host : Host) (stack room : ℕ → BitVec 8)
    (hlen : (tagsBytes f.tags).length < 65536) (hold : (f.relay.getD []).length ≤ 28) :
    nat25Insert host stack room ⟨f.bytes, tailroom⟩ =
      nat25AddPppoeTag host ⟨f.bare.bytes, tailroom + f.freed⟩
        (relayLen + (f.relay.getD []).length) (tagBuf f.added.bytes stack) room := by
  have hbare := f.length_bare
  unfold Frame.added Frame.freed at *
  unfold nat25Insert
  dsimp only
  rw [f.src_eq, relayTag_bytes]
  rcases f.relay_cases with ⟨hnone, herase, hno⟩ | ⟨l, t, l', htags, hsome, herase, ht, hno⟩
  · rw [nat25FindPppoeTag_none hlen hno]
    simp [hnone, Frame.bare, herase]
  · have hoff : (f.hdr ++ be16 (tagsBytes f.tags).length ++ tagsBytes l).length =
        tagOff + (tagsBytes l).length := by
      rw [List.length_append, List.length_append, length_hdr]
      rfl
    have hbytes := length_tagBytes t
    obtain ⟨-, hvalue⟩ := getBe16_tag (c := tagsBytes l' ++ f.trailer) hoff t
      (value_lt_of_mem hlen (by simp [htags]))
    rw [← f.bytes_at htags] at hvalue
    have hcopy : (f.bytes.drop (tagOff + (tagsBytes l).length + tagHdrLen)).take t.value.length =
        t.value := by
      have h : f.bytes = (f.hdr ++ be16 (tagsBytes f.tags).length ++ tagsBytes l ++
          (be16 t.type.toNat ++ be16 t.value.length)) ++
          (t.value ++ (tagsBytes l' ++ f.trailer)) := by
        rw [f.bytes_at htags, Tag.bytes]
        simp only [List.append_assoc]
      rw [h, List.drop_left' (by rw [List.length_append, hoff]; rfl), List.take_left' rfl]
    have hpull : skbPullAndMerge ⟨f.bytes, tailroom⟩ (tagOff + (tagsBytes l).length)
        (tagHdrLen + t.value.length) =
        some ⟨f.hdr ++ (be16 (tagsBytes f.tags).length ++ (tagsBytes (l ++ l') ++ f.trailer)),
          tailroom + (tagHdrLen + t.value.length)⟩ := by
      rw [f.bytes_at htags, skbPullAndMerge_append hoff hbytes]
      simp
    rw [hsome] at hold hbare ⊢
    simp only [Option.getD_some, Option.map_some] at hold hbare ⊢
    rw [nat25FindPppoeTag_some htags hlen hno ht]
    dsimp only
    rw [hvalue, if_neg (by unfold tagHdrLen relayLen; omega), hcopy, hpull]
    dsimp only
    rw [getBe16_be16 hlen _ _ (length_hdr f), setLength_append (length_hdr f)]
    have hnew : (tagsBytes f.tags).length + 65536 - tagHdrLen - t.value.length =
        (tagsBytes f.bare.tags).length + 65536 := by
      omega
    rw [hnew, Nat.add_mod_right, Nat.mod_eq_of_lt (by omega)]
    simp [Frame.bytes, Frame.bare, herase, Frame.hdr]

end Insert


section Lookup

theorem Frame.overwrite_dst (f : Frame) (mac : Mac) :
    overwrite f.bytes 0 mac.toList = ({ f with dst := mac } : Frame).bytes := by
  have h : f.bytes = [] ++ (f.dst.toList ++ (f.src.toList ++ be16 f.proto.toNat ++
      [f.verType, f.code] ++ be16 f.sid.toNat ++ (be16 (tagsBytes f.tags).length ++
        (tagsBytes f.tags ++ f.trailer)))) := by
    simp [Frame.bytes, Frame.hdr]
  rw [h, overwrite_append List.length_nil (by simp)]
  simp [Frame.bytes, Frame.hdr]

variable {r : Frame} {l l' : List Tag} {mac : Mac} {old : List (BitVec 8)}

/-- What a reply holds where its relay tag is found. -/
theorem relayTag_fields (htags : r.tags = l ++ relayTag mac old :: l')
    (hlen : (tagsBytes r.tags).length < 65536) :
    getBe16 r.bytes (tagOff + (tagsBytes l).length + 2) = relayLen + old.length ∧
      getBe16 r.bytes (tagOff + (tagsBytes l).length + tagHdrLen) = magicCode ∧
        (r.bytes.drop (tagOff + (tagsBytes l).length + tagHdrLen + 2)).take 6 = mac.toList := by
  have hoff : (r.hdr ++ be16 (tagsBytes r.tags).length ++ tagsBytes l).length =
      tagOff + (tagsBytes l).length := by
    rw [List.length_append, List.length_append, length_hdr]
    rfl
  obtain ⟨-, hvalue⟩ := getBe16_tag (c := tagsBytes l' ++ r.trailer) hoff (relayTag mac old)
    (value_lt_of_mem hlen (by simp [htags]))
  rw [← r.bytes_at htags, length_relayTag_value] at hvalue
  have hsplit : r.bytes = (r.hdr ++ be16 (tagsBytes r.tags).length ++ tagsBytes l ++
      (be16 pttRelaySid ++ be16 (relayLen + old.length))) ++
      (be16 magicCode ++ (mac.toList ++ (old ++ (tagsBytes l' ++ r.trailer)))) := by
    rw [r.bytes_at htags, relayTag_bytes, relayTagBytes]
    simp only [List.append_assoc]
  refine ⟨hvalue, ?_, ?_⟩
  · rw [hsplit]
    exact getBe16_be16 (by decide) _ _ (by rw [List.length_append, hoff]; rfl)
  · rw [hsplit, ← List.append_assoc, List.drop_left', List.take_left' (by simp)]
    rw [List.length_append, List.length_append, hoff]
    rfl

/-- The tag goes when the client had put nothing into it. -/
theorem pull_whole_tag (htags : r.tags = l ++ relayTag mac [] :: l')
    (hlen : (tagsBytes r.tags).length < 65536) (tailroom : ℕ) :
    ∃ skb, skbPullAndMerge ⟨r.bytes, tailroom⟩ (tagOff + (tagsBytes l).length)
        (tagHdrLen + relayLen) = some skb ∧
      setLength skb.data (getBe16 skb.data lengthOff + 65536 - (tagHdrLen + relayLen)) =
        ({ r with tags := l ++ l' } : Frame).bytes := by
  have hoff : (r.hdr ++ be16 (tagsBytes r.tags).length ++ tagsBytes l).length =
      tagOff + (tagsBytes l).length := by
    rw [List.length_append, List.length_append, length_hdr]
    rfl
  have hbytes := length_tagBytes (relayTag mac [])
  rw [length_relayTag_value, List.length_nil, add_zero] at hbytes
  have htotal : (tagsBytes r.tags).length =
      (tagsBytes (l ++ l')).length + (tagHdrLen + relayLen) := by
    simp [htags, hbytes]
    omega
  rw [r.bytes_at htags, skbPullAndMerge_append hoff hbytes]
  refine ⟨_, rfl, ?_⟩
  dsimp only
  rw [List.append_assoc, List.append_assoc, getBe16_be16 hlen _ _ (length_hdr r),
    setLength_append (length_hdr r), htotal, show (tagsBytes (l ++ l')).length +
      (tagHdrLen + relayLen) + 65536 - (tagHdrLen + relayLen) =
        (tagsBytes (l ++ l')).length + 65536 by omega, Nat.add_mod_right,
    Nat.mod_eq_of_lt (by omega)]
  simp [Frame.bytes, Frame.hdr]

/-- The magic code and the address go when the client had put something into the tag. -/
theorem pull_relay_value (htags : r.tags = l ++ relayTag mac old :: l')
    (hlen : (tagsBytes r.tags).length < 65536) (tailroom : ℕ) :
    ∃ skb, skbPullAndMerge ⟨r.bytes, tailroom⟩ (tagOff + (tagsBytes l).length + tagHdrLen)
        relayLen = some skb ∧
      overwrite (setLength skb.data (getBe16 skb.data lengthOff + 65536 - relayLen))
          (tagOff + (tagsBytes l).length + 2) (be16 old.length) =
        ({ r with tags := l ++ ⟨BitVec.ofNat 16 pttRelaySid, old⟩ :: l' } : Frame).bytes := by
  have hoff : (r.hdr ++ be16 (tagsBytes r.tags).length ++ tagsBytes l).length =
      tagOff + (tagsBytes l).length := by
    rw [List.length_append, List.length_append, length_hdr]
    rfl
  have htotal : (tagsBytes r.tags).length =
      (tagsBytes (l ++ ⟨BitVec.ofNat 16 pttRelaySid, old⟩ :: l')).length + relayLen := by
    simp [htags, length_tagBytes, length_relayTag_value]
    omega
  have hsplit : r.bytes = (r.hdr ++ be16 (tagsBytes r.tags).length ++ tagsBytes l ++
      (be16 pttRelaySid ++ be16 (relayLen + old.length))) ++
      ((be16 magicCode ++ mac.toList) ++ (old ++ (tagsBytes l' ++ r.trailer))) := by
    rw [r.bytes_at htags, relayTag_bytes, relayTagBytes]
    simp only [List.append_assoc]
  rw [hsplit, skbPullAndMerge_append (by rw [List.length_append, hoff]; rfl) (by simp; rfl)]
  refine ⟨_, rfl, ?_⟩
  dsimp only
  simp only [List.append_assoc]
  rw [getBe16_be16 hlen _ _ (length_hdr r), setLength_append (length_hdr r), htotal,
    show ∀ n, n + relayLen + 65536 - relayLen = n + 65536 by intro n; omega, Nat.add_mod_right,
    Nat.mod_eq_of_lt (by omega)]
  generalize hn : (tagsBytes (l ++ ⟨BitVec.ofNat 16 pttRelaySid, old⟩ :: l')).length = n
  have hplace : (r.hdr ++ be16 n ++ tagsBytes l ++ be16 pttRelaySid).length =
      tagOff + (tagsBytes l).length + 2 := by
    simp only [List.length_append, length_hdr, length_be16]
    rfl
  have hover : overwrite (r.hdr ++ be16 n ++ tagsBytes l ++ be16 pttRelaySid ++
      (be16 (relayLen + old.length) ++ (old ++ (tagsBytes l' ++ r.trailer))))
      (tagOff + (tagsBytes l).length + 2) (be16 old.length) =
        r.hdr ++ be16 n ++ tagsBytes l ++ be16 pttRelaySid ++
          (be16 old.length ++ (old ++ (tagsBytes l' ++ r.trailer))) :=
    overwrite_append hplace rfl
  simp only [List.append_assoc] at hover
  rw [hover, Frame.bytes, hn]
  simp [Frame.hdr, Tag.bytes, pttRelaySid]

/-- `NAT25_LOOKUP` of a reply with a relay tag: the client is addressed, and the tag keeps what the
client had put into it, if that is anything. -/
theorem nat25Lookup_eq (htags : r.tags = l ++ relayTag mac old :: l')
    (hlen : (tagsBytes r.tags).length < 65536)
    (hno : ∀ x ∈ l, x.type.toNat ≠ pttRelaySid) (tailroom : ℕ) :
    ∃ room, nat25Lookup ⟨r.bytes, tailroom⟩ =
      some ⟨({ r with
        dst := mac
        tags := l ++ ((if old = [] then [] else [⟨BitVec.ofNat 16 pttRelaySid, old⟩]) ++ l') } :
          Frame).bytes, room⟩ := by
  obtain ⟨hvalue, hmagic, hmac⟩ := relayTag_fields htags hlen
  have hfind := nat25FindPppoeTag_some htags hlen hno (t := relayTag mac old) rfl
  unfold nat25Lookup
  dsimp only
  rw [hfind]
  dsimp only
  rw [hvalue, if_neg (by omega), hmagic, if_neg (by simp), hmac, r.overwrite_dst]
  rcases eq_or_ne old [] with rfl | hold
  · obtain ⟨skb, hpull, hdata⟩ := pull_whole_tag (r := { r with dst := mac }) htags hlen tailroom
    simp only [List.length_nil, add_zero, lt_irrefl, if_false, Nat.sub_zero]
    rw [hpull]
    dsimp only
    rw [hdata]
    exact ⟨_, rfl⟩
  · obtain ⟨skb, hpull, hdata⟩ := pull_relay_value (r := { r with dst := mac }) htags hlen tailroom
    have hpos : 0 < old.length := List.length_pos_of_ne_nil hold
    rw [if_pos (by omega), Nat.add_sub_cancel_left, hpull]
    dsimp only
    rw [if_pos (by decide), Nat.add_sub_cancel_left, hdata, if_neg hold]
    exact ⟨_, rfl⟩

end Lookup


/-- The relay tag can be put into a client's frame: its own value fits beside the address, and the
added bytes fit the length field and the tail room. -/
structure Frame.Fits (f : Frame) (tailroom : ℕ) : Prop where
  old : (f.relay.getD []).length ≤ 28
  added : (tagsBytes f.bare.tags).length + f.added.bytes.length < 65536
  room : f.added.bytes.length ≤ tailroom + f.freed

/-- The client's own tag, as the replies to it shall have it. -/
def Frame.restored (f : Frame) : List Tag :=
  f.relay.toList.map fun old => ⟨BitVec.ofNat 16 pttRelaySid, old⟩

/-- The relay tag goes out with a client's frame and comes back with the replies to it. -/
structure RelayRoundTrip (host : Host) (stack room : ℕ → BitVec 8) (f : Frame) (tailroom : ℕ) :
    Prop where
  inserted : ∃ (f' : Frame) (room' : ℕ),
    nat25Insert host stack room ⟨f.bytes, tailroom⟩ = some ⟨f'.bytes, room'⟩ ∧
      f'.hdr = f.hdr ∧ f'.tags.Perm (f.added :: f.tags.eraseP Tag.isRelay)
  removed : ∀ (r : Frame) (l l' : List Tag), r.tags = l ++ f.added :: l' →
    (∀ x ∈ l, x.type.toNat ≠ pttRelaySid) → (tagsBytes r.tags).length < 65536 →
      ∀ tailroom', ∃ room', nat25Lookup ⟨r.bytes, tailroom'⟩ =
        some ⟨({ r with dst := f.src, tags := l ++ (f.restored ++ l') } : Frame).bytes, room'⟩

section RoundTrip

variable {f : Frame} {tailroom : ℕ} {stack room : ℕ → BitVec 8}

theorem length_added (f : Frame) :
    f.added.bytes.length = tagHdrLen + (relayLen + (f.relay.getD []).length) := by
  rw [length_tagBytes, Frame.added, length_relayTag_value]

theorem Frame.Fits.length_tags (h : f.Fits tailroom) : (tagsBytes f.tags).length < 65536 := by
  have hadded := h.added
  have hlength := length_added f
  have hbare := f.length_bare
  unfold Frame.freed at hbare
  rcases hrelay : f.relay with _ | old <;> rw [hrelay] at hbare hlength <;>
    simp at hbare hlength <;> omega

/-- On a big-endian processor the relay tag stands before the other tags. -/
theorem nat25Insert_bigEndian (h : f.Fits tailroom) :
    ∃ trailer room', nat25Insert .bigEndian stack room ⟨f.bytes, tailroom⟩ =
      some ⟨({ f with tags := f.added :: f.tags.eraseP Tag.isRelay, trailer } : Frame).bytes,
        room'⟩ := by
  have hlen := h.length_tags
  have hadded := length_added f
  have hbare := f.length_bare
  obtain ⟨trailer, hadd⟩ := nat25AddPppoeTag_eq .bigEndian f.bare (by omega)
    (relayLen + (f.relay.getD []).length) (tagBuf f.added.bytes stack) room
    (show Host.bigEndian.raw _ + _ ≤ tailroom + f.freed by
      have := h.room
      simp only [Host.raw]
      omega)
  rw [nat25Insert_eq _ _ _ hlen h.old, hadd]
  refine ⟨trailer, _, congrArg some (congrArg (Skb.mk · _) ?_)⟩
  have hfit := h.added
  simp only [Host.raw]
  rw [show relayLen + (f.relay.getD []).length + tagHdrLen = f.added.bytes.length by omega,
    map_tagBuf, Nat.mod_eq_of_lt hfit]
  simp [Frame.bytes, Frame.bare, Frame.hdr, Nat.add_comm]

/-- On a little-endian processor the length field of the frame is wrong. -/
theorem nat25Insert_littleEndian (h : f.Fits tailroom) {f' : Frame} {room' : ℕ}
    (hins : nat25Insert .littleEndian stack room ⟨f.bytes, tailroom⟩ = some ⟨f'.bytes, room'⟩) :
    (tagsBytes f'.tags).length ≠ (tagsBytes f.bare.tags).length + f.added.bytes.length := by
  have hlen := h.length_tags
  have hfit := h.added
  have hold := h.old
  have hadded := length_added f
  have hbare := f.length_bare
  rw [nat25Insert_eq _ _ _ hlen hold] at hins
  have hraw : Host.littleEndian.raw (relayLen + (f.relay.getD []).length) =
      (8 + (f.relay.getD []).length) * 256 := by
    simp only [Host.raw, relayLen]
    omega
  by_cases hroom : Host.littleEndian.raw (relayLen + (f.relay.getD []).length) + tagHdrLen ≤
      tailroom + f.freed
  · obtain ⟨trailer, hadd⟩ := nat25AddPppoeTag_eq .littleEndian f.bare (by omega) _
      (tagBuf f.added.bytes stack) room hroom
    rw [hadd, hraw] at hins
    have hdata := congrArg (fun skb => getBe16 skb.data lengthOff) (Option.some.inj hins)
    dsimp only at hdata
    intro heq
    rw [getBe16_be16 (Nat.mod_lt _ (by norm_num)) _ _ (length_hdr _),
      f'.getBe16_length (by omega), heq, hadded] at hdata
    unfold tagHdrLen relayLen at hdata
    omega
  · rw [nat25AddPppoeTag, if_pos (by simpa using hroom)] at hins
    cases hins

/-- A client's empty tag is not given back. -/
theorem nat25Lookup_empty (hrelay : f.relay = some []) :
    ¬∃ room', nat25Lookup ⟨({ f with tags := [f.added] } : Frame).bytes, 0⟩ =
      some ⟨({ f with dst := f.src, tags := [] ++ (f.restored ++ []) } : Frame).bytes, room'⟩ := by
  rintro ⟨room', h⟩
  have hadded : f.added = relayTag f.src [] := by
    rw [Frame.added, hrelay]
    rfl
  have hlen : (tagsBytes [f.added]).length < 65536 := by
    simp [length_added, hrelay, tagHdrLen, relayLen]
  have htags : ({ f with tags := [f.added] } : Frame).tags = [] ++ relayTag f.src [] :: [] := by
    simp [hadded]
  obtain ⟨room, hlookup⟩ := nat25Lookup_eq htags hlen (by simp) 0
  rw [hlookup] at h
  have hdata := congrArg (fun skb => skb.data.length) (Option.some.inj h)
  simp [Frame.bytes, Frame.hdr, Frame.restored, hrelay, length_tagBytes, tagHdrLen] at hdata

/-- The relay tag makes its round trip exactly on a big-endian processor, for a client that did not
send an empty tag of its own. -/
theorem relay_round_trip_iff (host : Host) (stack room : ℕ → BitVec 8) (f : Frame) (tailroom : ℕ)
    (h : f.Fits tailroom) :
    RelayRoundTrip host stack room f tailroom ↔ host = .bigEndian ∧ f.relay ≠ some [] := by
  constructor
  · rintro ⟨⟨f', room', hins, -, hperm⟩, hremoved⟩
    constructor
    · cases host with
      | bigEndian => rfl
      | littleEndian =>
        refine absurd ?_ (nat25Insert_littleEndian h hins)
        have hbytes := (hperm.flatMap_right Tag.bytes).length_eq
        simpa [tagsBytes, Frame.bare, Nat.add_comm] using hbytes
    · intro hrelay
      refine nat25Lookup_empty hrelay (hremoved { f with tags := [f.added] } [] [] rfl (by simp) ?_ 0)
      simp [length_added, hrelay, tagHdrLen, relayLen]
  · rintro ⟨rfl, hrelay⟩
    refine ⟨?_, fun r l l' htags hno hlen tailroom' => ?_⟩
    · obtain ⟨trailer, room', hins⟩ := nat25Insert_bigEndian h
      exact ⟨_, room', hins, rfl, List.Perm.refl _⟩
    · have hrestored : f.restored = if f.relay.getD [] = [] then []
          else [⟨BitVec.ofNat 16 pttRelaySid, f.relay.getD []⟩] := by
        unfold Frame.restored
        rcases hold : f.relay with _ | old
        · rfl
        · have hne : old ≠ [] := by
            rintro rfl
            exact hrelay hold
          simp [hne]
      rw [hrestored]
      exact nat25Lookup_eq htags hlen hno tailroom'

/-- A PADI for any service. -/
def padi : Frame where
  dst := Mac.broadcast
  src := Mac.ending 1
  proto := 0x8863
  verType := 0x11
  code := 0x09
  sid := 0
  tags := [⟨0x0101, []⟩]
  trailer := []

theorem padi_fits : padi.Fits 12 := by
  constructor <;> decide

theorem relay_round_trip_iff_padi :
    padi.Fits 12 ∧ RelayRoundTrip .bigEndian (fun _ => 0) (fun _ => 0) padi 12 :=
  ⟨padi_fits, (relay_round_trip_iff .bigEndian _ _ padi 12 padi_fits).2 ⟨rfl, by decide⟩⟩

/-- A little-endian processor takes the tag of 12 bytes for one of 2052. -/
theorem littleEndian_insert_fails :
    padi.Fits 12 ∧ nat25Insert .littleEndian (fun _ => 0) (fun _ => 0) ⟨padi.bytes, 12⟩ = none ∧
      ¬RelayRoundTrip .littleEndian (fun _ => 0) (fun _ => 0) padi 12 := by
  have hnone : nat25Insert .littleEndian (fun _ => 0) (fun _ => 0) ⟨padi.bytes, 12⟩ = none := by
    rw [nat25Insert_eq _ _ _ padi_fits.length_tags padi_fits.old, nat25AddPppoeTag]
    exact if_pos (by decide)
  refine ⟨padi_fits, hnone, ?_⟩
  rintro ⟨⟨f', room', hins, -⟩, -⟩
  rw [hnone] at hins
  cases hins

end RoundTrip

end Rtl8821cu.Nat25Pppoe
