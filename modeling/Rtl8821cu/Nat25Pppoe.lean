import Rtl8821cu.LibBytes
import Rtl8821cu.MacAddr

/-! PPPoE discovery through NAT2.5 (`core/rtw_br_ext.c`, with `addPPPoETag` set): a relay tag with
the address of the client is put into its frames, and taken out of the replies. -/
namespace Rtl8821cu.Nat25Pppoe
open Bytes

/-- The byte order of the processor. -/
inductive Host
  | bigEndian
  | littleEndian
  deriving DecidableEq

/-- A 16-bit field as the processor reads it, when its bytes are those of `v` in network order. -/
def Host.raw (host : Host) (v : ℕ) : ℕ :=
  match host with
  | .bigEndian => v
  | .littleEndian => v % 256 * 256 + v / 256 % 256

/-- `PTT_RELAY_SID`, in processor order. -/
def pttRelaySid : ℕ := 0x0110

def tagHdrLen : ℕ := 4

def magicCode : ℕ := 0x8186

/-- `MAGIC_CODE_LEN + RTL_RELAY_TAG_LEN`. -/
def relayLen : ℕ := 2 + 6

/-- Where the length field of the PPPoE header stands in a frame. -/
def lengthOff : ℕ := 18

/-- Where the tags of a frame start. -/
def tagOff : ℕ := 20

/-- A packet: its bytes and the free room behind them. -/
structure Skb where
  data : List (BitVec 8)
  tailroom : ℕ

/-- `memcpy` into a packet. -/
def overwrite (l : List (BitVec 8)) (off : ℕ) (bytes : List (BitVec 8)) : List (BitVec 8) :=
  l.take off ++ bytes ++ l.drop (off + bytes.length)

/-- `ph->length = htons(v)`. -/
def setLength (l : List (BitVec 8)) (v : ℕ) : List (BitVec 8) :=
  overwrite l lengthOff (be16 (v % 65536))

/-- The loop of `__nat25_find_pppoe_tag`, `pos` bytes behind the start of the tags. -/
def findTagLoop (data : List (BitVec 8)) (length type pos : ℕ) : Option ℕ :=
  if pos < length then
    let tagType := getBe16 data (tagOff + pos)
    let tagLen := getBe16 data (tagOff + pos + 2)
    if tagType = type then some (tagOff + pos)
    else findTagLoop data length type (pos + tagHdrLen + tagLen)
  else none
termination_by length - pos
decreasing_by
  unfold tagHdrLen
  omega

def nat25FindPppoeTag (data : List (BitVec 8)) (type : ℕ) : Option ℕ :=
  findTagLoop data (getBe16 data lengthOff) type 0

def skbPullAndMerge (skb : Skb) (off len : ℕ) : Option Skb :=
  if off + len > skb.data.length ∨ skb.data.length < len then none
  else some ⟨skb.data.take off ++ skb.data.drop (off + len), skb.tailroom + len⟩

/-- `__nat25_add_pppoe_tag`. The length field of the tag is read as it stands. `tagMem` is the
memory from the tag on, and `room` what the free room held. -/
def nat25AddPppoeTag (host : Host) (skb : Skb) (tagLen : ℕ) (tagMem room : ℕ → BitVec 8) :
    Option Skb :=
  let dataLen := host.raw tagLen + tagHdrLen
  if skb.tailroom < dataLen then none
  else
    let length := getBe16 skb.data lengthOff
    let data := skb.data ++ (List.range dataLen).map room
    let data := overwrite data (tagOff + dataLen) ((skb.data.drop tagOff).take length)
    let data := setLength data (length + dataLen)
    some ⟨overwrite data tagOff ((List.range dataLen).map tagMem), skb.tailroom - dataLen⟩

/-- The bytes of the relay tag that is put in. -/
def relayTagBytes (src old : List (BitVec 8)) : List (BitVec 8) :=
  be16 pttRelaySid ++ be16 (relayLen + old.length) ++ (be16 magicCode ++ src ++ old)

/-- The memory of `tag_buf` and behind it. -/
def tagBuf (tag : List (BitVec 8)) (stack : ℕ → BitVec 8) (i : ℕ) : BitVec 8 :=
  tag.getD i (stack i)

/-- `NAT25_INSERT` of a PADI or PADR. -/
def nat25Insert (host : Host) (stack room : ℕ → BitVec 8) (skb : Skb) : Option Skb :=
  let src := (skb.data.drop 6).take 6
  match nat25FindPppoeTag skb.data pttRelaySid with
  | some off =>
    let oldTagLen := getBe16 skb.data (off + 2)
    if oldTagLen + tagHdrLen + relayLen > 40 then none
    else
      let old := (skb.data.drop (off + tagHdrLen)).take oldTagLen
      match skbPullAndMerge skb off (tagHdrLen + oldTagLen) with
      | none => none
      | some skb =>
        let length := getBe16 skb.data lengthOff
        let skb := { skb with data := setLength skb.data (length + 65536 - tagHdrLen - oldTagLen) }
        nat25AddPppoeTag host skb (relayLen + oldTagLen) (tagBuf (relayTagBytes src old) stack) room
  | none => nat25AddPppoeTag host skb relayLen (tagBuf (relayTagBytes src []) stack) room

/-- `NAT25_LOOKUP` of a PADO or PADS. -/
def nat25Lookup (skb : Skb) : Option Skb :=
  match nat25FindPppoeTag skb.data pttRelaySid with
  | none => none
  | some off =>
    let tagLen := getBe16 skb.data (off + 2)
    if tagLen < relayLen then none
    else if getBe16 skb.data (off + tagHdrLen) ≠ magicCode then none
    else
      let mac := (skb.data.drop (off + tagHdrLen + 2)).take 6
      let skb := { skb with data := overwrite skb.data 0 mac }
      let offset := if tagLen > relayLen then tagHdrLen else 0
      match skbPullAndMerge skb (off + offset) (tagHdrLen + relayLen - offset) with
      | none => none
      | some skb =>
        let length := getBe16 skb.data lengthOff
        let data := setLength skb.data (length + 65536 - (tagHdrLen + relayLen - offset))
        some { skb with
          data := if offset > 0 then overwrite data (off + 2) (be16 (tagLen - relayLen)) else data }

/-- A tag of a discovery frame. -/
structure Tag where
  type : BitVec 16
  value : List (BitVec 8)

def Tag.bytes (t : Tag) : List (BitVec 8) :=
  be16 t.type.toNat ++ be16 t.value.length ++ t.value

def tagsBytes (l : List Tag) : List (BitVec 8) := l.flatMap Tag.bytes

/-- A discovery frame with a well-formed tag list, and what an Ethernet driver put behind it. -/
structure Frame where
  dst : Mac
  src : Mac
  proto : BitVec 16
  verType : BitVec 8
  code : BitVec 8
  sid : BitVec 16
  tags : List Tag
  trailer : List (BitVec 8)

def Frame.hdr (f : Frame) : List (BitVec 8) :=
  f.dst.toList ++ f.src.toList ++ be16 f.proto.toNat ++ [f.verType, f.code] ++ be16 f.sid.toNat

def Frame.bytes (f : Frame) : List (BitVec 8) :=
  f.hdr ++ (be16 (tagsBytes f.tags).length ++ (tagsBytes f.tags ++ f.trailer))

end Rtl8821cu.Nat25Pppoe
