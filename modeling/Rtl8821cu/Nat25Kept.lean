import Rtl8821cu.Nat25Handle

/-! What `nat25_db_handle` (`core/rtw_br_ext.c`) may change of a packet: addresses of stations, and
the relay tag of a PPPoE discovery packet. -/
namespace Rtl8821cu.Nat25Handle
open Guard Store Bytes Nat25Pppoe

/-- The packet is the same but for some bytes. -/
structure Apart (fields : ℕ → Prop) (s t : Buf Byte) : Prop where
  len : t.len = s.len
  mem : ∀ i < s.len, ¬fields i → t.mem i = s.mem i

/-- One of the `n` bytes from `a` on. -/
def Within (a n i : ℕ) : Prop := a ≤ i ∧ i < a + n

/-- The packet without `n` of its bytes, from `a` on. -/
def cut (a n : ℕ) (s : Buf Byte) : Buf Byte :=
  ⟨fun i => if i < a then s.mem i else s.mem (i + n), s.len - n, s.room + n⟩

/-- A 16-bit field of a packet. -/
def field (s : Buf Byte) (a : ℕ) : ℕ := getBe16 (load s.mem a 2) 0

/-- The headers that are told apart, with their places where these differ. -/
inductive Header
  | ip
  | arp
  | ipx (b : ℕ)
  | aarp (b : ℕ)
  | ddp (b : ℕ)
  | pppoe
  | ipv6
  | other

/-- The header behind an 802.2 or SNAP header. -/
def snapHeader (s : Buf Byte) : Header :=
  if load s.mem 14 2 = ipxHeader then .ipx 14
  else if s.mem 14 = 0xaa then
    if load s.mem 17 5 = ipxSnapId then .ipx 22
    else if load s.mem 17 5 = aarpSnapId then .aarp 22
    else if load s.mem 17 5 = ddpSnapId then .ddp 22
    else .other
  else if s.mem 14 = 0xe0 ∧ load s.mem 17 2 = ipxHeader then .ipx 17
  else .other

/-- The header of a packet. -/
def header (env : Env) (s : Buf Byte) : Header :=
  if field s 12 = 0x0800 then .ip
  else if field s 12 = 0x0806 then .arp
  else if env.kernelBefore515 ∧ field s 12 = 0x8137 then .ipx 14
  else if env.kernelBefore515 ∧ (field s 12 = 0x809b ∨ field s 12 = 0x80f3) then snapHeader s
  else if field s 12 = 0x8863 ∨ field s 12 = 0x8864 then .pppoe
  else if field s 12 = 0x86dd then .ipv6
  else .other

/-- The lengths of the addresses of an ARP packet. -/
def arHln (s : Buf Byte) : ℕ := (s.mem 18).toNat

def arPln (s : Buf Byte) : ℕ := (s.mem 19).toNat

/-- The options of an ND message, `len` bytes from `data` on, lie in the packet up to one of 8 bytes
of a type, or to the end; `r` is where the address in it is. -/
inductive Options (s : Buf Byte) (tag : Byte) : ℕ → ℕ → Option ℕ → Prop
  | done (data : ℕ) : Options s tag data 0 none
  | found {data len : ℕ} (hin : data + 2 ≤ s.len)
      (h : s.mem data = tag ∧ s.mem (data + 1) = 1 ∧ 8 ≤ len) :
      Options s tag data len (some (data + 2))
  | skip {data len : ℕ} {r : Option ℕ} (hpos : 0 < len) (hin : data + 2 ≤ s.len)
      (h : ¬(s.mem data = tag ∧ s.mem (data + 1) = 1 ∧ 8 ≤ len))
      (rest : Options s tag (data + (s.mem (data + 1)).toNat * 8)
        (len - (s.mem (data + 1)).toNat * 8) r) : Options s tag data len r

/-- The tags of a PPPoE packet, `length` bytes without the first `pos`, lie in the packet up to the
first one of a type; `r` is where it is. -/
inductive Tags (s : Buf Byte) (length type : ℕ) : ℕ → Option ℕ → Prop
  | done {pos : ℕ} (h : length ≤ pos) : Tags s length type pos none
  | found {pos : ℕ} (h : pos < length) (hin : tagOff + pos + tagHdrLen ≤ s.len)
      (htype : field s (tagOff + pos) = type) : Tags s length type pos (some (tagOff + pos))
  | skip {pos : ℕ} {r : Option ℕ} (h : pos < length) (hin : tagOff + pos + tagHdrLen ≤ s.len)
      (htype : field s (tagOff + pos) ≠ type)
      (rest : Tags s length type (pos + (tagHdrLen + field s (tagOff + pos + 2))) r) :
      Tags s length type pos r

/-- The relay tag of a PPPoE packet. -/
def RelayTag (s : Buf Byte) (r : Option ℕ) : Prop := Tags s (field s lengthOff) pttRelaySid 0 r

/-- The packet without its relay tag. -/
def withoutTag (s : Buf Byte) : Option ℕ → Buf Byte
  | none => s
  | some off => cut off (tagHdrLen + field s (off + 2)) s

/-- The address of a station in an ND message. -/
def NdAddress (s : Buf Byte) (a : ℕ) : Prop :=
  ∃ off tag, ndOptions (s.mem icmp6Off) = some (off, tag) ∧
    Options s tag (icmp6Off + off) (s.len - icmp6Off - off) (some a)

/-- The addresses of stations that a method rewrites; the ICMPv6 checksum goes with the address that
it covers. -/
def MacFields (s : Buf Byte) : Header → Method → ℕ → Prop
  | .ip, .lookup => Within 0 6
  | .arp, .insert => Within 22 (arHln s)
  | .arp, .lookup => fun i => Within 0 6 i ∨ Within (22 + (arHln s + arPln s)) (arHln s) i
  | .ipx b, .insert => Within (b + 22) 6
  | .ipx b, .lookup => fun i => Within 0 6 i ∨ Within (b + 10) 6 i
  | .aarp b, .insert => Within (b + 8) 6
  | .aarp b, .lookup => fun i => Within 0 6 i ∨ Within (b + 18) 6 i
  | .ddp _, .lookup => Within 0 6
  | .pppoe, .lookup => Within 0 6
  | .ipv6, .insert => fun i => ∃ a, NdAddress s a ∧ (Within a 6 i ∨ Within (icmp6Off + 2) 2 i)
  | .ipv6, .lookup => Within 0 6
  | _, _ => fun _ => False

/-- How much of a relay tag stays behind when the part of the driver is taken out of it. -/
def tagRest (s : Buf Byte) (off : ℕ) : ℕ :=
  if relayLen < field s (off + 2) then tagHdrLen else 0

/-- The relay tag of a PPPoE packet is replaced by another one in front of the tags, or the part of
the driver is taken out of it; the length field of the header goes with it. -/
inductive RelayKept (s t : Buf Byte) : Method → Prop
  | insert {r : Option ℕ} (htag : RelayTag s r)
      (hkept : Apart (Within lengthOff 2) (withoutTag s r)
        (cut tagOff (t.len - (withoutTag s r).len) t))
      (hnew : (withoutTag s r).len < t.len → field t tagOff = pttRelaySid) :
      RelayKept s t .insert
  | lookup {off : ℕ} (htag : RelayTag s (some off)) (hlen : relayLen ≤ field s (off + 2))
      (hkept : Apart
        (fun i => Within 0 6 i ∨ Within lengthOff 2 i ∨ 0 < tagRest s off ∧ Within (off + 2) 2 i)
        (cut (off + tagRest s off) (tagHdrLen + relayLen - tagRest s off) s) t) :
      RelayKept s t .lookup

/-- What a method leaves of a packet. -/
def Kept (env : Env) (m : Method) (s t : Buf Byte) : Prop :=
  Apart (MacFields s (header env s) m) s t ∨ header env s = .pppoe ∧ RelayKept s t m

/-- `nat25_db_handle` ends, stays inside of the packet and changes only what it may. -/
def Confined (env : Env) (method : ℤ) (s : Buf Byte) : Prop :=
  ∃ turns, Meets (nat25DbHandle env turns method) s fun _ t =>
    match methodOf method with
    | none => t = s
    | some m => Kept env m s t

end Rtl8821cu.Nat25Handle
