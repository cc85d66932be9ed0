import Rtl8821cu.LibGuard
import Rtl8821cu.Nat25Pppoe

/-! `nat25_db_handle` (`core/rtw_br_ext.c`) with every protocol, on packets of any length. The
structures of the kernel stand as offsets from `skb->data`. -/
namespace Rtl8821cu.Nat25Handle
open Guard Bytes Nat25Pppoe

abbrev Byte := BitVec 8

abbrev Access := Prog Byte

/-- What the function uses besides the packet: the byte order, whether `RTW_INFO` prints, whether
the kernel is older than 5.15, the addresses of the adapter and of the bridge, the entries of the
data base (an expired one has no address to give), the PPPoE state, the stack behind `tag_buf`, and
the ICMPv6 checksum of the kernel over the addresses and the message. -/
structure Env where
  host : Host
  info : Bool
  kernelBefore515 : Bool
  myHwaddr : Mac
  brMac : Mac
  nethash : List Byte → Option (Option Mac)
  addPPPoETag : Bool
  pppoeConnectionInProgress : ℕ
  pppoeAddr : Mac
  stack : ℕ → Byte
  csumIpv6Magic : List Byte → List Byte → BitVec 16

/-- The methods; others are turned away. -/
inductive Method
  | check
  | insert
  | lookup
  | parse
  deriving DecidableEq

/-- `enum NAT25_METHOD`. -/
def methodOf (method : ℤ) : Option Method :=
  if method = 1 then some .check
  else if method = 2 then some .insert
  else if method = 3 then some .lookup
  else if method = 4 then some .parse
  else none

/-- `ntohs` of a field. -/
def ntohs (field : List Byte) : ℕ := getBe16 field 0

def ethHlen : ℕ := 14

/-- `networkAddr`, filled up to `MAX_NETWORK_ADDR_LEN`. -/
def networkAddr (l : List Byte) : List Byte := l ++ List.replicate (17 - l.length) 0

/-- `__nat25_generate_ipv4_network_addr`. -/
def ipv4NetworkAddr (ip : List Byte) : List Byte := networkAddr ([1] ++ List.replicate 6 0 ++ ip)

/-- `__nat25_generate_ipv6_network_addr`. -/
def ipv6NetworkAddr (ip : List Byte) : List Byte := networkAddr (2 :: ip)

/-- `__nat25_generate_ipx_network_addr_with_node` and `.._with_socket`. -/
def ipxNetworkAddr (net nodeOrSock : List Byte) : List Byte := networkAddr (3 :: net ++ nodeOrSock)

/-- `__nat25_generate_apple_network_addr`. -/
def appleNetworkAddr (network : List Byte) (node : Byte) : List Byte :=
  networkAddr (4 :: network ++ [node])

/-- `__nat25_generate_pppoe_network_addr`. -/
def pppoeNetworkAddr (acMac sid : List Byte) : List Byte := networkAddr (5 :: sid ++ acMac)

/-- What a message of `RTW_INFO` reads. -/
def infoRead (env : Env) (off n : ℕ) : Access Unit :=
  if env.info then do
    let _ ← read off n
    pure ()
  else pure ()

/-- `__nat25_db_network_insert`: the source address is read. -/
def dbNetworkInsert : Access Unit := do
  let _ ← read 6 6
  pure ()

/-- `__nat25_db_network_lookup_and_replace`. -/
def dbNetworkLookupAndReplace (env : Env) (addr : List Byte) : Access Bool :=
  match env.nethash addr with
  | none => pure false
  | some none => pure true
  | some (some mac) => do
    write 0 mac.toList
    pure true

def handleIp (env : Env) (method : Method) : Access ℤ := do
  let ihl ← cell ethHlen
  let len ← look Buf.len
  if len ≤ ihl.toNat % 16 * 4 then pure (-1)
  else
    match method with
    | .check => pure (-1)
    | .insert => do
      let saddr ← read (ethHlen + 12) 4
      if saddr = List.replicate 4 0 then pure 0
      else do
        infoRead env (ethHlen + 12) 8
        dbNetworkInsert
        pure 0
    | .lookup => do
      infoRead env (ethHlen + 12) 8
      let daddr ← read (ethHlen + 16) 4
      let found ← dbNetworkLookupAndReplace env (ipv4NetworkAddr daddr)
      if found then pure 0
      else if daddr.getD 3 0 = 0xff then do
        write 0 (List.replicate 6 0xff)
        pure 0
      else do
        write 0 env.brMac.toList
        pure 0
    | .parse => pure (-1)

/-- ARP. The addresses start at 22, behind `struct arphdr`. -/
def handleArp (env : Env) (method : Method) : Access ℤ := do
  let arPro ← read (ethHlen + 2) 2
  if ntohs arPro ≠ 0x0800 then pure (-1)
  else
    match method with
    | .check => pure 0
    | .insert => do
      infoRead env 22 6
      write 22 env.myHwaddr.toList
      let arHln ← cell (ethHlen + 4)
      let _ ← read (22 + arHln.toNat) 4
      dbNetworkInsert
      pure 0
    | .lookup => do
      let arHln ← cell (ethHlen + 4)
      let arPln ← cell (ethHlen + 5)
      let target ← read (22 + arHln.toNat + (arHln.toNat + arPln.toNat)) 4
      let _ ← dbNetworkLookupAndReplace env (ipv4NetworkAddr target)
      let da ← read 0 6
      write (22 + (arHln.toNat + arPln.toNat)) da
      pure 0
    | .parse => pure (-1)

/-- IPX, with the header at `ipx`. -/
def handleIpx (env : Env) (method : Method) (ipx : ℕ) : Access ℤ :=
  match method with
  | .check => do
    let sa ← read 6 6
    let node ← read (ipx + 22) 6
    if sa = node then pure 0 else pure (-1)
  | .insert => do
    infoRead env (ipx + 6) 24
    let sa ← read 6 6
    let node ← read (ipx + 22) 6
    if sa = node then do
      let _ ← read (ipx + 18) 4
      let _ ← read (ipx + 28) 2
      write (ipx + 22) env.myHwaddr.toList
      dbNetworkInsert
      pure 0
    else do
      let _ ← read (ipx + 18) 4
      dbNetworkInsert
      pure 0
  | .lookup => do
    let node ← read (ipx + 10) 6
    if env.myHwaddr.toList = node then do
      let net ← read (ipx + 6) 4
      let sock ← read (ipx + 16) 2
      let _ ← dbNetworkLookupAndReplace env (ipxNetworkAddr net sock)
      let da ← read 0 6
      write (ipx + 10) da
      pure 0
    else do
      let net ← read (ipx + 6) 4
      let _ ← dbNetworkLookupAndReplace env (ipxNetworkAddr net node)
      pure 0
  | .parse => pure (-1)

/-- AARP, with the header at `ea`. -/
def handleAarp (env : Env) (method : Method) (ea : ℕ) : Access ℤ := do
  let hwLen ← cell (ea + 4)
  if hwLen ≠ 6 then pure (-1)
  else do
    let paLen ← cell (ea + 5)
    if paLen ≠ 4 then pure (-1)
    else
      match method with
      | .check => pure 0
      | .insert => do
        write (ea + 8) env.myHwaddr.toList
        infoRead env (ea + 15) 3
        infoRead env (ea + 25) 3
        let _ ← read (ea + 15) 2
        let _ ← cell (ea + 17)
        dbNetworkInsert
        pure 0
      | .lookup => do
        infoRead env (ea + 15) 3
        infoRead env (ea + 25) 3
        let net ← read (ea + 25) 2
        let node ← cell (ea + 27)
        let _ ← dbNetworkLookupAndReplace env (appleNetworkAddr net node)
        let da ← read 0 6
        write (ea + 18) da
        pure 0
      | .parse => pure (-1)

/-- DDP, with the header at `ddp`. -/
def handleDdp (env : Env) (method : Method) (ddp : ℕ) : Access ℤ :=
  match method with
  | .check => pure (-1)
  | .insert => do
    infoRead env (ddp + 4) 6
    let _ ← read (ddp + 6) 2
    let _ ← cell (ddp + 9)
    dbNetworkInsert
    pure 0
  | .lookup => do
    infoRead env (ddp + 4) 6
    let net ← read (ddp + 4) 2
    let node ← cell (ddp + 8)
    let _ ← dbNetworkLookupAndReplace env (appleNetworkAddr net node)
    pure 0
  | .parse => pure (-1)

def ipxSnapId : List Byte := [0x00, 0x00, 0x00, 0x81, 0x37]

def aarpSnapId : List Byte := [0x00, 0x00, 0x00, 0x80, 0xf3]

def ddpSnapId : List Byte := [0x08, 0x00, 0x07, 0x80, 0x9b]

def ipxHeader : List Byte := [0xff, 0xff]

/-- IPX and AppleTalk: which header there is, and where. -/
def handleNovellApple (env : Env) (method : Method) (protocol : ℕ) : Access ℤ :=
  if protocol = 0x8137 then handleIpx env method ethHlen
  else do
    let hdr ← read ethHlen 2
    if hdr = ipxHeader then handleIpx env method ethHlen
    else do
      let type ← cell ethHlen
      if type = 0xaa then do
        let snapId ← read (ethHlen + 3) 5
        if snapId = ipxSnapId then handleIpx env method (ethHlen + 8)
        else if snapId = aarpSnapId then handleAarp env method (ethHlen + 8)
        else if snapId = ddpSnapId then handleDdp env method (ethHlen + 8)
        else pure (-1)
      else if type = 0xe0 then do
        let hdr ← read (ethHlen + 3) 2
        if hdr = ipxHeader then handleIpx env method (ethHlen + 3) else pure (-1)
      else pure (-1)

/-- The loop of `__nat25_find_pppoe_tag`, `pos` bytes behind the start of the tags. -/
def findPppoeTagLoop (length type pos : ℕ) : Access (Option ℕ) :=
  if pos < length then do
    let hdr ← read (tagOff + pos) tagHdrLen
    if getBe16 hdr 0 = type then pure (some (tagOff + pos))
    else findPppoeTagLoop length type (pos + (tagHdrLen + getBe16 hdr 2))
  else pure none
termination_by length - pos
decreasing_by
  unfold tagHdrLen
  omega

/-- `__nat25_find_pppoe_tag`. -/
def findPppoeTag (type : ℕ) : Access (Option ℕ) := do
  let length ← read lengthOff 2
  findPppoeTagLoop (ntohs length) type 0

/-- `memmove` within a packet. -/
def moveBytes (dst src n : ℕ) : Access Unit := do
  let l ← read src n
  write dst l

def skbPut (n : ℕ) (skb : Buf Byte) : Buf Byte :=
  { skb with len := skb.len + n, room := skb.room - n }

/-- `skb_trim` by a number of bytes. -/
def skbTrim (n : ℕ) (skb : Buf Byte) : Buf Byte :=
  { skb with len := skb.len - n, room := skb.room + n }

/-- `skb_pull_and_merge`; whether it succeeds. -/
def pullAndMerge (src n : ℕ) : Access Bool := do
  let len ← look Buf.len
  if len < src + n ∨ len < n then pure false
  else do
    moveBytes src (src + n) (len - (src + n))
    resize (skbTrim n)
    pure true

/-- `ph->length = htons(v)`. -/
def writeLength (v : ℕ) : Access Unit := write lengthOff (be16 (v % 65536))

def tagBufSize : ℕ := 40

/-- `__nat25_add_pppoe_tag` of a tag in `tag_buf`, whose length field is read as it stands. -/
def addPppoeTag (env : Env) (tagLen : ℕ) (tag : List Byte) : Access ℤ := do
  let dataLen := env.host.raw tagLen + tagHdrLen
  let room ← look Buf.room
  if room < dataLen then pure (-1)
  else do
    resize (skbPut dataLen)
    let length ← read lengthOff 2
    moveBytes (tagOff + dataLen) tagOff (ntohs length)
    writeLength (ntohs length + dataLen)
    if tagBufSize < dataLen then fault
    else do
      write tagOff ((List.range dataLen).map (tagBuf tag env.stack))
      pure 0

/-- A PADI or PADR gets the relay tag. -/
def insertRelayTag (env : Env) : Access ℤ := do
  let found ← findPppoeTag pttRelaySid
  match found with
  | some off => do
    let field ← read (off + 2) 2
    let oldTagLen := ntohs field
    if tagBufSize < oldTagLen + tagHdrLen + relayLen then pure (-1)
    else do
      let old ← read (off + tagHdrLen) oldTagLen
      let merged ← pullAndMerge off (tagHdrLen + oldTagLen)
      if merged then do
        let length ← read lengthOff 2
        writeLength (ntohs length + 65536 - tagHdrLen - oldTagLen)
        let src ← read 6 6
        addPppoeTag env (relayLen + oldTagLen) (relayTagBytes src old)
      else pure (-1)
  | none => do
    let src ← read 6 6
    addPppoeTag env relayLen (relayTagBytes src [])

/-- The relay tag is taken out of a PADO or PADS. -/
def removeRelayTag : Access ℤ := do
  let found ← findPppoeTag pttRelaySid
  match found with
  | none => pure (-1)
  | some off => do
    let field ← read (off + 2) 2
    let tagLen := ntohs field
    if tagLen < relayLen then pure (-1)
    else do
      let magic ← read (off + tagHdrLen) 2
      if ntohs magic ≠ magicCode then pure (-1)
      else do
        let mac ← read (off + tagHdrLen + 2) 6
        write 0 mac
        let offset := if relayLen < tagLen then tagHdrLen else 0
        let merged ← pullAndMerge (off + offset) (tagHdrLen + relayLen - offset)
        if merged then do
          let length ← read lengthOff 2
          writeLength (ntohs length + 65536 - (tagHdrLen + relayLen - offset))
          if 0 < offset then do
            write (off + 2) (be16 (tagLen - relayLen))
            pure 0
          else pure 0
        else pure (-1)

/-- `PADI_CODE` and `PADR_CODE`. -/
def isRequest (code : Byte) : Bool := code == 0x09 || code == 0x19

/-- `PADO_CODE` and `PADS_CODE`. -/
def isReply (code : Byte) : Bool := code == 0x07 || code == 0x65

/-- PPPoE. -/
def handlePppoe (env : Env) (method : Method) : Access ℤ :=
  match method with
  | .check => do
    let sid ← read (ethHlen + 2) 2
    if ntohs sid = 0 then pure 0 else pure 1
  | .insert => do
    let sid ← read (ethHlen + 2) 2
    if ntohs sid = 0 then do
      let code ← cell (ethHlen + 1)
      if isRequest code then
        if env.addPPPoETag then insertRelayTag env
        else do
          let sa ← read 6 6
          if 0 < env.pppoeConnectionInProgress ∧ sa ≠ env.pppoeAddr.toList then pure (-2)
          else pure 0
      else pure (-1)
    else do
      let _ ← read 0 6
      dbNetworkInsert
      pure 0
  | .lookup => do
    let code ← cell (ethHlen + 1)
    if isReply code then
      if env.addPPPoETag then removeRelayTag
      else if env.pppoeConnectionInProgress = 0 then pure (-1)
      else do
        write 0 env.pppoeAddr.toList
        pure 0
    else do
      let sid ← read (ethHlen + 2) 2
      if ntohs sid ≠ 0 then do
        let sa ← read 6 6
        let _ ← dbNetworkLookupAndReplace env (pppoeNetworkAddr sa sid)
        pure 0
      else pure (-1)
  | .parse => pure (-1)

/-- EAP and C-Media frames. -/
def handlePassed (method : Method) : Access ℤ :=
  match method with
  | .check => pure (-1)
  | .insert | .lookup => pure 0
  | .parse => pure (-1)

/-- `scan_tlv`, for as many turns as are allowed. -/
def scanTlv (tag len8b : Byte) : ℕ → ℕ → ℕ → Access (Option ℕ)
  | 0, _, _ => timeout
  | turns + 1, data, len =>
    if 0 < len then do
      let type ← cell data
      let units ← cell (data + 1)
      if type = tag ∧ units = len8b ∧ len8b.toNat * 8 ≤ len then pure (some (data + 2))
      else scanTlv tag len8b turns (data + units.toNat * 8) (len - units.toNat * 8)
    else pure none

/-- Where the options of an ND message start, and the option that carries the address. -/
def ndOptions (icmp6Type : Byte) : Option (ℕ × Byte) :=
  match icmp6Type.toNat with
  | 133 => some (8, 1)
  | 134 => some (16, 1)
  | 135 => some (24, 1)
  | 136 => some (24, 2)
  | 137 => some (40, 2)
  | _ => none

def updateNdLinkLayerAddr (turns data len : ℕ) (replaceMac : List Byte) : Access Bool := do
  let type ← cell data
  match ndOptions type with
  | none => pure false
  | some (off, tag) =>
    if off ≤ len then do
      let mac ← scanTlv tag 1 turns (data + off) (len - off)
      match mac with
      | some mac => do
        write mac replaceMac
        pure true
      | none => pure false
    else pure false

/-- Where an ICMPv6 message starts. -/
def icmp6Off : ℕ := ethHlen + 40

/-- IPv6. The payload length is taken as it stands. -/
def handleIpv6 (env : Env) (turns : ℕ) (method : Method) : Access ℤ := do
  let len ← look Buf.len
  if len - ethHlen ≤ 40 then pure (-1)
  else
    match method with
    | .check => do
      let da ← cell 0
      if da.getLsbD 0 then pure 0 else pure (-1)
    | .insert => do
      let saddr ← read (ethHlen + 8) 16
      if saddr = List.replicate 16 0 then pure 0
      else do
        dbNetworkInsert
        let nexthdr ← cell (ethHlen + 6)
        if nexthdr = 58 ∧ ethHlen + 40 + 4 < len then do
          let replaced ← updateNdLinkLayerAddr turns icmp6Off (len - icmp6Off) env.myHwaddr.toList
          if replaced then do
            write (icmp6Off + 2) [0, 0]
            let payloadLen ← read (ethHlen + 4) 2
            let message ← read icmp6Off (env.host.raw (ntohs payloadLen))
            let addrs ← read (ethHlen + 8) 32
            write (icmp6Off + 2) (be16 (env.csumIpv6Magic addrs message).toNat)
            pure 0
          else pure 0
        else pure 0
    | .lookup => do
      let daddr ← read (ethHlen + 24) 16
      let _ ← dbNetworkLookupAndReplace env (ipv6NetworkAddr daddr)
      pure 0
    | .parse => pure (-1)

/-- The switch on the protocol. -/
def handleProtocol (env : Env) (turns : ℕ) (method : Method) (protocol : ℕ) : Access ℤ :=
  if protocol = 0x0800 then handleIp env method
  else if protocol = 0x0806 then handleArp env method
  else if env.kernelBefore515 ∧ (protocol = 0x8137 ∨ protocol = 0x809b ∨ protocol = 0x80f3) then
    handleNovellApple env method protocol
  else if protocol = 0x8863 ∨ protocol = 0x8864 then handlePppoe env method
  else if protocol = 0x888e then handlePassed method
  else if protocol = 0xe2ae ∨ protocol = 0xe2af then handlePassed method
  else if protocol = 0x86dd then handleIpv6 env turns method
  else pure (-1)

/-- `nat25_db_handle`, with `turns` turns allowed for the options of an ND message. -/
def nat25DbHandle (env : Env) (turns : ℕ) (method : ℤ) : Access ℤ :=
  match methodOf method with
  | none => pure (-1)
  | some method => do
    let protocol ← read 12 2
    handleProtocol env turns method (ntohs protocol)

end Rtl8821cu.Nat25Handle
