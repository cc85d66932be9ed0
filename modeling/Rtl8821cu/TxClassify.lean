import Rtl8821cu.LibBytes
import Rtl8821cu.LibReads
import Rtl8821cu.PktCursor

/-! How `update_attrib` (`core/rtw_xmit.c`) classifies the IPv4 packets that it sends, and the keys
of TCP sessions that it and `rtw_st_ctl_rx` (`core/rtw_sta_mgt.c`) report to the session tracker. -/
namespace Rtl8821cu.TxClassify
open PktCursor Bytes Reads Store

section Headers

variable (l : List (BitVec 8))

def getIpv4Ihl : ℕ := (l.getD 0 0 &&& 0x0f).toNat

def getIpv4Protocol : BitVec 8 := l.getD 9 0

def ipv4Src : List (BitVec 8) := bytesAt l 12 4

def ipv4Dst : List (BitVec 8) := bytesAt l 16 4

def tcpSrc : List (BitVec 8) := bytesAt l 0 2

def tcpDst : List (BitVec 8) := bytesAt l 2 2

/-- `GET_UDP_SRC` and `GET_UDP_DST` are the two ports of DHCP. -/
def dhcpPorts : Bool :=
  (getBe16 l 0 = 68 && getBe16 l 2 = 67) || (getBe16 l 0 = 67 && getBe16 l 2 = 68)

/-- `GET_UDP_SIG1` and `GET_UDP_SIG2` are those of a WaveAgent packet. -/
def waveAgent : Bool := (l.getD 8 0 = 0xcc || l.getD 8 0 = 0xdd) && l.getD 23 0 = 0xe2

end Headers

/-- `GET_TCP_SYN` and `GET_TCP_ACK`, of the flags of a TCP header. -/
def synAck (flags : BitVec 8) : Bool := flags.getLsbD 1 && flags.getLsbD 4

/-- `GET_TCP_FIN`. -/
def fin (flags : BitVec 8) : Bool := flags.getLsbD 0

/-- The addresses and ports of a session. -/
structure Key where
  localNaddr : List (BitVec 8)
  localPort : List (BitVec 8)
  remoteNaddr : List (BitVec 8)
  remotePort : List (BitVec 8)
  deriving DecidableEq

/-- `session_tracker_add_cmd` and `session_tracker_del_cmd`. -/
inductive SessionCmd
  | add (key : Key)
  | del (key : Key)
  deriving DecidableEq

def SessionCmd.key : SessionCmd → Key
  | .add key => key
  | .del key => key

/-- The commands for a TCP header with these flags. -/
def sessionCmds (flags : BitVec 8) (key : Key) : List SessionCmd :=
  (if synAck flags then [.add key] else []) ++ if fin flags then [.del key] else []

/-- The one register of `struct st_ctl_t`. -/
structure StRegister where
  sProto : BitVec 8
  rule : Option (Key → Bool)

/-- `rtw_st_ctl_chk_reg_rule`. -/
def StRegister.chkRule (reg : StRegister) (key : Key) : Bool := reg.rule.any fun rule => rule key

/-- The local buffers of `update_attrib` as they are before anything is read into them. -/
structure Locals where
  etherhdr : List (BitVec 8)
  ip : List (BitVec 8)
  udp : List (BitVec 8)
  tcp : List (BitVec 8)
  etherhdr_length : etherhdr.length = 14
  ip_length : ip.length = 20
  udp_length : udp.length = 24
  tcp_length : tcp.length = 20

/-- What `update_attrib` makes of an IPv4 packet. -/
structure Attrib where
  icmpPkt : Bool
  dhcpPkt : Bool
  hipriorityPkt : Bool
  cmds : List SessionCmd

section Transmit

variable (loc : Locals) (pkt : List (BitVec 8))

/-- The cursor behind the Ethernet header. -/
def afterEther : PktFile := (rtwPktfileRead (rtwOpenPktfile pkt) 14).2

def etherBuf : List (BitVec 8) :=
  fill loc.etherhdr (rtwPktfileRead (rtwOpenPktfile pkt) 14).1

def ipBuf : List (BitVec 8) := fill loc.ip (rtwPktfileRead (afterEther pkt) 20).1

/-- The cursor where the transport header is read. -/
def afterIp : PktFile :=
  let f := (rtwPktfileRead (afterEther pkt) 20).2
  let ihl := getIpv4Ihl (ipBuf loc pkt)
  if 20 < ihl * 4 then (rtwPktfileRead f (toUint ((ihl : ℤ) - 20))).2 else f

def udpBuf : List (BitVec 8) := fill loc.udp (rtwPktfileRead (afterIp loc pkt) 24).1

def tcpBuf : List (BitVec 8) := fill loc.tcp (rtwPktfileRead (afterIp loc pkt) 20).1

/-- The addresses and ports that the commands of `update_attrib` are given. -/
def txKey : Key where
  localNaddr := ipv4Src (ipBuf loc pkt)
  localPort := tcpSrc (tcpBuf loc pkt)
  remoteNaddr := ipv4Src (ipBuf loc pkt)
  remotePort := tcpDst (tcpBuf loc pkt)

/-- The addresses and ports that the rules are asked about. -/
def txRuleKey : Key where
  localNaddr := ipv4Src (ipBuf loc pkt)
  localPort := tcpSrc (tcpBuf loc pkt)
  remoteNaddr := ipv4Dst (ipBuf loc pkt)
  remotePort := tcpDst (tcpBuf loc pkt)

/-- The IPv4 part of `update_attrib`; `none` for another protocol. -/
def updateAttrib (reg : StRegister) : Option Attrib :=
  if getBe16 (etherBuf loc pkt) 12 = 0x0800 then
    let ip := ipBuf loc pkt
    let pktlen := (afterEther pkt).pktLen
    if getIpv4Protocol ip = 0x01 then some ⟨true, false, false, []⟩
    else if getIpv4Protocol ip = 0x11 then
      let udp := udpBuf loc pkt
      some ⟨false, dhcpPorts udp && decide (282 < pktlen), waveAgent udp, []⟩
    else if getIpv4Protocol ip = 0x06 ∧ reg.sProto = 0x06 then
      if reg.chkRule (txRuleKey loc pkt) then
        some ⟨false, false, false, sessionCmds ((tcpBuf loc pkt).getD 13 0) (txKey loc pkt)⟩
      else some ⟨false, false, false, []⟩
    else some ⟨false, false, false, []⟩
  else none

end Transmit

section Receive

/-- What `rtw_st_ctl_rx` does with a packet whose TCP header is at `tcp`. -/
def rxSession (reg : StRegister) (tcp : ℕ) : Reading (BitVec 8) (List SessionCmd) :=
  match reg.rule with
  | none => pure []
  | some rule => do
    let dst ← cells (14 + 16) 4
    let tcpDst ← cells (tcp + 2) 2
    let src ← cells (14 + 12) 4
    let tcpSrc ← cells tcp 2
    if rule ⟨dst, tcpDst, src, tcpSrc⟩ then
      let flags ← cell (tcp + 13)
      pure (sessionCmds flags ⟨dst, tcpDst, src, tcpSrc⟩)
    else pure []

/-- `rtw_st_ctl_rx`, by its reads from the Ethernet header on. -/
def rtwStCtlRx (reg : StRegister) : Reading (BitVec 8) (List SessionCmd) := do
  let proto ← cells 12 2
  if getBe16 proto 0 = 0x0800 then
    let protocol ← cell (14 + 9)
    if protocol = 0x06 ∧ reg.sProto = 0x06 then
      let ihl ← cell 14
      rxSession reg (14 + (ihl &&& 0x0f).toNat * 4)
    else pure []
  else pure []

/-- The addresses and ports that `rtw_st_ctl_rx` gives to the rules and to its commands. -/
def rxKey (frame : List (BitVec 8)) : Key :=
  let ip := frame.drop 14
  let tcp := ip.drop (getIpv4Ihl ip * 4)
  ⟨ipv4Dst ip, tcpDst tcp, ipv4Src ip, tcpSrc tcp⟩

end Receive

section Packets

variable {p : List (BitVec 8)}

/-- The header length of an Ethernet frame's IPv4 packet. -/
def ihlOf (p : List (BitVec 8)) : ℕ := getIpv4Ihl (p.drop 14)

/-- An Ethernet frame with an IPv4 packet whose header and ports are there. -/
structure Ipv4Packet (p : List (BitVec 8)) : Prop where
  etherType : getBe16 p 12 = 0x0800
  ihl_ge : 5 ≤ ihlOf p
  room : 14 + 4 * ihlOf p + 4 ≤ p.length
  length_le : p.length ≤ 14 + 65535

theorem ihlOf_le (p : List (BitVec 8)) : ihlOf p ≤ 15 := by
  rw [ihlOf, getIpv4Ihl, BitVec.toNat_and]
  exact Nat.and_le_right

theorem etherBuf_type (h : Ipv4Packet p) (loc : Locals) :
    getBe16 (etherBuf loc p) 12 = 0x0800 := by
  have hroom := h.room
  have hget : ∀ i < 14, (etherBuf loc p).getD i 0 = p.getD i 0 := by
    intro i hi
    have hread := getD_fill_read (rtwOpenPktfile p) loc.etherhdr hi
      (show i < p.length by omega)
    rwa [show (rtwOpenPktfile p).curAddr + i = i from Nat.zero_add i] at hread
  rw [getBe16, hget 12 (by omega), hget 13 (by omega)]
  exact h.etherType

theorem afterEther_spec (h : 14 ≤ p.length) :
    (afterEther p).buf = p ∧ (afterEther p).curAddr = 14 ∧
      (afterEther p).pktLen = p.length - 14 := by
  refine ⟨rfl, ?_, ?_⟩
  · rw [afterEther, read_curAddr]
    show 0 + min 14 p.length = 14
    omega
  · rw [afterEther, read_pktLen]
    rfl

theorem ipBuf_bytesAt (h : Ipv4Packet p) (loc : Locals) {i k : ℕ} (hk : i + k ≤ 20) :
    bytesAt (ipBuf loc p) i k = bytesAt p (14 + i) k := by
  have hroom := h.room
  have hihl := h.ihl_ge
  obtain ⟨hbuf, hcur, hlen⟩ := afterEther_spec (p := p) (by omega)
  rw [ipBuf, bytesAt_fill_read _ hk (by omega), hbuf, hcur]

theorem ipBuf_getD (h : Ipv4Packet p) (loc : Locals) {i : ℕ} (hi : i < 20) :
    (ipBuf loc p).getD i 0 = (p.drop 14).getD i 0 := by
  have hroom := h.room
  have hihl := h.ihl_ge
  obtain ⟨hbuf, hcur, hlen⟩ := afterEther_spec (p := p) (by omega)
  rw [ipBuf, getD_fill_read _ _ hi (by omega), hbuf, hcur]
  simp only [List.getD_eq_getElem?_getD, List.getElem?_drop]

theorem ihl_ipBuf (h : Ipv4Packet p) (loc : Locals) : getIpv4Ihl (ipBuf loc p) = ihlOf p := by
  rw [getIpv4Ihl, ipBuf_getD h loc (by omega), ihlOf, getIpv4Ihl]

theorem protocol_ipBuf (h : Ipv4Packet p) (loc : Locals) :
    getIpv4Protocol (ipBuf loc p) = getIpv4Protocol (p.drop 14) := ipBuf_getD h loc (by omega)

/-- Without options the transport header is read where it is. -/
theorem afterIp_of_five (h : Ipv4Packet p) (loc : Locals) (hihl : ihlOf p = 5) :
    (afterIp loc p).buf = p ∧ (afterIp loc p).curAddr = 34 ∧
      (afterIp loc p).pktLen = p.length - 34 := by
  have hroom := h.room
  obtain ⟨hbuf, hcur, hlen⟩ := afterEther_spec (p := p) (by omega)
  rw [afterIp, ihl_ipBuf h, hihl]
  refine ⟨hbuf, ?_, ?_⟩
  · rw [if_neg (by decide), read_curAddr, hcur, hlen]
    omega
  · rw [if_neg (by decide), read_pktLen, hlen]
    omega

/-- With options the cursor goes to the end of the packet: `GET_IPV4_IHL(ip) - 20` is negative. -/
theorem afterIp_of_lt (h : Ipv4Packet p) (loc : Locals) (hihl : 5 < ihlOf p) :
    (afterIp loc p).pktLen = 0 := by
  have hle := ihlOf_le p
  have hmax := h.length_le
  have hroom := h.room
  obtain ⟨-, -, hlen⟩ := afterEther_spec (p := p) (by omega)
  rw [afterIp, ihl_ipBuf h, if_pos (by omega), read_pktLen, read_pktLen, hlen, toUint]
  omega

theorem udpBuf_of_lt (h : Ipv4Packet p) (loc : Locals) (hihl : 5 < ihlOf p) :
    udpBuf loc p = loc.udp := by
  rw [udpBuf, read_of_end _ (afterIp_of_lt h loc hihl), fill_nil]

theorem tcpBuf_of_lt (h : Ipv4Packet p) (loc : Locals) (hihl : 5 < ihlOf p) :
    tcpBuf loc p = loc.tcp := by
  rw [tcpBuf, read_of_end _ (afterIp_of_lt h loc hihl), fill_nil]

/-- Local buffers that hold one byte throughout. -/
def allBytes (b : BitVec 8) : Locals where
  etherhdr := List.replicate 14 b
  ip := List.replicate 20 b
  udp := List.replicate 24 b
  tcp := List.replicate 20 b
  etherhdr_length := List.length_replicate
  ip_length := List.length_replicate
  udp_length := List.length_replicate
  tcp_length := List.length_replicate

end Packets

section Results

variable {p s r : List (BitVec 8)} {conn : Key}

/-- The transport header of a packet. -/
def transport (p : List (BitVec 8)) : List (BitVec 8) := p.drop (14 + 4 * ihlOf p)

/-- The ports of UDP and TCP are read where the header length puts them, and DHCP packets are those
between the two ports of DHCP, whatever the local buffers held. -/
structure Classified (p : List (BitVec 8)) : Prop where
  udpPorts : getIpv4Protocol (p.drop 14) = 0x11 → ∀ loc,
    bytesAt (udpBuf loc p) 0 4 = bytesAt (transport p) 0 4
  tcpPorts : getIpv4Protocol (p.drop 14) = 0x06 → ∀ loc,
    bytesAt (tcpBuf loc p) 0 4 = bytesAt (transport p) 0 4
  dhcp : ∀ loc reg, ∃ a, updateAttrib loc p reg = some a ∧
    (a.dhcpPkt = true ↔ getIpv4Protocol (p.drop 14) = 0x11 ∧ dhcpPorts (transport p) = true)

/-- A TCP packet that is sent on the connection. -/
structure SentOn (conn : Key) (p : List (BitVec 8)) : Prop where
  ipv4 : Ipv4Packet p
  tcp : getIpv4Protocol (p.drop 14) = 0x06
  src : bytesAt p 26 4 = conn.localNaddr ∧ bytesAt (transport p) 0 2 = conn.localPort
  dst : bytesAt p 30 4 = conn.remoteNaddr ∧ bytesAt (transport p) 2 2 = conn.remotePort

/-- A TCP packet that is received on the connection. -/
structure ReceivedOn (conn : Key) (p : List (BitVec 8)) : Prop where
  ipv4 : Ipv4Packet p
  tcp : getIpv4Protocol (p.drop 14) = 0x06
  src : bytesAt p 26 4 = conn.remoteNaddr ∧ bytesAt (transport p) 0 2 = conn.remotePort
  dst : bytesAt p 30 4 = conn.localNaddr ∧ bytesAt (transport p) 2 2 = conn.localPort

/-- The session tracker gets one key from both packets: both directions derive it, and it stands in
all commands of `update_attrib` and of `rtw_st_ctl_rx`, whatever lies behind the packet received. -/
structure SameKey (s r : List (BitVec 8)) : Prop where
  key : ∀ loc, txKey loc s = rxKey r
  cmds : ∀ loc reg a mem, updateAttrib loc s reg = some a → HoldsAt mem 0 r → ∀ c ∈ a.cmds,
    ∀ d ∈ (rtwStCtlRx reg).value mem, c.key = d.key

/-- The ports are in the first four bytes. -/
theorem dhcpPorts_congr {l l' : List (BitVec 8)} (h : bytesAt l 0 4 = bytesAt l' 0 4) :
    dhcpPorts l = dhcpPorts l' := by
  have hget : ∀ i < 4, l.getD i 0 = l'.getD i 0 := by
    intro i hi
    have heq := congrArg (fun q => q.getD i 0) h
    simpa only [bytesAt, List.drop_zero, List.getD_eq_getElem?_getD, List.getElem?_take_of_lt hi]
      using heq
  rw [dhcpPorts, dhcpPorts, getBe16, getBe16, getBe16, getBe16, hget 0 (by omega),
    hget 1 (by omega), hget 2 (by omega), hget 3 (by omega)]

theorem bytesAt_transport (p : List (BitVec 8)) (i k : ℕ) :
    bytesAt (transport p) i k = bytesAt p (14 + 4 * ihlOf p + i) k := by
  rw [bytesAt, bytesAt, transport, List.drop_drop]

theorem udpBuf_of_five (h : Ipv4Packet p) (loc : Locals) (hihl : ihlOf p = 5) :
    bytesAt (udpBuf loc p) 0 4 = bytesAt (transport p) 0 4 := by
  have hroom := h.room
  obtain ⟨hbuf, hcur, hlen⟩ := afterIp_of_five h loc hihl
  rw [udpBuf, bytesAt_fill_read _ (by omega) (by omega), hbuf, hcur, bytesAt_transport, hihl]

theorem tcpBuf_of_five (h : Ipv4Packet p) (loc : Locals) (hihl : ihlOf p = 5) {i k : ℕ}
    (hk : i + k ≤ 4) : bytesAt (tcpBuf loc p) i k = bytesAt (transport p) i k := by
  have hroom := h.room
  obtain ⟨hbuf, hcur, hlen⟩ := afterIp_of_five h loc hihl
  rw [tcpBuf, bytesAt_fill_read _ (by omega) (by omega), hbuf, hcur, bytesAt_transport, hihl]

/-- What `update_attrib` says of DHCP, by the header that it has read. -/
theorem updateAttrib_dhcp (h : Ipv4Packet p) (loc : Locals) (reg : StRegister) :
    ∃ a, updateAttrib loc p reg = some a ∧ (a.dhcpPkt = true ↔
      getIpv4Protocol (p.drop 14) = 0x11 ∧ dhcpPorts (udpBuf loc p) = true ∧
        282 < p.length - 14) := by
  have hroom := h.room
  obtain ⟨-, -, hlen⟩ := afterEther_spec (p := p) (by omega)
  rw [updateAttrib, if_pos (etherBuf_type h loc)]
  dsimp only
  rw [protocol_ipBuf h, hlen]
  by_cases hicmp : getIpv4Protocol (p.drop 14) = 0x01
  · rw [if_pos hicmp]
    refine ⟨_, rfl, iff_of_false Bool.false_ne_true fun hudp => ?_⟩
    rw [hicmp] at hudp
    exact absurd hudp.1 (by decide)
  by_cases hudp : getIpv4Protocol (p.drop 14) = 0x11
  · rw [if_neg hicmp, if_pos hudp]
    refine ⟨_, rfl, ?_⟩
    rw [Bool.and_eq_true, decide_eq_true_iff, and_iff_right hudp]
  · have hno : ∀ a : Attrib, a.dhcpPkt = false → (a.dhcpPkt = true ↔
        getIpv4Protocol (p.drop 14) = 0x11 ∧ dhcpPorts (udpBuf loc p) = true ∧
          282 < p.length - 14) := by
      intro a ha
      rw [ha]
      exact iff_of_false Bool.false_ne_true fun h => hudp h.1
    rw [if_neg hicmp, if_neg hudp]
    split_ifs
    · exact ⟨_, rfl, hno _ rfl⟩
    · exact ⟨_, rfl, hno _ rfl⟩
    · exact ⟨_, rfl, hno _ rfl⟩

theorem allBytes_udp (b : BitVec 8) : bytesAt (allBytes b).udp 0 4 = List.replicate 4 b := rfl

theorem allBytes_tcp (b : BitVec 8) : bytesAt (allBytes b).tcp 0 4 = List.replicate 4 b := rfl

/-- A UDP packet with options is classified by what the stack held. -/
theorem ihl_of_udpPorts (h : Ipv4Packet p)
    (hports : ∀ loc, bytesAt (udpBuf loc p) 0 4 = bytesAt (transport p) 0 4) : ihlOf p = 5 := by
  rcases Nat.eq_or_lt_of_le h.ihl_ge with heq | hlt
  · exact heq.symm
  · have h0 := hports (allBytes 0)
    have h1 := hports (allBytes 1)
    rw [udpBuf_of_lt h _ hlt, allBytes_udp] at h0 h1
    exact absurd (h0.trans h1.symm) (by decide)

/-- So is a TCP packet. -/
theorem ihl_of_tcpPorts (h : Ipv4Packet p)
    (hports : ∀ loc, bytesAt (tcpBuf loc p) 0 4 = bytesAt (transport p) 0 4) : ihlOf p = 5 := by
  rcases Nat.eq_or_lt_of_le h.ihl_ge with heq | hlt
  · exact heq.symm
  · have h0 := hports (allBytes 0)
    have h1 := hports (allBytes 1)
    rw [tcpBuf_of_lt h _ hlt, allBytes_tcp] at h0 h1
    exact absurd (h0.trans h1.symm) (by decide)

theorem classified_iff (h : Ipv4Packet p) : Classified p ↔
    (getIpv4Protocol (p.drop 14) = 0x11 ∨ getIpv4Protocol (p.drop 14) = 0x06 → ihlOf p = 5) ∧
      (getIpv4Protocol (p.drop 14) = 0x11 → dhcpPorts (transport p) = true →
        282 < p.length - 14) := by
  constructor
  · rintro ⟨hudpPorts, htcpPorts, hdhcp⟩
    refine ⟨fun hproto => ?_, fun hudp hbetween => ?_⟩
    · rcases hproto with hudp | htcp
      · exact ihl_of_udpPorts h (hudpPorts hudp)
      · exact ihl_of_tcpPorts h (htcpPorts htcp)
    · obtain ⟨a, ha, hiff⟩ := hdhcp (allBytes 0) ⟨0, none⟩
      obtain ⟨a', ha', hiff'⟩ := updateAttrib_dhcp h (allBytes 0) ⟨0, none⟩
      obtain rfl : a = a' := Option.some.inj (ha.symm.trans ha')
      exact (hiff'.mp (hiff.mpr ⟨hudp, hbetween⟩)).2.2
  · rintro ⟨hihl, hlong⟩
    refine ⟨fun hudp loc => udpBuf_of_five h loc (hihl (.inl hudp)),
      fun htcp loc => tcpBuf_of_five h loc (hihl (.inr htcp)) (by omega), fun loc reg => ?_⟩
    obtain ⟨a, ha, hiff⟩ := updateAttrib_dhcp h loc reg
    refine ⟨a, ha, hiff.trans (and_congr_right fun hudp => ?_)⟩
    rw [dhcpPorts_congr (udpBuf_of_five h loc (hihl (.inl hudp)))]
    exact ⟨fun h => h.1, fun h => ⟨h, hlong hudp h⟩⟩

theorem sessionCmds_key {flags : BitVec 8} {key : Key} {c : SessionCmd}
    (h : c ∈ sessionCmds flags key) : c.key = key := by
  unfold sessionCmds at h
  rcases List.mem_append.mp h with h | h
  · split_ifs at h
    · rw [List.mem_singleton.mp h]
      rfl
    · cases h
  · split_ifs at h
    · rw [List.mem_singleton.mp h]
      rfl
    · cases h

/-- All commands of `update_attrib` carry its key. -/
theorem updateAttrib_cmds {loc : Locals} {reg : StRegister} {a : Attrib}
    (ha : updateAttrib loc s reg = some a) {c : SessionCmd} (hc : c ∈ a.cmds) :
    c.key = txKey loc s := by
  unfold updateAttrib at ha
  dsimp only at ha
  split_ifs at ha
  all_goals
    obtain rfl := Option.some.inj ha
    first | cases hc | exact sessionCmds_key hc

theorem rxSession_cmds {reg : StRegister} {tcp : ℕ} {mem : ℕ → BitVec 8} {d : SessionCmd}
    (hd : d ∈ (rxSession reg tcp).value mem) :
    d.key = ⟨load mem 30 4, load mem (tcp + 2) 2, load mem 26 4, load mem tcp 2⟩ := by
  unfold rxSession at hd
  cases hrule : reg.rule with
  | none => simp [hrule] at hd
  | some rule =>
    simp only [hrule, value_bind, value_cells, value_cell, value_ite, value_pure] at hd
    split_ifs at hd
    · exact sessionCmds_key hd
    · cases hd

/-- All commands of `rtw_st_ctl_rx` carry the key of the packet that the memory holds. -/
theorem rtwStCtlRx_cmds (h : Ipv4Packet r) {mem : ℕ → BitVec 8} (hmem : HoldsAt mem 0 r)
    {reg : StRegister} {d : SessionCmd} (hd : d ∈ (rtwStCtlRx reg).value mem) :
    d.key = rxKey r := by
  have hroom := h.room
  have hihl := h.ihl_ge
  have hload : ∀ i n, i + n ≤ r.length → load mem i n = bytesAt r i n := by
    intro i n hin
    have hcells := hmem.load_eq hin
    rwa [Nat.zero_add] at hcells
  have hbyte : mem 14 &&& 0x0f = (r.drop 14).getD 0 0 &&& 0x0f := by
    have hcell := hmem 14 r[14] (by simp [show 14 < r.length by omega])
    rw [Nat.zero_add] at hcell
    rw [hcell, List.getD_eq_getElem _ _ (by rw [List.length_drop]; omega), List.getElem_drop]
  have htcp : 14 + (mem 14 &&& 0x0f).toNat * 4 = 14 + ihlOf r * 4 := by
    rw [hbyte, ihlOf, getIpv4Ihl]
  unfold rtwStCtlRx at hd
  simp only [value_bind, value_cells, value_ite, value_pure] at hd
  split_ifs at hd
  · simp only [value_cell] at hd
    rw [htcp] at hd
    rw [rxSession_cmds hd, hload _ _ (by omega), hload _ _ (by omega), hload _ _ (by omega),
      hload _ _ (by omega)]
    simp only [rxKey, ipv4Dst, ipv4Src, tcpDst, tcpSrc, bytesAt, List.drop_drop, ihlOf,
      Nat.add_assoc, Nat.add_zero]
  · cases hd
  · cases hd

/-- `rtw_st_ctl_rx` derives the key of the connection. -/
theorem rxKey_eq (h : ReceivedOn conn r) : rxKey r = conn := by
  have hbytes : ∀ i k, bytesAt (r.drop 14) i k = bytesAt r (14 + i) k := by
    intro i k
    rw [bytesAt, bytesAt, List.drop_drop]
  have htcp : (r.drop 14).drop (getIpv4Ihl (r.drop 14) * 4) = transport r := by
    rw [List.drop_drop, transport, ihlOf, Nat.mul_comm 4]
  obtain ⟨hraddr, hrport⟩ := h.src
  obtain ⟨hladdr, hlport⟩ := h.dst
  rw [rxKey, htcp, ipv4Dst, ipv4Src, hbytes, hbytes, hladdr, hraddr, tcpDst, tcpSrc, hlport, hrport]

/-- The key of `update_attrib` has the local address twice. -/
theorem txKey_of_five (h : SentOn conn s) (loc : Locals) (hihl : ihlOf s = 5) :
    txKey loc s = { conn with remoteNaddr := conn.localNaddr } := by
  obtain ⟨hladdr, hlport⟩ := h.src
  obtain ⟨-, hrport⟩ := h.dst
  rw [txKey, ipv4Src, ipBuf_bytesAt h.ipv4 loc (by omega), hladdr, tcpSrc, tcpDst,
    tcpBuf_of_five h.ipv4 loc hihl (by omega), tcpBuf_of_five h.ipv4 loc hihl (by omega), hlport,
    hrport]

theorem sameKey_iff (hs : SentOn conn s) (hr : ReceivedOn conn r) :
    SameKey s r ↔ ihlOf s = 5 ∧ conn.localNaddr = conn.remoteNaddr := by
  have hrx := rxKey_eq hr
  constructor
  · rintro ⟨h, -⟩
    rw [hrx] at h
    rcases Nat.eq_or_lt_of_le hs.ipv4.ihl_ge with heq | hlt
    · have hkey := h (allBytes 0)
      rw [txKey_of_five hs _ heq.symm] at hkey
      exact ⟨heq.symm, congrArg Key.remoteNaddr hkey⟩
    · have h0 := congrArg Key.localPort (h (allBytes 0))
      have h1 := congrArg Key.localPort (h (allBytes 1))
      simp only [txKey, tcpBuf_of_lt hs.ipv4 _ hlt] at h0 h1
      exact absurd (h0.trans h1.symm) (by decide)
  · rintro ⟨hihl, haddr⟩
    have hkey : ∀ loc, txKey loc s = rxKey r := by
      intro loc
      rw [txKey_of_five hs loc hihl, hrx]
      obtain ⟨localNaddr, localPort, remoteNaddr, remotePort⟩ := conn
      obtain rfl : localNaddr = remoteNaddr := haddr
      rfl
    refine ⟨hkey, fun loc reg a mem ha hmem c hc d hd => ?_⟩
    rw [updateAttrib_cmds ha hc, rtwStCtlRx_cmds hr.ipv4 hmem hd, hkey]

/-- An Ethernet frame with an IPv4 packet of `words` header words from 10.0.0.1 to 10.0.0.2, or the
other way. -/
def ipv4Frame (words : BitVec 8) (protocol : BitVec 8) (back : Bool)
    (rest : List (BitVec 8)) : List (BitVec 8) :=
  List.replicate 12 0 ++ [0x08, 0x00, 0x40 ||| words, 0, 0, 0, 0, 0, 0, 0, 64, protocol, 0, 0] ++
    (if back then [10, 0, 0, 2, 10, 0, 0, 1] else [10, 0, 0, 1, 10, 0, 0, 2]) ++ rest

theorem length_ipv4Frame (words protocol : BitVec 8) (back : Bool) (rest : List (BitVec 8)) :
    (ipv4Frame words protocol back rest).length = 34 + rest.length := by
  cases back <;> simp [ipv4Frame] <;> omega

/-- A DHCP request of 300 bytes, without options in its IPv4 header. -/
def dhcpRequest : List (BitVec 8) :=
  ipv4Frame 5 0x11 false ([0, 68, 0, 67] ++ List.replicate 276 0)

/-- The same behind four bytes of options. -/
def dhcpWithOptions : List (BitVec 8) :=
  ipv4Frame 6 0x11 false ([0, 0, 0, 0] ++ ([0, 68, 0, 67] ++ List.replicate 276 0))

/-- A session between port 7236 of 10.0.0.1 and port 5000 of 10.0.0.2. -/
def wfdConn : Key := ⟨[10, 0, 0, 1], [0x1c, 0x44], [10, 0, 0, 2], [0x13, 0x88]⟩

def wfdSent : List (BitVec 8) :=
  ipv4Frame 5 0x06 false ([0x1c, 0x44, 0x13, 0x88] ++ List.replicate 9 0 ++ [0x12] ++
    List.replicate 6 0)

def wfdReceived : List (BitVec 8) :=
  ipv4Frame 5 0x06 true ([0x13, 0x88, 0x1c, 0x44] ++ List.replicate 9 0 ++ [0x12] ++
    List.replicate 6 0)

theorem length_dhcpRequest : dhcpRequest.length = 314 := by
  rw [dhcpRequest, length_ipv4Frame, List.length_append, List.length_replicate]
  rfl

theorem length_dhcpWithOptions : dhcpWithOptions.length = 318 := by
  rw [dhcpWithOptions, length_ipv4Frame, List.length_append, List.length_append,
    List.length_replicate]
  rfl

theorem dhcpRequest_ipv4 : Ipv4Packet dhcpRequest := by
  refine ⟨rfl, by decide, ?_, ?_⟩
  · rw [length_dhcpRequest]
    decide
  · rw [length_dhcpRequest]
    decide

theorem dhcpWithOptions_ipv4 : Ipv4Packet dhcpWithOptions := by
  refine ⟨rfl, by decide, ?_, ?_⟩
  · rw [length_dhcpWithOptions]
    decide
  · rw [length_dhcpWithOptions]
    decide

theorem wfdSent_sentOn : SentOn wfdConn wfdSent :=
  ⟨⟨rfl, by decide, by decide, by decide⟩, rfl, ⟨rfl, rfl⟩, ⟨rfl, rfl⟩⟩

theorem wfdReceived_receivedOn : ReceivedOn wfdConn wfdReceived :=
  ⟨⟨rfl, by decide, by decide, by decide⟩, rfl, ⟨rfl, rfl⟩, ⟨rfl, rfl⟩⟩

end Results

end Rtl8821cu.TxClassify
