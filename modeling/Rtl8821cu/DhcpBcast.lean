import Rtl8821cu.LibOnes
import Rtl8821cu.Nat25Pppoe

/-! `dhcp_flag_bcast` (`core/rtw_br_ext.c`): the broadcast flag of a client's DHCP requests, and the
UDP checksum over it. A packet is the memory from `skb->data` on. -/
namespace Rtl8821cu.DhcpBcast
open Store OnesComplement Nat25Pppoe

/-- A 16-bit field as the processor reads it. -/
def half (host : Host) (m : ℕ → BitVec 8) (a : ℕ) : ℕ := host.raw (word m a)

def setHalf (host : Host) (m : ℕ → BitVec 8) (a r : ℕ) : ℕ → BitVec 8 := setWord m a (host.raw r)

def ethPIp : ℕ := 0x0800

def ipprotoUdp : ℕ := 17

def clientPort : ℕ := 68

def serverPort : ℕ := 67

/-- `DHCP_MAGIC`, in network order. -/
def dhcpMagic : List (BitVec 8) := [0x63, 0x82, 0x53, 0x63]

def broadcastFlag : ℕ := 0x8000

/-- `udph`, behind the Ethernet header and the `ihl` words of the IP header. -/
def udpOff (m : ℕ → BitVec 8) : ℕ := 14 + (m 14).toNat % 16 * 4

def udpLen (m : ℕ → BitVec 8) : ℕ := word m (udpOff m + 4)

/-- `udph->check`. -/
def check (m : ℕ → BitVec 8) : ℕ := word m (udpOff m + 6)

/-- `dhcph->flags`. -/
def flags (m : ℕ → BitVec 8) : ℕ := word m (udpOff m + 18)

def dhcpFlagBcast (host : Host) (dhcpBcstDisable : Bool) (m : ℕ → BitVec 8) : ℕ → BitVec 8 :=
  let udph := udpOff m
  let dhcph := udph + 8
  if dhcpBcstDisable then m
  else if half host m 12 = host.raw ethPIp then
    if (m 23).toNat = ipprotoUdp then
      if half host m udph = host.raw clientPort ∧ half host m (udph + 2) = host.raw serverPort then
        if load m (dhcph + 236) 4 = dhcpMagic then
          if half host m (dhcph + 10) &&& host.raw broadcastFlag = 0 then
            let flags := half host m (dhcph + 10) ||| host.raw broadcastFlag
            let m := setHalf host m (dhcph + 10) flags
            let sum := fold (65535 - half host m (udph + 6) + flags)
            setHalf host m (udph + 6) (65535 - sum)
          else m
        else m
      else m
    else m
  else m

/-- A DHCP message of a client in a UDP datagram over IPv4. -/
structure DhcpRequest (m : ℕ → BitVec 8) : Prop where
  ipv4 : word m 12 = ethPIp
  ihl : 5 ≤ (m 14).toNat % 16
  udp : (m 23).toNat = ipprotoUdp
  source : word m (udpOff m) = clientPort
  dest : word m (udpOff m + 2) = serverPort
  len : 248 ≤ udpLen m
  cookie : load m (udpOff m + 244) 4 = dhcpMagic

/-- What the UDP checksum covers: the addresses, the protocol and the length, and the datagram. -/
def udpSum (m : ℕ → BitVec 8) : ℕ :=
  sumAt m 26 8 + ipprotoUdp + udpLen m + sumAt m (udpOff m) (udpLen m)

/-- There is a checksum, and it is right. -/
def Valid (m : ℕ → BitVec 8) : Prop := check m ≠ 0 ∧ fold (udpSum m) = 65535

/-- The flag is set and the checksum still as good as it was; the other bytes are as before. -/
structure BroadcastSet (m m' : ℕ → BitVec 8) : Prop where
  flags : flags m' = flags m ||| broadcastFlag
  others : ∀ i, (i < udpOff m + 6 ∨ udpOff m + 8 ≤ i) → (i < udpOff m + 18 ∨ udpOff m + 20 ≤ i) →
    m' i = m i
  check : if check m = 0 then check m' = 0 else Valid m'

section Host

variable {host : Host} {v : ℕ}

theorem exists_bytes (hv : v < 65536) : ∃ h l, h < 256 ∧ l < 256 ∧ v = 256 * h + l :=
  ⟨v / 256, v % 256, by omega, by omega, by omega⟩

theorem raw_bytes {h l : ℕ} (hh : h < 256) (hl : l < 256) :
    Host.littleEndian.raw (256 * h + l) = 256 * l + h := by
  show (256 * h + l) % 256 * 256 + (256 * h + l) / 256 % 256 = 256 * l + h
  omega

theorem raw_lt (host : Host) (hv : v < 65536) : host.raw v < 65536 := by
  cases host with
  | bigEndian => exact hv
  | littleEndian =>
    obtain ⟨h, l, hh, hl, rfl⟩ := exists_bytes hv
    rw [raw_bytes hh hl]
    omega

theorem raw_raw (host : Host) (hv : v < 65536) : host.raw (host.raw v) = v := by
  cases host with
  | bigEndian => rfl
  | littleEndian =>
    obtain ⟨h, l, hh, hl, rfl⟩ := exists_bytes hv
    rw [raw_bytes hh hl, raw_bytes hl hh]

theorem raw_inj {w : ℕ} (hv : v < 65536) (hw : w < 65536) : host.raw v = host.raw w ↔ v = w := by
  refine ⟨fun h ↦ ?_, congrArg _⟩
  rw [← raw_raw host hv, h, raw_raw host hw]

/-- The bit of `BROADCAST_FLAG` in either byte order. -/
theorem raw_and_broadcast (host : Host) (hv : v < 65536) :
    host.raw v &&& host.raw broadcastFlag = 0 ↔ v < broadcastFlag := by
  have hb : broadcastFlag = 32768 := rfl
  cases host with
  | bigEndian =>
    show v &&& 2 ^ 15 = 0 ↔ v < broadcastFlag
    rw [and_two_pow_eq_zero_iff]
    omega
  | littleEndian =>
    obtain ⟨h, l, hh, hl, rfl⟩ := exists_bytes hv
    rw [raw_bytes hh hl]
    show (256 * l + h) &&& 2 ^ 7 = 0 ↔ 256 * h + l < broadcastFlag
    have hshift : (256 * l + h) / 2 ^ 7 = 2 * l + h / 128 := by omega
    rw [and_two_pow_eq_zero_iff, hshift, Nat.mul_add_mod]
    omega

theorem or_broadcast (hv : v < broadcastFlag) : v ||| broadcastFlag = v + broadcastFlag := by
  apply or_eq_add
  exact (raw_and_broadcast .bigEndian (hv.trans (by decide))).mpr hv

theorem or_broadcast_of_le (hv : v < 65536) (hset : broadcastFlag ≤ v) :
    v ||| broadcastFlag = v := by
  have hb : broadcastFlag = 32768 := rfl
  obtain ⟨w, rfl⟩ := Nat.exists_eq_add_of_le' hset
  rw [← or_broadcast (show w < broadcastFlag by omega), Nat.or_assoc, Nat.or_self]

/-- Setting the flag in either byte order. -/
theorem raw_or_broadcast (host : Host) (hv : v < broadcastFlag) :
    host.raw v ||| host.raw broadcastFlag = host.raw (v + broadcastFlag) := by
  have hlt : v < 65536 := hv.trans (by decide)
  have hb : broadcastFlag = 256 * 128 + 0 := rfl
  rw [or_eq_add ((raw_and_broadcast host hlt).mpr hv)]
  cases host with
  | bigEndian => rfl
  | littleEndian =>
    obtain ⟨h, l, hh, hl, rfl⟩ := exists_bytes hlt
    rw [hb, show 256 * h + l + (256 * 128 + 0) = 256 * (h + 128) + l by omega, raw_bytes hh hl,
      raw_bytes (by decide) (by decide), raw_bytes (by omega) hl]
    omega

/-- `check` after the update, in network order. -/
def patched (host : Host) (c f : ℕ) : ℕ :=
  host.raw (65535 - fold (65535 - host.raw c + host.raw f))

theorem patched_lt (host : Host) (c f : ℕ) : patched host c f < 65536 :=
  raw_lt host (by omega)

/-- The update subtracts the new flags from the checksum, in either byte order. -/
theorem patched_add (host : Host) {c f : ℕ} (hc : c < 65536) (hf : f < 65536) :
    (patched host c f + f) % 65535 = c % 65535 := by
  have hlt := fold_lt (65535 - host.raw c + host.raw f)
  have hmod := fold_mod (65535 - host.raw c + host.raw f)
  obtain ⟨sh, sl, hsh, hsl, hs⟩ := exists_bytes
    (show 65535 - fold (65535 - host.raw c + host.raw f) < 65536 by omega)
  rw [patched, hs]
  cases host with
  | bigEndian =>
    simp only [Host.raw] at *
    omega
  | littleEndian =>
    obtain ⟨ch, cl, hch, hcl, rfl⟩ := exists_bytes hc
    obtain ⟨fh, fl, hfh, hfl, rfl⟩ := exists_bytes hf
    rw [raw_bytes hch hcl, raw_bytes hfh hfl] at *
    rw [raw_bytes hsh hsl]
    omega

/-- The update comes to no checksum at all where the new flags make the old one up. -/
theorem patched_eq_zero_iff (host : Host) {c f : ℕ} (hc : c < 65536) (hf : f < 65536)
    (hpos : 0 < f) : patched host c f = 0 ↔ c % 65535 = f % 65535 := by
  have hadd := patched_add host hc hf
  have hlt := patched_lt host c f
  have hones : host.raw 65535 = 65535 := by cases host <;> rfl
  have hzero : host.raw 0 = 0 := by cases host <;> rfl
  have hne : patched host c f ≠ 65535 := by
    intro h
    have hf0 : host.raw f ≠ host.raw 0 := fun h ↦ hpos.ne' ((raw_inj hf (by decide)).mp h)
    have hfold := fold_pos (show 0 < 65535 - host.raw c + host.raw f by omega)
    have hones' := (raw_inj (by omega) (by decide)).mp (h.trans hones.symm)
    omega
  omega

end Host

section Packet

variable {host : Host} {m : ℕ → BitVec 8}

/-- What the function comes to for a request without the flag. -/
theorem dhcpFlagBcast_request (hreq : DhcpRequest m) (hflags : flags m < broadcastFlag) :
    dhcpFlagBcast host false m =
      setWord (setWord m (udpOff m + 18) (flags m + broadcastFlag)) (udpOff m + 6)
        (patched host (check m) (flags m + broadcastFlag)) := by
  have hlt : flags m + broadcastFlag < 65536 := by
    have : broadcastFlag = 32768 := rfl
    omega
  have hipv4 : half host m 12 = host.raw ethPIp := by rw [half, hreq.ipv4]
  have hports : half host m (udpOff m) = host.raw clientPort ∧
      half host m (udpOff m + 2) = host.raw serverPort := by
    rw [half, half, hreq.source, hreq.dest]
    exact ⟨rfl, rfl⟩
  have hcookie : load m (udpOff m + 8 + 236) 4 = dhcpMagic := hreq.cookie
  have hclear : half host m (udpOff m + 8 + 10) &&& host.raw broadcastFlag = 0 :=
    (raw_and_broadcast host (word_lt m _)).mpr hflags
  have hset : half host m (udpOff m + 8 + 10) ||| host.raw broadcastFlag =
      host.raw (flags m + broadcastFlag) := raw_or_broadcast host hflags
  unfold dhcpFlagBcast
  dsimp only
  rw [if_neg Bool.false_ne_true, if_pos hipv4, if_pos hreq.udp, if_pos hports, if_pos hcookie,
    if_pos hclear, hset, setHalf, setHalf, raw_raw host hlt, half,
    word_setWord_of_disjoint (by omega)]
  rfl

/-- It leaves every other request as it is. -/
theorem dhcpFlagBcast_same {disable : Bool} (h : disable = true ∨ broadcastFlag ≤ flags m) :
    dhcpFlagBcast host disable m = m := by
  unfold dhcpFlagBcast
  rcases h with rfl | h
  · rfl
  · have hset : ¬half host m (udpOff m + 8 + 10) &&& host.raw broadcastFlag = 0 := by
      rw [half, raw_and_broadcast host (word_lt m _)]
      exact not_lt.mpr h
    simp only [hset, if_false, ite_self]

/-- The fields after the update of a request. -/
structure Updated (host : Host) (m m' : ℕ → BitVec 8) : Prop where
  newFlags : flags m' = flags m + broadcastFlag
  newCheck : check m' = patched host (check m) (flags m + broadcastFlag)
  sum : udpSum m' + check m + flags m = udpSum m + check m' + flags m'
  others : ∀ i, (i < udpOff m + 6 ∨ udpOff m + 8 ≤ i) → (i < udpOff m + 18 ∨ udpOff m + 20 ≤ i) →
    m' i = m i

theorem dhcpFlagBcast_updated (hreq : DhcpRequest m) (hflags : flags m < broadcastFlag) :
    Updated host m (dhcpFlagBcast host false m) := by
  have hoff : 34 ≤ udpOff m := by
    have := hreq.ihl
    rw [udpOff]
    omega
  have hlt : flags m + broadcastFlag < 65536 := by
    have : broadcastFlag = 32768 := rfl
    omega
  have hplt := patched_lt host (check m) (flags m + broadcastFlag)
  rw [dhcpFlagBcast_request hreq hflags]
  set c := patched host (check m) (flags m + broadcastFlag)
  set m₁ := setWord m (udpOff m + 18) (flags m + broadcastFlag) with hm₁
  set m₂ := setWord m₁ (udpOff m + 6) c with hm₂
  have hothers : ∀ i, (i < udpOff m + 6 ∨ udpOff m + 8 ≤ i) →
      (i < udpOff m + 18 ∨ udpOff m + 20 ≤ i) → m₂ i = m i := by
    intro i hi hi'
    rw [hm₂, setWord_of_disjoint hi, hm₁, setWord_of_disjoint hi']
  have hudp : udpOff m₂ = udpOff m := by rw [udpOff, hothers 14 (by omega) (by omega), udpOff]
  have hlen : udpLen m₂ = udpLen m := by
    rw [udpLen, hudp, word, hothers _ (by omega) (by omega), hothers _ (by omega) (by omega)]
    rfl
  have hflags' : flags m₂ = flags m + broadcastFlag := by
    rw [flags, hudp, hm₂, word_setWord_of_disjoint (by omega), hm₁, word_setWord hlt]
  have hcheck : check m₂ = c := by rw [check, hudp, hm₂, word_setWord hplt]
  refine ⟨hflags', hcheck, ?_, hothers⟩
  have hlen' := hreq.len
  have hsum₁ := @sumAt_setWord m (udpOff m) _ 9 (udpLen m) hlt (by omega)
  have hsum₂ := @sumAt_setWord m₁ (udpOff m) _ 3 (udpLen m) hplt (by omega)
  have hpseudo : sumAt m₂ 26 8 = sumAt m 26 8 :=
    sumAt_congr fun i hi hi' ↦ hothers i (by omega) (by omega)
  have hold : word m₁ (udpOff m + 6) = check m := word_setWord_of_disjoint (by omega)
  rw [udpSum, udpSum, hudp, hlen, hpseudo, hcheck, hflags']
  change sumAt m₁ (udpOff m) (udpLen m) + flags m = _ at hsum₁
  change sumAt m₂ (udpOff m) (udpLen m) + word m₁ (udpOff m + 6) = _ at hsum₂
  omega

/-- The checksum after the update of a request. -/
theorem Updated.check_iff {m' : ℕ → BitVec 8} (h : Updated host m m')
    (hflags : flags m < broadcastFlag) (hcheck : check m = 0 ∨ Valid m) :
    (if check m = 0 then check m' = 0 else Valid m') ↔
      if check m = 0 then flags m = 0x7fff else flags m = 0 ∧ check m ≠ broadcastFlag := by
  have hb : broadcastFlag = 32768 := rfl
  have hc := word_lt m (udpOff m + 6)
  change check m < 65536 at hc
  have hzero := patched_eq_zero_iff host hc (show flags m + broadcastFlag < 65536 by omega)
    (by omega)
  have hadd := patched_add host hc (show flags m + broadcastFlag < 65536 by omega)
  have hsum := h.sum
  rw [← h.newCheck] at hzero hadd
  rw [h.newFlags] at hsum
  by_cases habsent : check m = 0
  · rw [if_pos habsent, if_pos habsent, hzero, habsent]
    omega
  · rw [if_neg habsent, if_neg habsent, Valid]
    obtain ⟨-, hold⟩ := hcheck.resolve_left habsent
    have hpos : 0 < udpSum m := by
      rw [udpSum, ipprotoUdp]
      omega
    have hpos' : 0 < udpSum m' := by
      rw [udpSum, ipprotoUdp]
      omega
    rw [fold_eq_max_iff hpos] at hold
    rw [fold_eq_max_iff hpos', Ne, hzero]
    omega

/-- The update is right for exactly these requests: it takes the new flags from the checksum, where
it should take the difference to the old ones, and does not know a checksum that is not there. -/
theorem dhcpFlagBcast_valid_iff (host : Host) (disable : Bool) (m : ℕ → BitVec 8)
    (hreq : DhcpRequest m) (hcheck : check m = 0 ∨ Valid m) :
    BroadcastSet m (dhcpFlagBcast host disable m) ↔
      broadcastFlag ≤ flags m ∨ (disable = false ∧
        if check m = 0 then flags m = 0x7fff else flags m = 0 ∧ check m ≠ broadcastFlag) := by
  rcases lt_or_ge (flags m) broadcastFlag with hflags | hset
  · rw [or_iff_right (not_le.mpr hflags)]
    cases disable with
    | true =>
      rw [dhcpFlagBcast_same (Or.inl rfl)]
      refine ⟨fun h ↦ ?_, fun h ↦ absurd h.1 (by decide)⟩
      have hset := h.flags
      have hpos : 0 < broadcastFlag := by decide
      rw [or_broadcast hflags] at hset
      omega
    | false =>
      have hupd := @dhcpFlagBcast_updated host m hreq hflags
      rw [← hupd.check_iff hflags hcheck]
      refine ⟨fun h ↦ ⟨rfl, h.check⟩, fun h ↦ ⟨?_, hupd.others, h.2⟩⟩
      rw [hupd.newFlags, or_broadcast hflags]
  · rw [dhcpFlagBcast_same (Or.inr hset)]
    refine iff_of_true ⟨(or_broadcast_of_le (word_lt m _) hset).symm, fun _ _ _ ↦ rfl, ?_⟩
      (Or.inl hset)
    split_ifs with h
    · exact h
    · exact hcheck.resolve_left h

/-- A DISCOVER of 268 bytes with the given checksum, and no flags. -/
def discover (ck : ℕ) : ℕ → BitVec 8 := fun i ↦
  if i < 278 then
    ([0xff, 0xff, 0xff, 0xff, 0xff, 0xff, 0x02, 0, 0, 0, 0, 1, 0x08, 0x00,
      0x45, 0, 0x01, 0x0c, 0, 0, 0, 0, 0x40, 17, 0, 0, 0, 0, 0, 0, 0xff, 0xff, 0xff, 0xff,
      0, 68, 0, 67, 0x00, 0xf8] ++ Bytes.be16 ck ++ [1, 1, 6, 0]).getD i 0
  else dhcpMagic.getD (i - 278) 0

theorem udpOff_discover (ck : ℕ) : udpOff (discover ck) = 34 := by
  have hihl : discover ck 14 = 0x45 := rfl
  rw [udpOff, hihl]
  rfl

theorem word_discover {ck a : ℕ} {x y : BitVec 8} (hx : discover ck a = x)
    (hy : discover ck (a + 1) = y) : word (discover ck) a = x.toNat * 256 + y.toNat := by
  rw [word, hx, hy]

theorem discover_request (ck : ℕ) : DhcpRequest (discover ck) where
  ipv4 := word_discover (x := 0x08) (y := 0x00) rfl rfl
  ihl := by
    have hihl : discover ck 14 = 0x45 := rfl
    rw [hihl]
    decide
  udp := by
    have hproto : discover ck 23 = 17 := rfl
    rw [hproto]
    rfl
  source := by
    rw [udpOff_discover]
    exact word_discover (x := 0) (y := 68) rfl rfl
  dest := by
    rw [udpOff_discover]
    exact word_discover (x := 0) (y := 67) rfl rfl
  len := by
    rw [udpLen, udpOff_discover, word_discover (x := 0x00) (y := 0xf8) rfl rfl]
    decide
  cookie := by
    rw [udpOff_discover]
    rfl

/-- With the checksum that it should have, it comes out right. -/
theorem discover_broadcastSet :
    BroadcastSet (discover 0x3f91) (dhcpFlagBcast .littleEndian false (discover 0x3f91)) := by
  have hvalid : Valid (discover 0x3f91) :=
    ⟨by decide, (fold_eq_max_iff (by decide +kernel)).mpr (by decide +kernel)⟩
  apply (dhcpFlagBcast_valid_iff .littleEndian false (discover 0x3f91) (discover_request _)
    (Or.inr hvalid)).mpr
  refine Or.inr ⟨rfl, ?_⟩
  rw [if_neg (by decide)]
  exact ⟨rfl, by decide⟩

/-- Without a checksum it gets a wrong one. -/
theorem discover_without_checksum :
    ¬∀ m, DhcpRequest m → check m = 0 ∨ Valid m →
      BroadcastSet m (dhcpFlagBcast .littleEndian false m) := by
  intro h
  have habsent : check (discover 0) = 0 := rfl
  have hset := (h _ (discover_request 0) (Or.inl habsent)).check
  have hupd := @dhcpFlagBcast_updated .littleEndian _ (discover_request 0)
    (show flags (discover 0) < broadcastFlag by decide)
  rw [if_pos habsent, hupd.newCheck,
    patched_eq_zero_iff _ (by decide) (by decide) (by decide)] at hset
  exact absurd hset (by decide)

end Packet

end Rtl8821cu.DhcpBcast
