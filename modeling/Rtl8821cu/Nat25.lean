import Rtl8821cu.MacAddr

/-! NAT2.5 (`core/rtw_br_ext.c`, `rtw_br_client_tx` of `core/rtw_xmit.c`): the table that gives the
address of the client behind the bridge for an IPv4 address, and its one-entry shortcut. -/
namespace Rtl8821cu.Nat25

/-- An IPv4 address, first byte first. -/
abbrev Ip := Vector (BitVec 8) 4

theorem Ip.three_lt_four : 3 < 4 := by decide

def Ip.zero : Ip := Vector.replicate 4 0

/-- `__nat25_network_hash` of an IPv4 address. -/
def nat25NetworkHash (ip : Ip) : ℕ :=
  (ip[0] ^^^ ip[1] ^^^ ip[2] ^^^ ip[3]).toNat % 16

/-- `struct nat25_network_db_entry` of an IPv4 address. -/
structure Entry where
  networkAddr : Ip
  macAddr : Mac
  useCount : ℤ
  ageingTimer : ℕ

/-- What the routines use of the adapter. `scdb_entry` points into the table, where an address has
one entry: it is told by the address. -/
structure BrExt where
  brMac : Mac
  nethash : ℕ → List Entry
  scdbMac : Mac
  scdbIp : Ip
  scdbEntry : Option Ip

/-- A new adapter. -/
def init (brMac : Mac) : BrExt := ⟨brMac, fun _ => [], Mac.zero, Ip.zero, none⟩

/-- The first entry of a bucket with an address is changed. -/
def modifyFirst (ip : Ip) (f : Entry → Entry) : List Entry → List Entry
  | [] => []
  | e :: l => if e.networkAddr = ip then f e :: l else e :: modifyFirst ip f l

namespace BrExt

variable (p : BrExt) (now ageing : ℕ)

/-- `scdb_findEntry`, and the search of the other routines. -/
def scdbFindEntry (ip : Ip) : Option Entry :=
  (p.nethash (nat25NetworkHash ip)).find? fun e => e.networkAddr = ip

def modifyEntry (ip : Ip) (f : Entry → Entry) : BrExt :=
  { p with
    nethash := Function.update p.nethash (nat25NetworkHash ip)
      (modifyFirst ip f (p.nethash (nat25NetworkHash ip))) }

/-- `__nat25_db_network_insert`; a new entry goes to the front of its bucket. -/
def nat25DbNetworkInsert (mac : Mac) (ip : Ip) : BrExt :=
  match p.scdbFindEntry ip with
  | some _ => p.modifyEntry ip fun e => { e with macAddr := mac, ageingTimer := now }
  | none =>
    { p with
      nethash := Function.update p.nethash (nat25NetworkHash ip)
        (⟨ip, mac, 1, now⟩ :: p.nethash (nat25NetworkHash ip)) }

/-- `scdb_entry->ageing_timer = jiffies`. -/
def refresh (ip : Ip) : BrExt := p.modifyEntry ip fun e => { e with ageingTimer := now }

/-- `__nat25_has_expired`, with `NAT25_AGEING_TIME * HZ`. -/
def nat25HasExpired (e : Entry) : Bool := decide (e.ageingTimer + ageing ≤ now)

/-- `rtw_br_client_tx` for an IPv4 frame of a client without VLAN tag; the state that is left. The
address zero is not learned. -/
def rtwBrClientTx (mcast brPort : Bool) (sa : Mac) (saddr : Ip) : BrExt :=
  if !mcast && brPort && sa != p.brMac && p.scdbMac == sa && p.scdbEntry.isSome then
    match p.scdbEntry with
    | some ip => p.refresh now ip
    | none => p
  else if p.scdbMac != sa then
    match p.scdbFindEntry saddr with
    | some _ =>
      { p with scdbMac := sa, scdbIp := saddr, scdbEntry := some saddr }.refresh now saddr
    | none =>
      let p := { p with scdbEntry := none }
      if saddr = Ip.zero then p else p.nat25DbNetworkInsert now sa saddr
  else
    match p.scdbEntry with
    | some ip => p.refresh now ip
    | none =>
      let p := { p with scdbMac := Mac.zero, scdbIp := Ip.zero }
      if saddr = Ip.zero then p else p.nat25DbNetworkInsert now sa saddr

/-- `__nat25_db_network_lookup_and_replace` and what follows it for an IPv4 frame; the destination
that the frame gets. -/
def nat25DbLookup (da : Mac) (daddr : Ip) : Mac × BrExt :=
  match p.scdbFindEntry daddr with
  | some e =>
    if nat25HasExpired now ageing e then (da, p)
    else (e.macAddr, p.modifyEntry daddr fun e => { e with useCount := e.useCount + 1 })
  | none => (if daddr[3] = 0xff then Mac.broadcast else p.brMac, p)

/-- `nat25_handle_frame` for a unicast IPv4 frame. -/
def nat25HandleFrame (da : Mac) (daddr : Ip) : Mac × BrExt :=
  if p.scdbIp = daddr then (p.scdbMac, p) else p.nat25DbLookup now ageing da daddr

/-- The entries of a bucket that `nat25_db_expire` leaves. -/
def expireBucket : List Entry → List Entry
  | [] => []
  | e :: l =>
    if nat25HasExpired now ageing e then
      if e.useCount - 1 = 0 then expireBucket l
      else { e with useCount := e.useCount - 1 } :: expireBucket l
    else e :: expireBucket l

/-- The entry of the shortcut is one that `nat25_db_expire` removes. -/
def scdbExpires : Bool :=
  match p.scdbEntry.bind p.scdbFindEntry with
  | some e => nat25HasExpired now ageing e && e.useCount - 1 == 0
  | none => false

def nat25DbExpire : BrExt :=
  let q := { p with nethash := fun h => expireBucket now ageing (p.nethash h) }
  if p.scdbExpires now ageing then
    { q with scdbMac := Mac.zero, scdbIp := Ip.zero, scdbEntry := none }
  else q

end BrExt

/-- What happens at the bridge. -/
inductive Event
  | client (mcast brPort : Bool) (sa : Mac) (saddr : Ip)
  | receive (da : Mac) (daddr : Ip)
  | expire

/-- An event with its time, in jiffies. -/
structure TimedEvent where
  now : ℕ
  event : Event

def step (ageing : ℕ) (p : BrExt) (e : TimedEvent) : BrExt :=
  match e.event with
  | .client mcast brPort sa saddr => p.rtwBrClientTx e.now mcast brPort sa saddr
  | .receive da daddr => (p.nat25HandleFrame e.now ageing da daddr).2
  | .expire => p.nat25DbExpire e.now ageing

end Rtl8821cu.Nat25
