import Rtl8821cu.LibRun
import Rtl8821cu.Nat25

/-! Address learning over whole runs: what the table and the shortcut of NAT2.5 say of an address,
against the client frames that were sent from it. -/
namespace Rtl8821cu.Nat25
open Run

/-- The table as a function, with the shortcut. -/
structure View where
  brMac : Mac
  table : Ip → Option Mac
  scdbMac : Mac
  scdbIp : Ip
  scdbEntry : Option Ip

/-- What a client frame does. -/
def View.client (v : View) (sa : Mac) (saddr : Ip) : View :=
  if v.scdbMac = sa then
    if v.scdbEntry.isSome then v
    else { v with
      table := Function.update v.table saddr (some sa)
      scdbMac := Mac.zero
      scdbIp := Ip.zero }
  else if (v.table saddr).isSome then
    { v with scdbMac := sa, scdbIp := saddr, scdbEntry := some saddr }
  else { v with table := Function.update v.table saddr (some sa), scdbEntry := none }

/-- The destination that a received frame gets. -/
def View.resolve (v : View) (daddr : Ip) : Mac :=
  if v.scdbIp = daddr then v.scdbMac
  else (v.table daddr).getD (if getElem daddr 3 Ip.three_lt_four = 0xff then Mac.broadcast else v.brMac)

namespace BrExt

def view (p : BrExt) : View :=
  ⟨p.brMac, fun ip => (p.scdbFindEntry ip).map Entry.macAddr, p.scdbMac, p.scdbIp, p.scdbEntry⟩

section Table

variable (p : BrExt) (ip : Ip)

theorem find_modifyFirst {f : Entry → Entry} (hf : ∀ e, (f e).networkAddr = e.networkAddr)
    (l : List Entry) (ip' : Ip) :
    (modifyFirst ip f l).find? (fun e => e.networkAddr = ip') =
      if ip' = ip then (l.find? fun e => e.networkAddr = ip').map f
      else l.find? fun e => e.networkAddr = ip' := by
  induction l with
  | nil => simp [modifyFirst]
  | cons e l ih =>
    rw [modifyFirst]
    by_cases he : e.networkAddr = ip
    · rw [if_pos he]
      by_cases hip : ip' = ip
      · simp [hf, he, hip]
      · have hne : e.networkAddr ≠ ip' := fun h => hip (h.symm.trans he)
        simp [hf, hne, hip]
    · rw [if_neg he]
      by_cases hip : e.networkAddr = ip'
      · have hne : ip' ≠ ip := fun h => he (hip.trans h)
        simp [hip, hne]
      · simp [hip, ih]

theorem scdbFindEntry_modifyEntry {f : Entry → Entry}
    (hf : ∀ e, (f e).networkAddr = e.networkAddr) (ip' : Ip) :
    (p.modifyEntry ip f).scdbFindEntry ip' =
      if ip' = ip then (p.scdbFindEntry ip').map f else p.scdbFindEntry ip' := by
  unfold scdbFindEntry modifyEntry
  by_cases hh : nat25NetworkHash ip' = nat25NetworkHash ip
  · simp only [hh, Function.update_self]
    exact find_modifyFirst ip hf _ ip'
  · have hne : ip' ≠ ip := fun h => hh (by rw [h])
    simp [hh, hne]

/-- A change that keeps the address and the MAC of an entry is not seen. -/
theorem view_modifyEntry {f : Entry → Entry} (hf : ∀ e, (f e).networkAddr = e.networkAddr)
    (hm : ∀ e, (f e).macAddr = e.macAddr) : (p.modifyEntry ip f).view = p.view := by
  unfold view
  congr 1
  funext ip'
  rw [scdbFindEntry_modifyEntry p ip hf]
  split_ifs
  · rw [Option.map_map]
    exact Option.map_congr fun e _ => hm e
  · rfl

theorem view_insert (now : ℕ) (mac : Mac) :
    (p.nat25DbNetworkInsert now mac ip).view =
      { p.view with table := Function.update p.view.table ip (some mac) } := by
  unfold nat25DbNetworkInsert
  cases hf : p.scdbFindEntry ip with
  | some e =>
    have hfind := scdbFindEntry_modifyEntry p ip
      (f := fun e => { e with macAddr := mac, ageingTimer := now }) (fun _ => rfl)
    unfold view
    congr 1
    funext ip'
    dsimp only
    rw [hfind]
    by_cases hip : ip' = ip
    · subst hip
      simp [hf]
    · simp [hip]
  | none =>
    unfold view
    congr 1
    funext ip'
    unfold scdbFindEntry
    by_cases hip : ip' = ip
    · subst hip
      simp
    · by_cases hh : nat25NetworkHash ip' = nat25NetworkHash ip
      · have hne : ip ≠ ip' := fun h => hip h.symm
        simp [hh, hip, hne]
      · simp [hh, hip]

end Table

section Client

variable (p : BrExt) (now : ℕ) (mcast brPort : Bool) (sa : Mac) (saddr : Ip)

theorem view_refresh (ip : Ip) : (p.refresh now ip).view = p.view :=
  view_modifyEntry p ip (fun _ => rfl) fun _ => rfl

/-- A client frame with a source address acts on the table and the shortcut as told. -/
theorem view_rtwBrClientTx (hz : saddr ≠ Ip.zero) :
    (p.rtwBrClientTx now mcast brPort sa saddr).view = p.view.client sa saddr := by
  unfold rtwBrClientTx View.client
  by_cases hmac : p.scdbMac = sa
  · have hv : p.view.scdbMac = sa := hmac
    rw [if_pos hv]
    cases hentry : p.scdbEntry with
    | some ip =>
      have hve : p.view.scdbEntry.isSome = true := by simp [view, hentry]
      rw [if_pos hve]
      split_ifs with h1 h2
      · exact view_refresh p now ip
      · simp [hmac] at h2
      · exact view_refresh p now ip
    | none =>
      have hve : ¬p.view.scdbEntry.isSome = true := by simp [view, hentry]
      rw [if_neg hve, if_neg (by simp), if_neg (by simp [hmac])]
      dsimp only
      rw [if_neg hz, view_insert]
      simp only [view, hentry]
      rfl
  · have hv : ¬p.view.scdbMac = sa := hmac
    rw [if_neg hv, if_neg (by simp [hmac]), if_pos (by simp [hmac])]
    cases hf : p.scdbFindEntry saddr with
    | some e =>
      have ht : (p.view.table saddr).isSome = true := by simp [view, hf]
      rw [if_pos ht]
      exact view_refresh _ now saddr
    | none =>
      have ht : ¬(p.view.table saddr).isSome = true := by simp [view, hf]
      rw [if_neg ht]
      dsimp only
      rw [if_neg hz, view_insert]
      rfl

end Client

/-- No entry is older than `t`. -/
def Since (p : BrExt) (t : ℕ) : Prop := ∀ h, ∀ e ∈ p.nethash h, t ≤ e.ageingTimer

section Since

variable {p : BrExt} {t now ageing : ℕ}

theorem mem_modifyFirst {ip : Ip} {f : Entry → Entry} {l : List Entry} {e : Entry}
    (h : e ∈ modifyFirst ip f l) : e ∈ l ∨ ∃ e' ∈ l, e = f e' := by
  induction l with
  | nil => exact .inl h
  | cons a l ih =>
    rw [modifyFirst] at h
    split_ifs at h
    · rcases List.mem_cons.mp h with rfl | h
      · exact .inr ⟨a, by simp, rfl⟩
      · exact .inl (by simp [h])
    · rcases List.mem_cons.mp h with rfl | h
      · exact .inl (by simp)
      · rcases ih h with h | ⟨e', he', rfl⟩
        · exact .inl (by simp [h])
        · exact .inr ⟨e', by simp [he'], rfl⟩

theorem Since.modifyEntry (h : p.Since t) (ip : Ip) {f : Entry → Entry}
    (hf : ∀ e, t ≤ e.ageingTimer → t ≤ (f e).ageingTimer) : (p.modifyEntry ip f).Since t := by
  intro k e he
  by_cases hk : k = nat25NetworkHash ip
  · subst hk
    simp only [BrExt.modifyEntry, Function.update_self] at he
    rcases mem_modifyFirst he with he | ⟨e', he', rfl⟩
    · exact h _ e he
    · exact hf e' (h _ e' he')
  · simp only [BrExt.modifyEntry, Function.update_of_ne hk] at he
    exact h k e he

theorem Since.refresh (h : p.Since t) (ht : t ≤ now) (ip : Ip) : (p.refresh now ip).Since t :=
  h.modifyEntry ip fun _ _ => ht

theorem Since.insert (h : p.Since t) (ht : t ≤ now) (mac : Mac) (ip : Ip) :
    (p.nat25DbNetworkInsert now mac ip).Since t := by
  unfold nat25DbNetworkInsert
  split
  · exact h.modifyEntry ip fun _ _ => ht
  · intro k e he
    by_cases hk : k = nat25NetworkHash ip
    · subst hk
      simp only [Function.update_self] at he
      rcases List.mem_cons.mp he with rfl | he
      · exact ht
      · exact h _ e he
    · simp only [Function.update_of_ne hk] at he
      exact h k e he

theorem Since.rtwBrClientTx (h : p.Since t) (ht : t ≤ now) (mcast brPort : Bool) (sa : Mac)
    (saddr : Ip) : (p.rtwBrClientTx now mcast brPort sa saddr).Since t := by
  have hinsert : ∀ {q : BrExt}, q.Since t →
      (if saddr = Ip.zero then q else q.nat25DbNetworkInsert now sa saddr).Since t := by
    intro q hq
    split_ifs
    · exact hq
    · exact hq.insert ht sa saddr
  unfold BrExt.rtwBrClientTx
  split
  · split
    · exact h.refresh ht _
    · exact h
  · split
    · split
      · exact Since.refresh h ht saddr
      · exact hinsert h
    · split
      · exact h.refresh ht _
      · exact hinsert h

theorem Since.not_expired (h : p.Since t) (hnow : now < t + ageing) {k : ℕ} {e : Entry}
    (he : e ∈ p.nethash k) : nat25HasExpired now ageing e = false := by
  have := h k e he
  simp only [nat25HasExpired, decide_eq_false_iff_not]
  omega

theorem mem_of_scdbFindEntry {ip : Ip} {e : Entry} (h : p.scdbFindEntry ip = some e) :
    e ∈ p.nethash (nat25NetworkHash ip) := List.mem_of_find?_eq_some h

/-- Within the ageing time a received frame is resolved by the shortcut or the table. -/
theorem Since.resolve (h : p.Since t) (hnow : now < t + ageing) (da : Mac) (daddr : Ip) :
    (p.nat25HandleFrame now ageing da daddr).1 = p.view.resolve daddr := by
  unfold nat25HandleFrame View.resolve
  by_cases hs : p.scdbIp = daddr
  · have hv : p.view.scdbIp = daddr := hs
    rw [if_pos hs, if_pos hv]
    rfl
  · have hv : ¬p.view.scdbIp = daddr := hs
    rw [if_neg hs, if_neg hv]
    unfold nat25DbLookup
    cases hf : p.scdbFindEntry daddr with
    | some e => simp [h.not_expired hnow (mem_of_scdbFindEntry hf), view, hf]
    | none => simp [view, hf]

theorem Since.receive (h : p.Since t) (da : Mac) (daddr : Ip) :
    (p.nat25HandleFrame now ageing da daddr).2.Since t ∧
      (p.nat25HandleFrame now ageing da daddr).2.view = p.view := by
  unfold nat25HandleFrame nat25DbLookup
  split
  · exact ⟨h, rfl⟩
  · split
    · split
      · exact ⟨h, rfl⟩
      · exact ⟨h.modifyEntry daddr fun _ he => he,
          view_modifyEntry p daddr (fun _ => rfl) fun _ => rfl⟩
    · exact ⟨h, rfl⟩

theorem expireBucket_eq {l : List Entry} (h : ∀ e ∈ l, nat25HasExpired now ageing e = false) :
    expireBucket now ageing l = l := by
  induction l with
  | nil => rfl
  | cons e l ih =>
    rw [expireBucket, h e (by simp), ih fun x hx => h x (by simp [hx])]
    rfl

/-- Within the ageing time nothing expires. -/
theorem Since.expire (h : p.Since t) (hnow : now < t + ageing) : p.nat25DbExpire now ageing = p := by
  have hbuckets : (fun k => expireBucket now ageing (p.nethash k)) = p.nethash := by
    funext k
    exact expireBucket_eq fun e he => h.not_expired hnow he
  have hscdb : p.scdbExpires now ageing = false := by
    unfold scdbExpires
    split
    · rename_i e he
      obtain ⟨ip, -, hf⟩ := Option.bind_eq_some_iff.mp he
      rw [h.not_expired hnow (mem_of_scdbFindEntry hf), Bool.false_and]
    · rfl
  rw [nat25DbExpire, hbuckets, hscdb]
  rfl

end Since

end BrExt

/-- The bridge with the source MAC of the last client frame from each address. -/
structure World where
  br : BrExt
  last : Ip → Option Mac

def World.init (brMac : Mac) : World := ⟨Nat25.init brMac, fun _ => none⟩

def World.step (ageing : ℕ) (w : World) (e : TimedEvent) : World :=
  { br := Nat25.step ageing w.br e
    last := match e.event with
      | .client _ _ sa saddr => Function.update w.last saddr (some sa)
      | _ => w.last }

/-- A client frame is from an address, and not from the bridge itself. -/
def Event.FromClient (brMac : Mac) : Event → Prop
  | .client _ _ sa saddr => sa ≠ brMac ∧ saddr ≠ Ip.zero
  | _ => True

/-- A frame to an address that a client sent from goes to the client that sent last, as long as
the ageing time from `t` on lasts. -/
def World.Sound (ageing t : ℕ) (w : World) : Prop :=
  ∀ now < t + ageing, ∀ da x mac, w.last x = some mac →
    (w.br.nat25HandleFrame now ageing da x).1 = mac

namespace View

/-- What always holds of the table, the shortcut and the clients. -/
structure Inv (v : View) (last : Ip → Option Mac) : Prop where
  known : ∀ x, (v.table x).isSome → (last x).isSome
  scdb : v.scdbIp ≠ Ip.zero → (v.table v.scdbIp).isSome
  zero : last Ip.zero = none

/-- Every address that a client sent from resolves to the client that sent last. -/
def Sound (v : View) (last : Ip → Option Mac) : Prop :=
  ∀ x mac, last x = some mac → v.resolve x = mac

/-- The condition on a client frame. One that the shortcut answers carries the address of the
shortcut, or one that the table has for that MAC; an unknown address that ends in 255 is given to
the broadcast MAC anyway. When the shortcut is given up, the table agrees with it. -/
def Learns (v : View) (sa : Mac) (saddr : Ip) : Prop :=
  if v.scdbMac = sa ∧ v.scdbEntry.isSome then
    v.scdbIp = saddr ∨ v.table saddr = some sa ∨
      v.table saddr = none ∧ getElem saddr 3 Ip.three_lt_four = 0xff ∧ sa = Mac.broadcast
  else if v.scdbMac = sa ∨ (v.table saddr).isSome then
    v.scdbIp = Ip.zero ∨ v.scdbIp = saddr ∨ v.table v.scdbIp = some v.scdbMac
  else True

variable {v : View} {last : Ip → Option Mac} {sa : Mac} {saddr : Ip}

theorem isSome_update {β : Type*} {f : Ip → Option β} {x y : Ip} {b : β} (h : (f y).isSome) :
    (Function.update f x (some b) y).isSome := by
  by_cases hy : y = x
  · simp [hy]
  · simpa [hy] using h

theorem Inv.client (h : v.Inv last) (hz : saddr ≠ Ip.zero) :
    (v.client sa saddr).Inv (Function.update last saddr (some sa)) := by
  have hzero : Function.update last saddr (some sa) Ip.zero = none := by
    rw [Function.update_of_ne hz.symm, h.zero]
  have hknown : ∀ x, (Function.update v.table saddr (some sa) x).isSome →
      (Function.update last saddr (some sa) x).isSome := by
    intro x hx
    by_cases hxs : x = saddr
    · simp [hxs]
    · rw [Function.update_of_ne hxs] at hx ⊢
      exact h.known x hx
  unfold View.client
  split_ifs with hmac hentry hsome
  · exact ⟨fun x hx => isSome_update (h.known x hx), h.scdb, hzero⟩
  · exact ⟨hknown, fun hne => absurd rfl hne, hzero⟩
  · exact ⟨fun x hx => isSome_update (h.known x hx), fun _ => hsome, hzero⟩
  · exact ⟨hknown, fun hne => isSome_update (h.scdb hne), hzero⟩

/-- The new address and the others are sound separately. -/
theorem sound_update_iff {v' : View} (hs : v'.resolve saddr = sa) :
    v'.Sound (Function.update last saddr (some sa)) ↔
      ∀ x, x ≠ saddr → ∀ mac, last x = some mac → v'.resolve x = mac := by
  constructor
  · intro h x hx mac hlast
    exact h x mac (by rwa [Function.update_of_ne hx])
  · intro h x mac hlast
    by_cases hx : x = saddr
    · subst hx
      rw [Function.update_self] at hlast
      rw [hs, Option.some.inj hlast]
    · rw [Function.update_of_ne hx] at hlast
      exact h x hx mac hlast

theorem sound_same_iff (hs : v.Sound last) :
    v.Sound (Function.update last saddr (some sa)) ↔ v.resolve saddr = sa := by
  constructor
  · intro h
    exact h saddr sa (Function.update_self _ _ _)
  · intro h
    exact (sound_update_iff h).mpr fun x _ mac hlast => hs x mac hlast

/-- When the address of a frame resolves to the MAC of the shortcut. -/
theorem resolve_eq_iff (hmac : v.scdbMac = sa) (hbr : sa ≠ v.brMac) : v.resolve saddr = sa ↔
    v.scdbIp = saddr ∨ v.table saddr = some sa ∨
      v.table saddr = none ∧ getElem saddr 3 Ip.three_lt_four = 0xff ∧ sa = Mac.broadcast := by
  unfold View.resolve
  by_cases hip : v.scdbIp = saddr
  · simp [hip, hmac]
  · rw [if_neg hip]
    cases ht : v.table saddr with
    | some mac => simp [hip]
    | none =>
      by_cases h255 : saddr[3] = 0xff
      · simp only [h255, if_true, Option.getD_none, hip, reduceCtorEq, false_or, true_and]
        exact eq_comm
      · rw [Option.getD_none, if_neg h255]
        constructor
        · exact fun h => absurd h.symm hbr
        · rintro (h | h | h)
          · exact absurd h hip
          · cases h
          · exact absurd h.2.1 h255

/-- Without the shortcut the other addresses are still resolved exactly if the table agrees with
the shortcut. -/
theorem table_sound_iff (h : v.Inv last) (hs : v.Sound last) (fallback : Ip → Mac)
    (hf : ∀ x, v.scdbIp ≠ x → v.resolve x = (v.table x).getD (fallback x)) :
    (∀ x, x ≠ saddr → ∀ mac, last x = some mac → (v.table x).getD (fallback x) = mac) ↔
      v.scdbIp = Ip.zero ∨ v.scdbIp = saddr ∨ v.table v.scdbIp = some v.scdbMac := by
  constructor
  · intro hall
    by_contra hno
    rw [not_or, not_or] at hno
    obtain ⟨hz, hne, htab⟩ := hno
    obtain ⟨mac', ht⟩ := Option.isSome_iff_exists.mp (h.scdb hz)
    obtain ⟨mac, hlast⟩ := Option.isSome_iff_exists.mp (h.known _ (h.scdb hz))
    have h1 := hall v.scdbIp hne mac hlast
    have h2 := hs v.scdbIp mac hlast
    rw [View.resolve, if_pos rfl] at h2
    rw [ht, Option.getD_some] at h1
    exact htab (by rw [ht, h1, h2])
  · intro hcond x hx mac hlast
    by_cases hip : v.scdbIp = x
    · subst hip
      rcases hcond with hz | heq | ht
      · rw [hz, h.zero] at hlast
        cases hlast
      · exact absurd heq hx
      · have h2 := hs v.scdbIp mac hlast
        rw [View.resolve, if_pos rfl] at h2
        rw [ht, Option.getD_some, h2]
    · rw [← hf x hip]
      exact hs x mac hlast

/-- A client frame keeps every address resolved exactly if it meets the condition. -/
theorem sound_client_iff (h : v.Inv last) (hs : v.Sound last) (hbr : sa ≠ v.brMac)
    (hz : saddr ≠ Ip.zero) :
    (v.client sa saddr).Sound (Function.update last saddr (some sa)) ↔ v.Learns sa saddr := by
  have hrest : ∀ x, v.scdbIp ≠ x → v.resolve x =
      (v.table x).getD (if x[3] = 0xff then Mac.broadcast else v.brMac) :=
    fun x hx => by rw [View.resolve, if_neg hx]
  unfold View.client Learns
  by_cases hmac : v.scdbMac = sa
  · by_cases hentry : v.scdbEntry.isSome = true
    · rw [if_pos hmac, if_pos hentry, if_pos ⟨hmac, hentry⟩]
      exact (sound_same_iff hs).trans (resolve_eq_iff hmac hbr)
    · rw [if_pos hmac, if_neg hentry, if_neg (fun hc => hentry hc.2), if_pos (.inl hmac),
        sound_update_iff (by simp [View.resolve, hz.symm]), ← table_sound_iff h hs _ hrest]
      refine forall_congr' fun x => forall_congr' fun hx => forall_congr' fun mac =>
        forall_congr' fun hlast => ?_
      have hxz : Ip.zero ≠ x := by
        rintro rfl
        rw [h.zero] at hlast
        cases hlast
      simp [View.resolve, hxz, hx]
  · have hno : ¬(v.scdbMac = sa ∧ v.scdbEntry.isSome = true) := fun hc => hmac hc.1
    rw [if_neg hmac, if_neg hno]
    by_cases hsome : (v.table saddr).isSome = true
    · rw [if_pos hsome, if_pos (.inr hsome),
        sound_update_iff (by simp [View.resolve]), ← table_sound_iff h hs _ hrest]
      refine forall_congr' fun x => forall_congr' fun hx => forall_congr' fun mac =>
        forall_congr' fun hlast => ?_
      simp [View.resolve, hx.symm]
    · rw [if_neg hsome, if_neg (by simp [hmac, hsome])]
      have hne : v.scdbIp ≠ saddr := by
        intro heq
        exact hsome (heq ▸ h.scdb (heq ▸ hz))
      rw [sound_update_iff (by simp [View.resolve, hne]), iff_true]
      intro x hx mac hlast
      have := hs x mac hlast
      simpa [View.resolve, hx] using this

end View

/-- The condition on an event. -/
def Learns (w : World) (e : TimedEvent) : Prop :=
  match e.event with
  | .client _ _ sa saddr => w.br.view.Learns sa saddr
  | _ => True

/-- The events happen within the ageing time from `t` on, and the client frames are not from the
bridge. -/
def TimedEvent.Allowed (ageing t : ℕ) (brMac : Mac) (e : TimedEvent) : Prop :=
  t ≤ e.now ∧ e.now < t + ageing ∧ e.event.FromClient brMac

namespace World

variable {w : World} {ageing t : ℕ} {brMac : Mac}

/-- The invariant of a run that starts at `t`. -/
structure Inv (w : World) (t : ℕ) (brMac : Mac) : Prop where
  since : w.br.Since t
  view : w.br.view.Inv w.last
  brMac : w.br.brMac = brMac

theorem sound_iff (h : w.br.Since t) (ha : 0 < ageing) :
    w.Sound ageing t ↔ w.br.view.Sound w.last := by
  constructor
  · intro hs x mac hlast
    have hres : (w.br.nat25HandleFrame t ageing Mac.zero x).1 = w.br.view.resolve x :=
      h.resolve (by omega) Mac.zero x
    rw [← hres]
    exact hs t (by omega) Mac.zero x mac hlast
  · intro hs now hnow da x mac hlast
    rw [h.resolve hnow]
    exact hs x mac hlast

theorem inv_init (t : ℕ) (brMac : Mac) : (init brMac).Inv t brMac := by
  refine ⟨fun _ _ he => absurd he List.not_mem_nil, ⟨?_, fun hne => absurd rfl hne, rfl⟩, rfl⟩
  intro x hx
  cases hx

/-- What an allowed event does to the table and the shortcut. -/
theorem Inv.step_view (h : w.Inv t brMac) {e : TimedEvent} (he : e.Allowed ageing t brMac) :
    (w.step ageing e).br.Since t ∧
      (w.step ageing e).br.view = (match e.event with
        | .client _ _ sa saddr => w.br.view.client sa saddr
        | _ => w.br.view) := by
  obtain ⟨hlo, hhi, hclient⟩ := he
  simp only [World.step, Nat25.step]
  cases hev : e.event with
  | client mcast brPort sa saddr =>
    rw [hev] at hclient
    exact ⟨h.since.rtwBrClientTx hlo mcast brPort sa saddr,
      BrExt.view_rtwBrClientTx w.br e.now mcast brPort sa saddr hclient.2⟩
  | receive da daddr => exact h.since.receive da daddr
  | expire =>
    dsimp only
    rw [h.since.expire hhi]
    exact ⟨h.since, rfl⟩

theorem Inv.step (h : w.Inv t brMac) {e : TimedEvent} (he : e.Allowed ageing t brMac) :
    (w.step ageing e).Inv t brMac := by
  obtain ⟨hsince, hview⟩ := h.step_view he
  have hclient := he.2.2
  have hbr : (w.step ageing e).br.view.brMac = w.br.view.brMac := by
    rw [hview]
    split
    · unfold View.client
      split_ifs <;> rfl
    · rfl
  refine ⟨hsince, ?_, hbr.trans h.brMac⟩
  rw [hview]
  simp only [World.step]
  cases hev : e.event with
  | client mcast brPort sa saddr =>
    rw [hev] at hclient
    exact h.view.client hclient.2
  | receive da daddr => exact h.view
  | expire => exact h.view

/-- An allowed event keeps all addresses resolved exactly if it meets the condition. -/
theorem Inv.sound_step_iff (h : w.Inv t brMac) (hs : w.br.view.Sound w.last) {e : TimedEvent}
    (he : e.Allowed ageing t brMac) :
    (w.step ageing e).br.view.Sound (w.step ageing e).last ↔ Learns w e := by
  have hclient := he.2.2
  rw [(h.step_view he).2]
  simp only [World.step, Learns]
  cases hev : e.event with
  | client mcast brPort sa saddr =>
    rw [hev] at hclient
    have hbr : sa ≠ w.br.view.brMac := by
      intro heq
      exact hclient.1 (heq.trans h.brMac)
    exact View.sound_client_iff h.view hs hbr hclient.2
  | receive da daddr => exact ⟨fun _ => trivial, fun _ => hs⟩
  | expire => exact ⟨fun _ => trivial, fun _ => hs⟩

end World

/-- In a run within the ageing time, in every state a frame to any address that a client sent from
goes to the client that sent last, exactly if every client frame meets the condition. -/
theorem learning_sound_iff (brMac : Mac) (ageing t : ℕ) (ha : 0 < ageing) (es : List TimedEvent)
    (hes : ∀ e ∈ es, e.Allowed ageing t brMac) :
    (∀ k, (run (World.step ageing) (World.init brMac) (es.take k)).Sound ageing t) ↔
      Along (World.step ageing) Learns (World.init brMac) es := by
  have hinv : ∀ k, (run (World.step ageing) (World.init brMac) (es.take k)).Inv t brMac := fun k =>
    run_invariant (I := fun w : World => w.Inv t brMac) (fun w e hw he => hw.step he)
      (World.inv_init t brMac)
      (along_of_forall fun _ e he => hes e (List.mem_of_mem_take he))
  have hstep : ∀ w : World, ∀ e ∈ es, (w.Inv t brMac ∧ w.br.view.Sound w.last) →
      ((World.step ageing w e).Inv t brMac ∧
        (World.step ageing w e).br.view.Sound (World.step ageing w e).last ↔ Learns w e) := by
    intro w e he hw
    rw [and_iff_right (hw.1.step (hes e he)), hw.1.sound_step_iff hw.2 (hes e he)]
  have hinit : (World.init brMac).Inv t brMac ∧
      (World.init brMac).br.view.Sound (World.init brMac).last :=
    ⟨World.inv_init t brMac, fun x mac hlast => by cases hlast⟩
  rw [← forall_take_iff_along hstep hinit]
  refine forall_congr' fun k => ?_
  rw [World.sound_iff (hinv k).since ha, and_iff_right (hinv k)]

/-- A frame of a client, at a time. -/
def clientFrame (now : ℕ) (sa : Mac) (saddr : Ip) : TimedEvent :=
  ⟨now, .client false true sa saddr⟩

theorem learning_sound_iff_two_hosts :
    let es := [clientFrame 1 #v[2, 0, 0, 0, 0, 1] #v[10, 0, 0, 1],
      clientFrame 2 #v[2, 0, 0, 0, 0, 2] #v[10, 0, 0, 2]]
    (∀ k, (run (World.step 300) (World.init Mac.zero) (es.take k)).Sound 300 0) ↔
      Along (World.step 300) Learns (World.init Mac.zero) es := by
  refine learning_sound_iff Mac.zero 300 0 (by decide) _ ?_
  intro e he
  rcases List.mem_cons.mp he with rfl | he
  · exact ⟨by decide, by decide, by decide, by decide⟩
  · obtain rfl := List.mem_singleton.mp he
    exact ⟨by decide, by decide, by decide, by decide⟩

/-- The second address of a host that the shortcut answers for is never learned. -/
theorem second_address_unknown :
    ¬∀ (brMac : Mac) (ageing t : ℕ) (es : List TimedEvent), 0 < ageing →
      (∀ e ∈ es, e.Allowed ageing t brMac) →
      ∀ k, (run (World.step ageing) (World.init brMac) (es.take k)).Sound ageing t := by
  intro h
  have hsound := h Mac.zero 300 0 [clientFrame 1 #v[2, 0, 0, 0, 0, 1] #v[10, 0, 0, 1],
    clientFrame 2 #v[2, 0, 0, 0, 0, 1] #v[10, 0, 0, 1],
    clientFrame 3 #v[2, 0, 0, 0, 0, 1] #v[10, 0, 0, 2]] (by decide) (by
      intro e he
      simp only [List.mem_cons, List.not_mem_nil, or_false] at he
      rcases he with rfl | rfl | rfl <;> exact ⟨by decide, by decide, by decide, by decide⟩) 3
  have hda := hsound 4 (by decide) Mac.zero #v[10, 0, 0, 2] #v[2, 0, 0, 0, 0, 1] rfl
  revert hda
  decide

end Rtl8821cu.Nat25
