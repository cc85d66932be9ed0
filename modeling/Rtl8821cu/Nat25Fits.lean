import Rtl8821cu.Nat25Kept

/-! Packets that hold what `nat25_db_handle` (`core/rtw_br_ext.c`) reads and rewrites, for the
protocols with fields in fixed places. -/
namespace Rtl8821cu.Nat25Handle
open Guard Store Bytes Nat25Pppoe

/-- The packet once the data base was asked for an address. -/
def replaced (env : Env) (addr : List Byte) (s : Buf Byte) : Buf Byte :=
  match env.nethash addr with
  | some (some mac) => s.store 0 mac.toList
  | _ => s

/-- The address that an ARP packet asks for. -/
def arpTarget (s : Buf Byte) : List Byte :=
  ipv4NetworkAddr (load s.mem (22 + arHln s + (arHln s + arPln s)) 4)

structure IpFits (env : Env) (m : Method) (s : Buf Byte) : Prop where
  hdr : 15 ≤ s.len
  insert : (s.mem 14).toNat % 16 * 4 < s.len → m = .insert →
    30 ≤ s.len ∧ (load s.mem 26 4 ≠ List.replicate 4 0 → env.info = true → 34 ≤ s.len)
  lookup : (s.mem 14).toNat % 16 * 4 < s.len → m = .lookup → 34 ≤ s.len

/-- A hardware address that is shorter than six bytes is written over what follows it, too. -/
structure ArpFits (env : Env) (m : Method) (s : Buf Byte) : Prop where
  hdr : 18 ≤ s.len
  insert : field s 16 = 0x0800 → m = .insert → 28 ≤ s.len ∧ 22 + arHln s + 4 ≤ s.len ∧
    ∀ k (h : k < 6), arHln s ≤ k → env.myHwaddr[k] = s.mem (22 + k)
  lookup : field s 16 = 0x0800 → m = .lookup → 20 ≤ s.len ∧
    22 + arHln s + (arHln s + arPln s) + 4 ≤ s.len ∧ 22 + (arHln s + arPln s) + 6 ≤ s.len ∧
    ∀ k < 6, arHln s ≤ k →
      (replaced env (arpTarget s) s).mem k = s.mem (22 + (arHln s + arPln s) + k)

structure IpxFits (env : Env) (m : Method) (b : ℕ) (s : Buf Byte) : Prop where
  check : m = .check → b + 28 ≤ s.len
  insert : m = .insert → b + 28 ≤ s.len ∧
    (env.info = true ∨ load s.mem 6 6 = load s.mem (b + 22) 6 → b + 30 ≤ s.len)
  lookup : m = .lookup → b + 16 ≤ s.len ∧
    (env.myHwaddr.toList = load s.mem (b + 10) 6 → b + 18 ≤ s.len)

structure AarpFits (env : Env) (m : Method) (b : ℕ) (s : Buf Byte) : Prop where
  hdr : b + 5 ≤ s.len
  lens : s.mem (b + 4) = 6 → b + 6 ≤ s.len
  insert : s.mem (b + 4) = 6 → s.mem (b + 5) = 4 → m = .insert →
    b + 18 ≤ s.len ∧ (env.info = true → b + 28 ≤ s.len)
  lookup : s.mem (b + 4) = 6 → s.mem (b + 5) = 4 → m = .lookup → b + 28 ≤ s.len

structure DdpFits (env : Env) (m : Method) (b : ℕ) (s : Buf Byte) : Prop where
  insert : m = .insert → b + 10 ≤ s.len
  lookup : m = .lookup → b + 9 ≤ s.len ∧ (env.info = true → b + 10 ≤ s.len)

/-- The bytes that tell the headers apart. -/
structure SnapFits (s : Buf Byte) : Prop where
  hdr : 16 ≤ s.len
  snap : s.mem 14 = 0xaa → 22 ≤ s.len
  llc : s.mem 14 = 0xe0 → 19 ≤ s.len

/-- What the protocols of IPX and AppleTalk need. -/
def AppleFits (env : Env) (m : Method) (s : Buf Byte) : Header → Prop
  | .ipx b => IpxFits env m b s
  | .aarp b => AarpFits env m b s
  | .ddp b => DdpFits env m b s
  | _ => True

section Rules

variable {env : Env} {m : Method} {s t : Buf Byte} {fields : ℕ → Prop} {a n b : ℕ}
  {l addr : List Byte} {β : Type}

theorem Apart.refl (fields : ℕ → Prop) (s : Buf Byte) : Apart fields s s := ⟨rfl, fun _ _ _ => rfl⟩

theorem store_at {k : ℕ} (h : k < l.length) : (t.store a l).mem (a + k) = l[k] :=
  holdsAt_store t.mem a l k _ (List.getElem?_eq_getElem h)

/-- A store behind the bytes that are changed already. -/
theorem apart_store_iff (h : Apart fields s t) (hin : a + l.length ≤ s.len) :
    Apart fields s (t.store a l) ↔
      ∀ k (hk : k < l.length), ¬fields (a + k) → l[k] = s.mem (a + k) := by
  constructor
  · intro hstore k hk hno
    rw [← hstore.mem (a + k) (by omega) hno, store_at hk]
  · intro hsame
    refine ⟨h.len, fun i hi hno => ?_⟩
    by_cases hout : i < a ∨ a + l.length ≤ i
    · rw [store_mem_of_disjoint hout]
      exact h.mem i hi hno
    · obtain ⟨k, rfl⟩ : ∃ k, i = a + k := ⟨i - a, by omega⟩
      rw [store_at (by omega)]
      exact hsame k (by omega) hno

theorem Apart.store (h : Apart fields s t) (hf : ∀ k < l.length, fields (a + k)) :
    Apart fields s (t.store a l) := by
  refine ⟨h.len, fun i hi hno => ?_⟩
  rw [store_mem_of_disjoint]
  · exact h.mem i hi hno
  · by_contra hin
    obtain ⟨k, rfl⟩ : ∃ k, i = a + k := ⟨i - a, by omega⟩
    exact hno (hf k (by omega))

@[simp] theorem replaced_len : (replaced env addr s).len = s.len := by
  rw [replaced]
  split <;> rfl

theorem apart_replaced (hf : ∀ i < 6, fields i) : Apart fields s (replaced env addr s) := by
  rw [replaced]
  split
  · exact (Apart.refl fields s).store fun k hk => by simpa using hf k (by simpa using hk)
  · exact .refl fields s

@[simp] theorem meets_infoRead {Q : Unit → Buf Byte → Prop} :
    Meets (infoRead env a n) s Q ↔ (env.info = true → s.Inside a n) ∧ Q () s := by
  rw [infoRead, meets_ite]
  simp only [meets_bind, meets_read, meets_pure]
  by_cases h : env.info = true <;> simp [h]

theorem meets_insert (h : 14 ≤ s.len) {Q : Unit → Buf Byte → Prop} :
    Meets dbNetworkInsert s Q ↔ Q () s := by
  rw [dbNetworkInsert, meets_bind, meets_read, meets_pure, inside_iff (by decide)]
  exact and_iff_right (by omega)

/-- The data base gives an address for the packet, or none. -/
theorem meets_lookup (h : 14 ≤ s.len) {Q : Bool → Buf Byte → Prop} :
    Meets (dbNetworkLookupAndReplace env addr) s Q ↔
      Q (env.nethash addr).isSome (replaced env addr s) := by
  rw [dbNetworkLookupAndReplace, replaced]
  rcases env.nethash addr with _ | _ | mac
  · exact Iff.rfl
  · exact Iff.rfl
  · dsimp only
    rw [meets_bind, meets_write, meets_pure, inside_iff (by simp), Vector.length_toList]
    exact and_iff_right (by omega)

/-- The destination is rewritten. -/
theorem meets_writeDa (h : 14 ≤ s.len) (ht : Apart fields s t) (hf : ∀ i < 6, fields i)
    (hl : l.length = 6) : Meets (write 0 l) t fun _ t' => Apart fields s t' := by
  have hlen := ht.len
  refine meets_write.mpr ⟨inside_of_le (by omega), ht.store fun k hk => ?_⟩
  rw [Nat.zero_add]
  exact hf k (by omega)

end Rules

section Handlers

variable {env : Env} {m : Method} {s : Buf Byte} {b : ℕ}

theorem meets_handleIp (h : 14 ≤ s.len) :
    Meets (handleIp env m) s (fun _ t => Apart (MacFields s .ip m) s t) ↔ IpFits env m s := by
  have hsame := Apart.refl (MacFields s .ip m) s
  unfold handleIp
  rw [meets_bind, meets_cell, meets_bind, meets_look, meets_ite, meets_pure, ethHlen, not_le]
  cases m with
  | check =>
    simp only [meets_pure, hsame, implies_true, and_true]
    exact ⟨fun h15 => ⟨h15, by simp, by simp⟩, fun hf => hf.hdr⟩
  | parse =>
    simp only [meets_pure, hsame, implies_true, and_true]
    exact ⟨fun h15 => ⟨h15, by simp, by simp⟩, fun hf => hf.hdr⟩
  | insert =>
    simp only [meets_bind, meets_read, meets_ite, meets_pure, meets_infoRead, meets_insert h,
      hsame, implies_true, and_true, true_and, Buf.Inside]
    constructor
    · rintro ⟨h15, hread⟩
      refine ⟨h15, fun hihl _ => ?_, by simp⟩
      obtain ⟨h30, hinfo⟩ := hread hihl
      exact ⟨by omega, fun hne hon => by have := hinfo hne hon; omega⟩
    · intro hf
      refine ⟨hf.hdr, fun hihl => ?_⟩
      obtain ⟨h30, hinfo⟩ := hf.insert hihl rfl
      exact ⟨by omega, fun hne hon => by have := hinfo hne hon; omega⟩
  | lookup =>
    have hda : ∀ i < 6, MacFields s .ip .lookup i := fun i hi => ⟨Nat.zero_le i, by omega⟩
    have hrep := fun addr => @apart_replaced env s _ addr hda
    have hwrite := fun addr l => @meets_writeDa s (replaced env addr s) _ l h (hrep addr) hda
    simp only [meets_bind, meets_read, meets_ite, meets_pure, meets_infoRead, meets_lookup h,
      hsame, hrep, hwrite, List.length_replicate, Vector.length_toList, implies_true, and_true,
      true_and, Buf.Inside]
    constructor
    · rintro ⟨h15, hread⟩
      refine ⟨h15, by simp, fun hihl _ => ?_⟩
      have := (hread hihl).2
      omega
    · intro hf
      refine ⟨hf.hdr, fun hihl => ?_⟩
      have := hf.lookup hihl rfl
      omega

theorem meets_handleArp (h : 14 ≤ s.len) :
    Meets (handleArp env m) s (fun _ t => Apart (MacFields s .arp m) s t) ↔ ArpFits env m s := by
  have hsame := Apart.refl (MacFields s .arp m) s
  unfold handleArp
  rw [meets_bind, meets_read, meets_ite, meets_pure, ethHlen, not_not, Buf.Inside]
  cases m with
  | check =>
    simp only [meets_pure, hsame, implies_true, and_true]
    exact ⟨fun h18 => ⟨by omega, by simp, by simp⟩, fun hf => .inr hf.hdr⟩
  | parse =>
    simp only [meets_pure, hsame, implies_true, and_true]
    exact ⟨fun h18 => ⟨by omega, by simp, by simp⟩, fun hf => .inr hf.hdr⟩
  | insert =>
    have h18 : (s.store 22 env.myHwaddr.toList).mem 18 = s.mem 18 :=
      store_mem_of_disjoint (.inl (by decide))
    have hapart : 28 ≤ s.len → (Apart (MacFields s .arp .insert) s
        (s.store 22 env.myHwaddr.toList) ↔
          ∀ k (h : k < 6), arHln s ≤ k → env.myHwaddr[k] = s.mem (22 + k)) := by
      intro h28
      rw [apart_store_iff hsame (by simpa using h28)]
      simp [MacFields, Within]
    simp only [meets_bind, meets_read, meets_cell, meets_write, meets_pure, meets_infoRead,
      meets_insert (s := s.store 22 env.myHwaddr.toList) h, Nat.reduceAdd, h18, store_len,
      Vector.length_toList, hsame, implies_true, true_and, Buf.Inside]
    constructor
    · rintro ⟨hhdr, hread⟩
      refine ⟨by omega, fun hpro _ => ?_, by simp⟩
      obtain ⟨-, h28, -, hsender, hkept⟩ := hread hpro
      exact ⟨by omega, hsender.resolve_left (by decide), (hapart (by omega)).mp hkept⟩
    · intro hf
      refine ⟨.inr hf.hdr, fun hpro => ?_⟩
      obtain ⟨h28, hsender, hkept⟩ := hf.insert hpro rfl
      exact ⟨fun _ => .inr h28, .inr h28, by omega, .inr hsender, (hapart h28).mpr hkept⟩
  | lookup =>
    have hda : ∀ i < 6, MacFields s .arp .lookup i := fun i hi => .inl ⟨Nat.zero_le i, by omega⟩
    have hapart : 22 + (arHln s + arPln s) + 6 ≤ s.len → (Apart (MacFields s .arp .lookup) s
        ((replaced env (arpTarget s) s).store (22 + (arHln s + arPln s))
          (load (replaced env (arpTarget s) s).mem 0 6)) ↔
        ∀ k < 6, arHln s ≤ k →
          (replaced env (arpTarget s) s).mem k = s.mem (22 + (arHln s + arPln s) + k)) := by
      intro hin
      rw [apart_store_iff (apart_replaced hda) (by simpa using hin)]
      constructor
      · intro hk k hk6 hge
        have := hk k (by simpa using hk6) (by
          rintro (⟨-, hlt⟩ | ⟨-, hlt⟩)
          · omega
          · omega)
        simpa [load] using this
      · intro hk k hk6 hno
        have := hk k (by simpa using hk6) (by
          by_contra hlt
          exact hno (.inr ⟨by omega, by omega⟩))
        simpa [load] using this
    simp only [meets_bind, meets_read, meets_cell, meets_write, meets_pure, meets_lookup h,
      Nat.reduceAdd, replaced_len, length_load, hsame, implies_true, true_and, Buf.Inside]
    constructor
    · rintro ⟨hhdr, hread⟩
      refine ⟨by omega, by simp, fun hpro _ => ?_⟩
      obtain ⟨-, h20, htarget, -, hda', hkept⟩ := hread hpro
      refine ⟨h20, htarget.resolve_left (by decide), hda'.resolve_left (by decide), ?_⟩
      exact (hapart (hda'.resolve_left (by decide))).mp hkept
    · intro hf
      refine ⟨.inr hf.hdr, fun hpro => ?_⟩
      obtain ⟨h20, htarget, hda', hkept⟩ := hf.lookup hpro rfl
      exact ⟨by omega, h20, .inr htarget, by omega, .inr hda', (hapart hda').mpr hkept⟩

theorem meets_handleIpx (h : 14 ≤ s.len) :
    Meets (handleIpx env m b) s (fun _ t => Apart (MacFields s (.ipx b) m) s t) ↔
      IpxFits env m b s := by
  have hsame := Apart.refl (MacFields s (.ipx b) m) s
  unfold handleIpx
  cases m with
  | check =>
    simp only [meets_bind, meets_read, meets_ite, meets_pure, hsame, implies_true, and_true,
      Buf.Inside]
    constructor
    · intro hread
      exact ⟨fun _ => by omega, by simp, by simp⟩
    · intro hf
      have := hf.check rfl
      omega
  | parse =>
    simp only [meets_pure, hsame, true_iff]
    exact ⟨by simp, by simp, by simp⟩
  | insert =>
    have hins : Apart (MacFields s (.ipx b) .insert) s (s.store (b + 22) env.myHwaddr.toList) :=
      hsame.store fun k hk => ⟨by omega, by simpa using hk⟩
    simp only [meets_bind, meets_read, meets_ite, meets_write, meets_pure, meets_infoRead,
      meets_insert h, meets_insert (s := s.store (b + 22) env.myHwaddr.toList) h,
      Vector.length_toList, hsame, hins, and_true, Buf.Inside]
    constructor
    · rintro ⟨hinfo, -, hnode, heq, -⟩
      refine ⟨by simp, fun _ => ⟨by omega, ?_⟩, by simp⟩
      rintro (hon | hsa)
      · have := hinfo hon
        omega
      · have := heq hsa
        omega
    · intro hf
      obtain ⟨h28, h30⟩ := hf.insert rfl
      refine ⟨fun hon => ?_, by omega, by omega, fun hsa => ?_, fun _ => by omega⟩
      · have := h30 (.inl hon)
        omega
      · have := h30 (.inr hsa)
        omega
  | lookup =>
    have hda : ∀ i < 6, MacFields s (.ipx b) .lookup i := fun i hi => .inl ⟨Nat.zero_le i, by omega⟩
    have hrep := fun addr => @apart_replaced env s _ addr hda
    have hnode : ∀ addr, Apart (MacFields s (.ipx b) .lookup) s
        ((replaced env addr s).store (b + 10) (load (replaced env addr s).mem 0 6)) := fun addr =>
      (hrep addr).store fun k hk => .inr ⟨by omega, by simpa using hk⟩
    simp only [meets_bind, meets_read, meets_ite, meets_write, meets_pure, meets_lookup h,
      replaced_len, length_load, hrep, hnode, and_true, Buf.Inside]
    constructor
    · rintro ⟨h16, heq, -⟩
      refine ⟨by simp, by simp, fun _ => ⟨by omega, fun hmy => ?_⟩⟩
      have := heq hmy
      omega
    · intro hf
      obtain ⟨h16, h18⟩ := hf.lookup rfl
      refine ⟨by omega, fun hmy => ?_, fun _ => by omega⟩
      have := h18 hmy
      omega

theorem meets_handleAarp (h : 14 ≤ s.len) :
    Meets (handleAarp env m b) s (fun _ t => Apart (MacFields s (.aarp b) m) s t) ↔
      AarpFits env m b s := by
  have hsame := Apart.refl (MacFields s (.aarp b) m) s
  unfold handleAarp
  rw [meets_bind, meets_cell, meets_ite, meets_pure, not_not, meets_bind, meets_cell, meets_ite,
    meets_pure, not_not]
  have hins : Apart (MacFields s (.aarp b) .insert) s (s.store (b + 8) env.myHwaddr.toList) :=
    (Apart.refl _ s).store fun k hk => ⟨by omega, by simpa using hk⟩
  have hda : ∀ i < 6, MacFields s (.aarp b) .lookup i := fun i hi => .inl ⟨Nat.zero_le i, by omega⟩
  have hdst : ∀ addr, Apart (MacFields s (.aarp b) .lookup) s
      ((replaced env addr s).store (b + 18) (load (replaced env addr s).mem 0 6)) := fun addr =>
    (apart_replaced hda).store fun k hk => .inr ⟨by omega, by simpa using hk⟩
  constructor
  · rintro ⟨h5, -, hread⟩
    refine ⟨h5, fun hhw => (hread hhw).1, fun hhw hpa hm => ?_, fun hhw hpa hm => ?_⟩
    · subst hm
      have hrest := (hread hhw).2.2 hpa
      simp only [meets_bind, meets_read, meets_cell, meets_write, meets_pure, meets_infoRead,
        store_len, meets_insert (s := s.store (b + 8) env.myHwaddr.toList) h, Buf.Inside,
        Vector.length_toList] at hrest
      obtain ⟨-, -, hinfo, -, hnode, -⟩ := hrest
      refine ⟨by omega, fun hon => ?_⟩
      have := hinfo hon
      omega
    · subst hm
      have hrest := (hread hhw).2.2 hpa
      simp only [meets_bind, meets_read, meets_cell, meets_write, meets_pure, meets_infoRead,
        meets_lookup h, replaced_len, length_load, Buf.Inside] at hrest
      have := hrest.2.2.2.1
      omega
  · intro hf
    refine ⟨hf.hdr, fun _ => hsame, fun hhw => ⟨hf.lens hhw, fun _ => hsame, fun hpa => ?_⟩⟩
    cases m with
    | check => exact hsame
    | parse => exact hsame
    | insert =>
      obtain ⟨h18, hinfo⟩ := hf.insert hhw hpa rfl
      simp only [meets_bind, meets_read, meets_cell, meets_write, meets_pure, meets_infoRead,
        store_len, meets_insert (s := s.store (b + 8) env.myHwaddr.toList) h, Buf.Inside,
        Vector.length_toList, hins, and_true]
      refine ⟨by omega, fun _ => by omega, fun hon => ?_, by omega, by omega⟩
      have := hinfo hon
      omega
    | lookup =>
      have h28 := hf.lookup hhw hpa rfl
      simp only [meets_bind, meets_read, meets_cell, meets_write, meets_pure, meets_infoRead,
        meets_lookup h, replaced_len, length_load, hdst, and_true, Buf.Inside]
      exact ⟨fun _ => by omega, fun _ => by omega, by omega, by omega, by omega, by omega⟩

theorem meets_handleDdp (h : 14 ≤ s.len) :
    Meets (handleDdp env m b) s (fun _ t => Apart (MacFields s (.ddp b) m) s t) ↔
      DdpFits env m b s := by
  have hsame := Apart.refl (MacFields s (.ddp b) m) s
  unfold handleDdp
  cases m with
  | check =>
    simp only [meets_pure, hsame, true_iff]
    exact ⟨by simp, by simp⟩
  | parse =>
    simp only [meets_pure, hsame, true_iff]
    exact ⟨by simp, by simp⟩
  | insert =>
    simp only [meets_bind, meets_read, meets_cell, meets_pure, meets_infoRead, meets_insert h,
      hsame, and_true, Buf.Inside]
    constructor
    · intro hread
      exact ⟨fun _ => by omega, by simp⟩
    · intro hf
      have := hf.insert rfl
      exact ⟨fun _ => by omega, by omega, by omega⟩
  | lookup =>
    have hda : ∀ i < 6, MacFields s (.ddp b) .lookup i := fun i hi => ⟨Nat.zero_le i, by omega⟩
    have hrep := fun addr => @apart_replaced env s _ addr hda
    simp only [meets_bind, meets_read, meets_cell, meets_pure, meets_infoRead, meets_lookup h,
      hrep, and_true, Buf.Inside]
    constructor
    · rintro ⟨hinfo, hread⟩
      refine ⟨by simp, fun _ => ⟨by omega, fun hon => ?_⟩⟩
      have := hinfo hon
      omega
    · intro hf
      obtain ⟨h9, h10⟩ := hf.lookup rfl
      refine ⟨fun hon => ?_, by omega, by omega⟩
      have := h10 hon
      omega

theorem meets_handleIpx_only (h : 14 ≤ s.len) :
    Meets (handleNovellApple env m 0x8137) s
      (fun _ t => Apart (MacFields s (.ipx 14) m) s t) ↔ AppleFits env m s (.ipx 14) := by
  rw [handleNovellApple, if_pos rfl]
  exact meets_handleIpx h

theorem snapFits_iff :
    SnapFits s ↔ 16 ≤ s.len ∧ (s.mem 14 = 0xaa → 22 ≤ s.len) ∧ (s.mem 14 = 0xe0 → 19 ≤ s.len) :=
  ⟨fun h => ⟨h.hdr, h.snap, h.llc⟩, fun h => ⟨h.1, h.2.1, h.2.2⟩⟩

theorem meets_handleNovellApple {protocol : ℕ} (h : 14 ≤ s.len) (hne : protocol ≠ 0x8137) :
    Meets (handleNovellApple env m protocol) s
      (fun _ t => Apart (MacFields s (snapHeader s) m) s t) ↔
        SnapFits s ∧ AppleFits env m s (snapHeader s) := by
  have hsame := Apart.refl (MacFields s .other m) s
  rw [handleNovellApple, if_neg hne, meets_bind, meets_read, inside_iff (by decide), snapFits_iff,
    snapHeader, ethHlen]
  by_cases hipx : load s.mem 14 2 = ipxHeader
  · have h14 : s.mem 14 = 0xff := congrArg (·.getD 0 0) hipx
    rw [if_pos hipx, if_pos hipx, meets_handleIpx h, h14]
    simp [AppleFits]
  rw [if_neg hipx, if_neg hipx, meets_bind, meets_cell]
  by_cases haa : s.mem 14 = 0xaa
  · rw [if_pos haa, if_pos haa, meets_bind, meets_read, inside_iff (by decide), haa]
    have hbytes : (14 + 2 ≤ s.len ∧ 14 < s.len ∧ 14 + 3 + 5 ≤ s.len) ↔
        16 ≤ s.len ∧ ((0xaa : Byte) = 0xaa → 22 ≤ s.len) ∧ ((0xaa : Byte) = 0xe0 → 19 ≤ s.len) := by
      simp
      omega
    rw [← hbytes, and_assoc, and_assoc]
    refine and_congr_right fun _ => and_congr_right fun _ => and_congr_right fun _ => ?_
    by_cases hid : load s.mem 17 5 = ipxSnapId
    · rw [if_pos hid, if_pos hid]
      exact meets_handleIpx h
    rw [if_neg hid, if_neg hid]
    by_cases hid : load s.mem 17 5 = aarpSnapId
    · rw [if_pos hid, if_pos hid]
      exact meets_handleAarp h
    rw [if_neg hid, if_neg hid]
    by_cases hid : load s.mem 17 5 = ddpSnapId
    · rw [if_pos hid, if_pos hid]
      exact meets_handleDdp h
    rw [if_neg hid, if_neg hid, meets_pure]
    exact iff_of_true hsame trivial
  rw [if_neg haa, if_neg haa]
  by_cases he0 : s.mem 14 = 0xe0
  · rw [if_pos he0, meets_bind, meets_read, inside_iff (by decide), he0]
    have hbytes : (14 + 2 ≤ s.len ∧ 14 < s.len ∧ 14 + 3 + 2 ≤ s.len) ↔
        16 ≤ s.len ∧ ((0xe0 : Byte) = 0xaa → 22 ≤ s.len) ∧ ((0xe0 : Byte) = 0xe0 → 19 ≤ s.len) := by
      simp
      omega
    rw [← hbytes, and_assoc, and_assoc]
    refine and_congr_right fun _ => and_congr_right fun _ => and_congr_right fun _ => ?_
    by_cases hid : load s.mem 17 2 = ipxHeader
    · rw [if_pos hid, if_pos ⟨rfl, hid⟩]
      exact meets_handleIpx h
    rw [if_neg hid, if_neg (fun hboth => hid hboth.2), meets_pure]
    exact iff_of_true hsame trivial
  rw [if_neg he0, if_neg (fun hboth => he0 hboth.1), meets_pure]
  have hbytes : (14 + 2 ≤ s.len ∧ 14 < s.len) ↔
      16 ≤ s.len ∧ (s.mem 14 = 0xaa → 22 ≤ s.len) ∧ (s.mem 14 = 0xe0 → 19 ≤ s.len) := by
    simp only [haa, he0]
    simp
    omega
  rw [← hbytes, and_assoc]
  exact and_congr_right fun _ => and_congr_right fun _ => iff_of_true hsame trivial

end Handlers

end Rtl8821cu.Nat25Handle
