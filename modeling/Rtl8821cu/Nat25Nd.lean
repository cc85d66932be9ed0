import Rtl8821cu.Nat25Fits

/-! ND messages in `nat25_db_handle` (`core/rtw_br_ext.c`): when the scan of their options ends
inside of the packet. -/
namespace Rtl8821cu.Nat25Handle
open Guard Store Bytes Nat25Pppoe

/-- Where the scan ends, and the message of the checksum, when an address is replaced. -/
def NdFits (env : Env) (s : Buf Byte) : Prop :=
  ∀ off tag, ndOptions (s.mem icmp6Off) = some (off, tag) → off ≤ s.len - icmp6Off →
    ∃ r, Options s tag (icmp6Off + off) (s.len - icmp6Off - off) r ∧
      (r.isSome → env.host.raw (field s 18) = 0 ∨
        icmp6Off + env.host.raw (field s 18) ≤ s.len)

/-- An ICMPv6 message with an address of its own. -/
structure Icmp6 (s : Buf Byte) : Prop where
  saddr : load s.mem 22 16 ≠ List.replicate 16 0
  nexthdr : s.mem 20 = 58
  long : 58 < s.len

def Ipv6Fits (env : Env) (m : Method) (s : Buf Byte) : Prop :=
  m = .insert → Icmp6 s → NdFits env s

/-- A message with its checksum cleared, and counted anew. -/
def cleared (t : Buf Byte) : Buf Byte := t.store (icmp6Off + 2) [0, 0]

def summed (env : Env) (t : Buf Byte) : Buf Byte :=
  (cleared t).store (icmp6Off + 2) (be16 (env.csumIpv6Magic (load (cleared t).mem 22 32)
    (load (cleared t).mem icmp6Off (env.host.raw (field (cleared t) 18)))).toNat)

section Nd

variable {env : Env} {m : Method} {s : Buf Byte} {tag : Byte} {turns data len : ℕ} {r : Option ℕ}
  {Q : Option ℕ → Buf Byte → Prop}

theorem options_of_meets (h : Meets (scanTlv tag 1 turns data len) s Q) :
    ∃ r, Options s tag data len r ∧ Q r s := by
  induction turns generalizing data len with
  | zero => exact h.elim
  | succ turns ih =>
    rw [scanTlv, meets_ite] at h
    rcases Nat.eq_zero_or_pos len with rfl | hpos
    · exact ⟨none, .done data, h.2 (by omega)⟩
    · have h := h.1 hpos
      rw [meets_bind, meets_cell, meets_bind, meets_cell, meets_ite, meets_pure] at h
      obtain ⟨-, hin, hfound, hskip⟩ := h
      by_cases htag : s.mem data = tag ∧ s.mem (data + 1) = 1 ∧ (1 : Byte).toNat * 8 ≤ len
      · exact ⟨some (data + 2), .found hin htag, hfound htag⟩
      · obtain ⟨r, hopts, hQ⟩ := ih (hskip htag)
        exact ⟨r, .skip hpos hin htag hopts, hQ⟩

theorem meets_of_options (h : Options s tag data len r) :
    ∃ turns, ∀ Q : Option ℕ → Buf Byte → Prop, Q r s →
      Meets (scanTlv tag 1 turns data len) s Q := by
  induction h with
  | done data => exact ⟨1, fun Q hQ => hQ⟩
  | @found data len hin htag =>
    have hone : s.mem data = tag ∧ s.mem (data + 1) = 1 ∧ (1 : Byte).toNat * 8 ≤ len := htag
    refine ⟨1, fun Q hQ => ?_⟩
    rw [scanTlv, if_pos (by omega), meets_bind, meets_cell, meets_bind, meets_cell, if_pos hone]
    exact ⟨by omega, hin, hQ⟩
  | @skip data len r hpos hin htag _ ih =>
    have hone : ¬(s.mem data = tag ∧ s.mem (data + 1) = 1 ∧ (1 : Byte).toNat * 8 ≤ len) := htag
    obtain ⟨turns, ih⟩ := ih
    refine ⟨turns + 1, fun Q hQ => ?_⟩
    rw [scanTlv, if_pos hpos, meets_bind, meets_cell, meets_bind, meets_cell, if_neg hone]
    exact ⟨by omega, hin, ih Q hQ⟩

theorem Options.le (h : Options s tag data len r) : ∀ a ∈ r, data ≤ a := by
  induction h with
  | done data => simp
  | found hin htag =>
    rintro _ ⟨⟩
    omega
  | skip hpos hin htag rest ih =>
    intro a ha
    have := ih a ha
    omega

theorem Options.inside (h : Options s tag data len r) (hend : data + len ≤ s.len) :
    ∀ a ∈ r, a + 6 ≤ s.len := by
  induction h with
  | done data => simp
  | @found data len hin htag =>
    rintro _ ⟨⟩
    omega
  | @skip data len r hpos hin htag rest ih =>
    by_cases hlen : (s.mem (data + 1)).toNat * 8 ≤ len
    · exact ih (by omega)
    · rw [Nat.sub_eq_zero_of_le (by omega)] at rest
      cases rest with
      | done => simp
      | found hin htag => omega
      | skip hpos => omega

/-- An option of length zero holds the scan where it is. -/
theorem not_options_of_zero (hlen : 0 < len) (hzero : s.mem (data + 1) = 0) :
    ¬Options s tag data len r := by
  intro h
  generalize hd : data = d at h
  induction h with
  | done => omega
  | found hin htag =>
    subst hd
    rw [hzero] at htag
    exact absurd htag.2.1 (by decide)
  | skip hpos hin htag rest ih =>
    subst hd
    refine ih (by rw [hzero]; simpa using hlen) ?_
    rw [hzero]
    simp

theorem meets_update_none {Q : Bool → Buf Byte → Prop} {mac : List Byte}
    (hnd : ndOptions (s.mem data) = none) :
    Meets (updateNdLinkLayerAddr turns data len mac) s Q ↔ data < s.len ∧ Q false s := by
  rw [updateNdLinkLayerAddr, meets_bind, meets_cell, hnd]
  exact Iff.rfl

theorem meets_update_some {Q : Bool → Buf Byte → Prop} {mac : List Byte} {off : ℕ}
    (hnd : ndOptions (s.mem data) = some (off, tag)) :
    Meets (updateNdLinkLayerAddr turns data len mac) s Q ↔ data < s.len ∧
      (off ≤ len → Meets (scanTlv tag 1 turns (data + off) (len - off)) s fun r t =>
        (r = none → Q false t) ∧ ∀ a ∈ r, t.Inside a mac.length ∧ Q true (t.store a mac)) ∧
      (¬off ≤ len → Q false s) := by
  rw [updateNdLinkLayerAddr, meets_bind, meets_cell, hnd, meets_ite, meets_pure, meets_bind]
  refine and_congr_right fun _ => and_congr_left fun _ => imp_congr_right fun _ => ?_
  refine meets_congr fun r t => ?_
  cases r with
  | none => simp
  | some a => simp

/-- The payload length is not among the bytes that are rewritten. -/
theorem field_cleared {a : ℕ} {mac : List Byte} (ha : icmp6Off ≤ a) :
    field (cleared (s.store a mac)) 18 = field s 18 := by
  have hload : load (cleared (s.store a mac)).mem 18 2 = load s.mem 18 2 := by
    refine load_congr fun i hi hi' => ?_
    simp only [icmp6Off, ethHlen] at ha
    rw [cleared, store_mem_of_disjoint (.inl (by simp only [icmp6Off, ethHlen]; omega)),
      store_mem_of_disjoint (.inl (by omega))]
  rw [field, hload, field]

theorem meets_insertIpv6 {P : Buf Byte → Prop} (h : 14 ≤ s.len) (hicmp : Icmp6 s) :
    Meets (handleIpv6 env turns .insert) s (fun _ t => P t) ↔
      Meets (updateNdLinkLayerAddr turns icmp6Off (s.len - icmp6Off) env.myHwaddr.toList) s
        fun b t => (b = false → P t) ∧ (b = true → 58 ≤ t.len ∧
          (cleared t).Inside icmp6Off (env.host.raw (field (cleared t) 18)) ∧
            P (summed env t)) := by
  have hlong := hicmp.long
  have hsaddr : load s.mem (ethHlen + 8) 16 ≠ List.replicate 16 0 := hicmp.saddr
  have hnext : s.mem (ethHlen + 6) = 58 ∧ ethHlen + 40 + 4 < s.len := ⟨hicmp.nexthdr, hlong⟩
  unfold handleIpv6
  rw [meets_bind, meets_look, if_neg (by rw [ethHlen]; omega), meets_bind, meets_read,
    if_neg hsaddr, meets_bind, meets_insert h, meets_bind, meets_cell, if_pos hnext, meets_bind,
    and_iff_right (inside_of_le (by rw [ethHlen]; omega)), and_iff_right (by rw [ethHlen]; omega)]
  refine meets_congr fun b t => ?_
  cases b with
  | false => simp
  | true =>
    rw [if_pos rfl, meets_bind, meets_write, meets_bind, meets_read, meets_bind, meets_read,
      meets_bind, meets_read, meets_bind, meets_write, meets_pure]
    constructor
    · rintro ⟨hsum, -, hmessage, -, -, hP⟩
      have hlen : 58 ≤ t.len := (inside_iff (by decide)).mp hsum
      exact ⟨by simp, fun _ => ⟨hlen, hmessage, hP⟩⟩
    · intro hrest
      obtain ⟨hlen, hmessage, hP⟩ := hrest.2 rfl
      have hsum : t.Inside (icmp6Off + 2) 2 := inside_of_le hlen
      exact ⟨hsum, inside_of_le (le_trans (by decide) hlen), hmessage,
        inside_of_le (le_trans (by decide) hlen), hsum, hP⟩

theorem meets_insertIpv6_other {P : Buf Byte → Prop} (h : 14 ≤ s.len) (hicmp : ¬Icmp6 s) :
    Meets (handleIpv6 env turns .insert) s (fun _ t => P t) ↔ P s := by
  unfold handleIpv6
  rw [meets_bind, meets_look]
  by_cases hshort : s.len - ethHlen ≤ 40
  · rw [if_pos hshort, meets_pure]
  have hlong : 54 < s.len := by
    rw [ethHlen] at hshort
    omega
  rw [if_neg hshort, meets_bind, meets_read,
    and_iff_right (inside_of_le (by rw [ethHlen]; omega))]
  by_cases hsaddr : load s.mem (ethHlen + 8) 16 = List.replicate 16 0
  · rw [if_pos hsaddr, meets_pure]
  have hno : ¬(s.mem (ethHlen + 6) = 58 ∧ ethHlen + 40 + 4 < s.len) := fun hboth =>
    hicmp ⟨hsaddr, hboth.1, hboth.2⟩
  rw [if_neg hsaddr, meets_bind, meets_insert h, meets_bind, meets_cell, if_neg hno, meets_pure]
  exact and_iff_right (by rw [ethHlen]; omega)

/-- With the address at `a`, only this and the checksum are rewritten. -/
theorem apart_summed {a : ℕ} (hnd : NdAddress s a) :
    Apart (MacFields s .ipv6 .insert) s (summed env (s.store a env.myHwaddr.toList)) := by
  have hmac : Apart (MacFields s .ipv6 .insert) s (s.store a env.myHwaddr.toList) :=
    (Apart.refl _ s).store fun k hk => ⟨a, hnd, .inl ⟨by omega, by simpa using hk⟩⟩
  have hsum : ∀ k < 2, MacFields s .ipv6 .insert (icmp6Off + 2 + k) := fun k hk =>
    ⟨a, hnd, .inr ⟨by omega, by omega⟩⟩
  have hclear : Apart (MacFields s .ipv6 .insert) s (cleared (s.store a env.myHwaddr.toList)) :=
    hmac.store hsum
  exact hclear.store hsum

theorem meets_insertIpv6_iff (h : 14 ≤ s.len) :
    (∃ turns, Meets (handleIpv6 env turns .insert) s
      fun _ t => Apart (MacFields s .ipv6 .insert) s t) ↔ (Icmp6 s → NdFits env s) := by
  have hsame := Apart.refl (MacFields s .ipv6 .insert) s
  by_cases hicmp : Icmp6 s
  swap
  · simp [meets_insertIpv6_other h hicmp, hsame, hicmp]
  have hlong := hicmp.long
  have hstart : icmp6Off < s.len := by
    simp only [icmp6Off, ethHlen]
    omega
  simp only [meets_insertIpv6 h hicmp, hicmp, forall_const]
  constructor
  · rintro ⟨turns, hm⟩ off tag hnd hoff
    rw [meets_update_some hnd] at hm
    obtain ⟨r, hopts, -, hsome⟩ := options_of_meets (hm.2.1 hoff)
    refine ⟨r, hopts, fun hr => ?_⟩
    obtain ⟨a, rfl⟩ := Option.isSome_iff_exists.mp hr
    obtain ⟨-, hmessage, -⟩ := (hsome a rfl).2.2 rfl
    rwa [field_cleared (le_trans (by omega) (hopts.le a rfl))] at hmessage
  · intro hf
    rcases hnd : ndOptions (s.mem icmp6Off) with _ | ⟨off, tag⟩
    · refine ⟨0, (meets_update_none hnd).mpr ⟨hstart, ?_⟩⟩
      simpa using hsame
    by_cases hoff : off ≤ s.len - icmp6Off
    swap
    · refine ⟨0, (meets_update_some hnd).mpr ⟨hstart, fun hle => absurd hle hoff, fun _ => ?_⟩⟩
      simpa using hsame
    obtain ⟨r, hopts, hmessage⟩ := hf off tag hnd hoff
    obtain ⟨turns, hscan⟩ := meets_of_options hopts
    refine ⟨turns, (meets_update_some hnd).mpr ⟨hstart, fun _ => hscan _ ⟨fun _ => ?_, ?_⟩,
      fun hno => absurd hoff hno⟩⟩
    · simpa using hsame
    · rintro a ha
      obtain rfl : r = some a := ha
      have hin := hopts.inside (by omega) a rfl
      refine ⟨inside_of_le (by simpa using hin), by simp, fun _ => ⟨hlong.le, ?_, ?_⟩⟩
      · rw [field_cleared (le_trans (by omega) (hopts.le a rfl))]
        exact hmessage rfl
      · exact apart_summed ⟨off, tag, hnd, hopts⟩

theorem meets_handleIpv6 (h : 14 ≤ s.len) :
    (∃ turns, Meets (handleIpv6 env turns m) s fun _ t => Apart (MacFields s .ipv6 m) s t) ↔
      Ipv6Fits env m s := by
  have hsame := Apart.refl (MacFields s .ipv6 m) s
  cases m with
  | insert => simpa [Ipv6Fits] using meets_insertIpv6_iff h
  | check =>
    refine iff_of_true ⟨0, ?_⟩ (by simp [Ipv6Fits])
    unfold handleIpv6
    rw [meets_bind, meets_look, meets_ite, meets_bind, meets_cell]
    exact ⟨fun _ => hsame, fun _ => ⟨by omega, meets_ite.mpr ⟨fun _ => hsame, fun _ => hsame⟩⟩⟩
  | parse =>
    refine iff_of_true ⟨0, ?_⟩ (by simp [Ipv6Fits])
    unfold handleIpv6
    rw [meets_bind, meets_look, meets_ite]
    exact ⟨fun _ => hsame, fun _ => hsame⟩
  | lookup =>
    refine iff_of_true ⟨0, ?_⟩ (by simp [Ipv6Fits])
    unfold handleIpv6
    rw [meets_bind, meets_look, meets_ite, meets_bind, meets_read, meets_bind, meets_lookup h]
    refine ⟨fun _ => hsame, fun hlong => ⟨inside_of_le ?_, ?_⟩⟩
    · rw [ethHlen] at hlong ⊢
      omega
    · exact apart_replaced fun i hi => ⟨Nat.zero_le i, by omega⟩

end Nd

end Rtl8821cu.Nat25Handle
