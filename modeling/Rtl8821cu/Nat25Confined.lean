import Rtl8821cu.Nat25Nd
import Rtl8821cu.Nat25PppoeFits

/-! The packets that `nat25_db_handle` (`core/rtw_br_ext.c`) handles inside of them: exactly those
whose header holds what the method reads and rewrites of it. -/
namespace Rtl8821cu.Nat25Handle
open Guard Store Bytes Nat25Pppoe

/-- What a method needs of a header. -/
def HeaderFits (env : Env) (m : Method) (s : Buf Byte) : Header → Prop
  | .ip => IpFits env m s
  | .arp => ArpFits env m s
  | .pppoe => PppoeFits env m s
  | .ipv6 => Ipv6Fits env m s
  | apple => AppleFits env m s apple

/-- An old kernel tells IPX and AppleTalk apart by what follows the Ethernet header. -/
abbrev Apple (env : Env) (s : Buf Byte) : Prop :=
  env.kernelBefore515 = true ∧ (field s 12 = 0x809b ∨ field s 12 = 0x80f3)

/-- The packet holds the Ethernet header, and what the method needs of the one behind it. -/
def Fits (env : Env) (method : ℤ) (s : Buf Byte) : Prop :=
  ∀ m ∈ methodOf method, 14 ≤ s.len ∧ (Apple env s → SnapFits s) ∧
    HeaderFits env m s (header env s)

section Confined

variable {env : Env} {m : Method} {s : Buf Byte} {hdr : Header} {p : Access ℤ}

/-- Apart from PPPoE, only addresses of stations are rewritten. -/
theorem meets_kept_iff (hh : header env s = hdr) (hne : hdr ≠ .pppoe) :
    Meets p s (fun _ t => Kept env m s t) ↔
      Meets p s (fun _ t => Apart (MacFields s hdr m) s t) := by
  refine meets_congr fun _ t => ?_
  rw [Kept, hh]
  exact or_iff_left fun hboth => hne hboth.1

theorem meets_keptPppoe_iff (hh : header env s = .pppoe) :
    Meets p s (fun _ t => Kept env m s t) ↔ Meets p s (fun _ t => PppoeKept m s t) := by
  refine meets_congr fun _ t => ?_
  rw [Kept, hh, PppoeKept, and_iff_right rfl]

theorem snapHeader_ne : snapHeader s ≠ .pppoe := by
  unfold snapHeader
  split_ifs <;> simp

theorem headerFits_snap : HeaderFits env m s (snapHeader s) = AppleFits env m s (snapHeader s) := by
  unfold snapHeader
  split_ifs <;> rfl

/-- A protocol other than IPX and AppleTalk. -/
theorem handleProtocol_iff (hh : header env s = hdr) (hno : ¬Apple env s)
    {prog : ℕ → Access ℤ} (hprog : ∀ turns, handleProtocol env turns m (field s 12) = prog turns)
    (hfits : (∃ turns, Meets (prog turns) s fun _ t => Kept env m s t) ↔ HeaderFits env m s hdr) :
    (∃ turns, Meets (handleProtocol env turns m (field s 12)) s fun _ t => Kept env m s t) ↔
      (Apple env s → SnapFits s) ∧ HeaderFits env m s (header env s) := by
  rw [hh, and_iff_right fun happle => absurd happle hno, ← hfits]
  simp only [hprog]

theorem meets_handlePassed :
    Meets (handlePassed m) s fun _ t => Kept env m s t := by
  have hsame : Kept env m s s := .inl (.refl _ s)
  cases m with
  | check => exact hsame
  | insert => exact hsame
  | lookup => exact hsame
  | parse => exact hsame

theorem meets_handleProtocol (h : 14 ≤ s.len) :
    (∃ turns, Meets (handleProtocol env turns m (field s 12)) s fun _ t => Kept env m s t) ↔
      (Apple env s → SnapFits s) ∧ HeaderFits env m s (header env s) := by
  by_cases hip : field s 12 = 0x0800
  · have hh : header env s = .ip := if_pos hip
    refine handleProtocol_iff hh (by rintro ⟨-, hp | hp⟩ <;> omega) (fun _ => if_pos hip) ?_
    rw [exists_const, meets_kept_iff hh (by simp)]
    exact meets_handleIp h
  by_cases harp : field s 12 = 0x0806
  · have hh : header env s = .arp := by rw [header, if_neg hip, if_pos harp]
    refine handleProtocol_iff hh (by rintro ⟨-, hp | hp⟩ <;> omega)
      (fun _ => by rw [handleProtocol, if_neg hip, if_pos harp]) ?_
    rw [exists_const, meets_kept_iff hh (by simp)]
    exact meets_handleArp h
  by_cases hipx : env.kernelBefore515 = true ∧ field s 12 = 0x8137
  · have hh : header env s = .ipx 14 := by rw [header, if_neg hip, if_neg harp, if_pos hipx]
    refine handleProtocol_iff hh (by rintro ⟨-, hp | hp⟩ <;> omega)
      (fun _ => by rw [handleProtocol, if_neg hip, if_neg harp, if_pos ⟨hipx.1, .inl hipx.2⟩]) ?_
    rw [exists_const, meets_kept_iff hh (by simp), hipx.2]
    exact meets_handleIpx_only h
  by_cases happle : Apple env s
  · have hh : header env s = snapHeader s := by
      rw [header, if_neg hip, if_neg harp, if_neg hipx, if_pos happle]
    have hprog : ∀ turns, handleProtocol env turns m (field s 12) =
        handleNovellApple env m (field s 12) := fun turns => by
      rw [handleProtocol, if_neg hip, if_neg harp, if_pos ⟨happle.1, .inr happle.2⟩]
    simp only [hprog, exists_const]
    have hne : field s 12 ≠ 0x8137 := by omega
    have hsnap : (Apple env s → SnapFits s) ↔ SnapFits s := forall_prop_of_true happle
    rw [meets_kept_iff hh snapHeader_ne, meets_handleNovellApple h hne, hh, headerFits_snap, hsnap]
  have hnovell : ¬(env.kernelBefore515 = true ∧
      (field s 12 = 0x8137 ∨ field s 12 = 0x809b ∨ field s 12 = 0x80f3)) := by
    rintro ⟨hkernel, hp | hp⟩
    · exact hipx ⟨hkernel, hp⟩
    · exact happle ⟨hkernel, hp⟩
  by_cases hppp : field s 12 = 0x8863 ∨ field s 12 = 0x8864
  · have hh : header env s = .pppoe := by
      rw [header, if_neg hip, if_neg harp, if_neg hipx, if_neg happle, if_pos hppp]
    refine handleProtocol_iff hh happle (fun _ => by
      rw [handleProtocol, if_neg hip, if_neg harp, if_neg hnovell, if_pos hppp]) ?_
    rw [exists_const, meets_keptPppoe_iff hh]
    exact meets_handlePppoe h
  by_cases hipv6 : field s 12 = 0x86dd
  · have hh : header env s = .ipv6 := by
      rw [header, if_neg hip, if_neg harp, if_neg hipx, if_neg happle, if_neg hppp, if_pos hipv6]
    refine handleProtocol_iff hh happle (fun turns => by
      rw [handleProtocol, if_neg hip, if_neg harp, if_neg hnovell, if_neg hppp,
        if_neg (by omega), if_neg (by omega), if_pos hipv6]) ?_
    simp only [meets_kept_iff hh (by simp)]
    exact meets_handleIpv6 h
  have hh : header env s = .other := by
    rw [header, if_neg hip, if_neg harp, if_neg hipx, if_neg happle, if_neg hppp, if_neg hipv6]
  refine handleProtocol_iff hh happle (fun turns => rfl) (iff_of_true ⟨0, ?_⟩ trivial)
  rw [handleProtocol, if_neg hip, if_neg harp, if_neg hnovell, if_neg hppp, if_neg hipv6]
  split_ifs
  · exact meets_handlePassed
  · exact meets_handlePassed
  · exact .inl (.refl _ s)

theorem confined_iff (env : Env) (method : ℤ) (s : Buf Byte) :
    Confined env method s ↔ Fits env method s := by
  rw [Confined, Fits]
  rcases hm : methodOf method with _ | m
  · simp only [nat25DbHandle, hm]
    simp
  · have hprotocol : ntohs (load s.mem 12 2) = field s 12 := rfl
    simp only [nat25DbHandle, hm, meets_bind, meets_read, inside_iff (show 0 < 2 by decide),
      hprotocol, exists_and_left, Option.mem_some_iff, forall_eq']
    exact and_congr_right fun h => meets_handleProtocol h

end Confined

theorem nat25DbHandle_confined_iff (env : Env) (method : ℤ) (s : Buf Byte) :
    Confined env method s ↔ Fits env method s := confined_iff env method s

/-- A processor that prints nothing, with an empty data base. -/
def quietEnv : Env where
  host := .littleEndian
  info := false
  kernelBefore515 := false
  myHwaddr := Mac.ending 1
  brMac := Mac.ending 2
  nethash := fun _ => none
  addPPPoETag := false
  pppoeConnectionInProgress := 0
  pppoeAddr := Mac.ending 3
  stack := fun _ => 0
  csumIpv6Magic := fun _ _ => 0

/-- A neighbour solicitation whose option has the length zero. -/
def zeroOption : List Byte :=
  [0x33, 0x33, 0xff, 0x00, 0x00, 0x01, 0x02, 0x00, 0x00, 0x00, 0x00, 0x04, 0x86, 0xdd] ++
  [0x60, 0x00, 0x00, 0x00, 0x00, 0x20, 0x3a, 0xff] ++
  [0xfe, 0x80, 0, 0, 0, 0, 0, 0, 0, 0, 0, 0, 0, 0, 0, 0x02] ++
  [0xff, 0x02, 0, 0, 0, 0, 0, 0, 0, 0, 0, 0x01, 0xff, 0, 0, 0x01] ++
  [0x87, 0x00, 0x12, 0x34, 0, 0, 0, 0] ++
  [0xfe, 0x80, 0, 0, 0, 0, 0, 0, 0, 0, 0, 0, 0, 0, 0, 0x01] ++
  [0x01, 0x00, 0x02, 0x00, 0x00, 0x00, 0x00, 0x04]

/-- A packet of these bytes, without room behind them. -/
def packet (l : List Byte) : Buf Byte := ⟨fun i => l.getD i 0, l.length, 0⟩

theorem zeroOption_not_confined : ¬Confined quietEnv 2 (packet zeroOption) := by
  rw [confined_iff]
  intro hfits
  have hfield : field (packet zeroOption) 12 = 0x86dd := by decide
  have hheader : header quietEnv (packet zeroOption) = .ipv6 := by simp [header, hfield, quietEnv]
  have hipv6 := (hfits .insert rfl).2.2
  rw [hheader] at hipv6
  have hicmp : Icmp6 (packet zeroOption) := ⟨by decide, by decide, by decide⟩
  obtain ⟨r, hopts, -⟩ := hipv6 rfl hicmp 24 1 rfl (by decide)
  exact not_options_of_zero (by decide) (by decide) hopts

end Rtl8821cu.Nat25Handle
