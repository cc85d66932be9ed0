import Rtl8821cu.MeshHwmp
import Rtl8821cu.MeshWire
import Rtl8821cu.RecvFunc
import Rtl8821cu.SwCrypt
import Rtl8821cu.XmitSchedRun

/-! Routines that several modules model, each with the data that it is about: what the models have
in common, they agree on. -/
namespace Rtl8821cu.Agree
open Store Bytes

section Decryptor

open Recv (DataFrame FrameInfo SecurityType)
open SwCrypt (Outcome RecvEnv RecvFrame)
open XmitFrag (Encrypt)

variable {σ κ : Type}

/-- What the software routine of a cipher says of a frame. -/
def verdict (f : DataFrame) : SecurityType → Bool
  | .tkip => f.tkipDecrypt
  | .aes | .ccmp256 => f.aesDecrypt
  | .gcmp | .gcmp256 => f.gcmpDecrypt
  | _ => true

theorem frameInfo_decryptor_eq (i : FrameInfo σ κ) (f : DataFrame) (encrypt : SecurityType)
    (h : i.decrypts = verdict f encrypt) :
    i.decryptor encrypt f.bdecrypted = Recv.decryptor f encrypt := by
  unfold FrameInfo.decryptor Recv.decryptor
  cases encrypt <;> simp [h, verdict]

/-- The encryption types that a sender uses, among those of the driver. -/
def securityType : Encrypt → SecurityType
  | .noPrivacy => .noPrivacy
  | .wep40 => .wep40
  | .wep104 => .wep104
  | .tkip => .tkip
  | .aes => .aes
  | .gcmp => .gcmp
  | .gcmp256 => .gcmp256
  | .ccmp256 => .ccmp256

def accepts : Outcome → Bool
  | .accepted _ => true
  | _ => false

@[simp] theorem accepts_accepted (data : List (BitVec 8)) : accepts (.accepted data) = true := rfl

/-- The findings of a frame are what the routines make of its bytes. -/
structure Finds (env : RecvEnv) (f : RecvFrame) (g : DataFrame) : Prop where
  bdecrypted : g.bdecrypted = f.bdecrypted
  tkip : g.tkipDecrypt = accepts (SwCrypt.rtwTkipDecrypt env f)
  aes : g.aesDecrypt = accepts (env.other f)
  gcmp : g.gcmpDecrypt = accepts (env.other f)

theorem swCrypt_decryptor_eq {env : RecvEnv} {f : RecvFrame} {g : DataFrame} (h : Finds env f g)
    (hlen : f.payload ≤ f.data.length) :
    accepts (SwCrypt.decryptor env f) = Recv.decryptor g (securityType f.encrypt) := by
  have hwep : accepts (SwCrypt.rtwWepDecrypt env f) = true := by
    rw [SwCrypt.rtwWepDecrypt, if_neg (by omega)]
    rfl
  unfold SwCrypt.decryptor Recv.decryptor
  rw [h.bdecrypted]
  cases hdec : f.bdecrypted with
  | true => simp
  | false => cases he : f.encrypt <;> simp [securityType, hwep, h.tkip, h.aes, h.gcmp]

end Decryptor

section MeshControl

open MeshFwd

theorem toList_macAt (m : MeshFwd.Buf) (p : ℕ) : (macAt m p).toList = load m p 6 := rfl

theorem toNat_ae (m : Mctrl) : m.ae.toNat = m.flags.toNat % 4 := by
  rw [Mctrl.ae, BitVec.toNat_and]
  exact Nat.and_two_pow_sub_one_eq_mod _ 2

/-- The Mesh Control field of a subframe is checked as that of a frame of its own. -/
theorem validateMctrl_eq (toFrDs : ℕ) (order : ByteOrder) (m : MeshFwd.Buf) {p n : ℕ} (hn : 18 ≤ n)
    (mda msa : Mac) (oldDa oldSa : List (BitVec 8)) :
    match meshRxDataValidateMctrl toFrDs (mctrlAt order m p) mda msa with
    | some (mlen, da, sa) =>
      Amsdu.rtwMeshRxDataValidateMctrl toFrDs (load m p n) mda.toList msa.toList oldDa oldSa =
        ⟨true, da.toList, sa.toList, mlen⟩
    | none =>
      (Amsdu.rtwMeshRxDataValidateMctrl toFrDs (load m p n) mda.toList msa.toList oldDa
        oldSa).ok = false := by
  have hflags : (load m p n).getD 0 0 = (mctrlAt order m p).flags := getD_load m p (by omega) 0
  have hae : ((load m p n).getD 0 0).toNat % 4 = (mctrlAt order m p).ae.toNat := by
    rw [hflags, toNat_ae]
  have headdr1 : ((load m p n).drop 6).take 6 = (mctrlAt order m p).eaddr1.toList :=
    ((holdsAt_load m p n).load_eq (by rw [length_load]; omega)).symm
  have headdr2 : ((load m p n).drop 12).take 6 = (mctrlAt order m p).eaddr2.toList :=
    ((holdsAt_load m p n).load_eq (by rw [length_load]; omega)).symm
  unfold meshRxDataValidateMctrl Amsdu.rtwMeshRxDataValidateMctrl
  dsimp only
  rw [hae, headdr1, headdr2]
  generalize (mctrlAt order m p).ae = ae
  have hone : ae = 1 ↔ ae.toNat = 1 := BitVec.toNat_inj.symm
  have htwo : ae = 2 ↔ ae.toNat = 2 := BitVec.toNat_inj.symm
  have hzero : ae = 0 ↔ ae.toNat = 0 := BitVec.toNat_inj.symm
  simp only [hone, htwo, hzero]
  split_ifs <;> rfl

end MeshControl

section PathTable

open Mesh

variable {F : Type}

/-- What path selection and the path table both keep of a path. -/
structure Shared where
  active : Bool
  resolving : Bool
  fixed : Bool
  expTime : Jiffies
  isGate : Bool

def pathShared (p : Hwmp.Path) : Shared := ⟨p.active, p.resolving, p.fixed, p.expTime, p.isGate⟩

def mpathShared (p : Mpath F) : Shared :=
  ⟨p.route.active, p.route.resolving, p.route.fixed, p.route.expTime, p.isGate⟩

/-- The two tables have the same entries. -/
structure SamePaths (s : Hwmp.State) (t : MeshInfo F) : Prop where
  mpaths : s.mpaths = t.mpaths
  paths : ∀ a, (s.paths a).map pathShared = (t.find .mesh a).map mpathShared

/-- An address without an entry is added to both, or to neither. -/
theorem meshPathAdd_same {s : Hwmp.State} {t : MeshInfo F} (h : SamePaths s t) {hcfg : Hwmp.Cfg}
    {cfg : Cfg} (hmac : hcfg.macAddr = cfg.macAddr) (rx : Hwmp.Rx) {dst : Mac}
    (hnone : s.paths dst = none) {allocOk insertOk : Bool}
    (halloc : rx.alloc dst = (allocOk && insertOk)) :
    SamePaths (s.meshPathAdd hcfg rx dst).1 (t.meshPathAdd cfg rx.now dst allocOk insertOk).1 := by
  have hfind : t.find .mesh dst = none := by
    have hdst := h.paths dst
    rw [hnone] at hdst
    simpa using hdst.symm
  have hcount : SamePaths { s with mpaths := t.mpaths + 1 } { t with mpaths := t.mpaths + 1 } :=
    ⟨rfl, h.paths⟩
  unfold Hwmp.State.meshPathAdd MeshInfo.meshPathAdd
  rw [hmac, h.mpaths]
  by_cases hself : dst = cfg.macAddr
  · simpa [hself] using h
  by_cases hmcast : dst.isMcast
  · simpa [hself, hmcast] using h
  by_cases hfull : t.mpaths = maxMpaths
  · simpa [hself, hmcast, hfull] using h
  have hguard : (dst == cfg.macAddr || dst.isMcast || t.mpaths == maxMpaths) = false := by
    simp [hself, hmcast, hfull]
  have hfind' : ({ t with mpaths := t.mpaths + 1 } : MeshInfo F).find .mesh dst = none := hfind
  rw [hguard, if_neg Bool.false_ne_true, if_neg hself, if_neg hmcast, if_neg hfull, halloc]
  dsimp only
  rw [hfind']
  cases allocOk with
  | false => exact hcount
  | true =>
    cases insertOk with
    | false => exact hcount
    | true =>
      refine ⟨hcount.mpaths, fun a => ?_⟩
      have ha := h.paths a
      by_cases hdst : a = dst
      · subst hdst
        simp [Hwmp.State.set, MeshInfo.setPaths, MeshInfo.find, Keyed.find, meshPathNew,
          Hwmp.meshPathNew, pathShared, mpathShared]
      · have hne : ¬dst = a := fun he => hdst he.symm
        simpa [Hwmp.State.set, MeshInfo.setPaths, MeshInfo.find, Keyed.find, meshPathNew, hdst, hne]
          using ha

end PathTable

section Stations

open PowerSave (Addr)
open StaTable (StaPriv key numSta)
open XmitSched (Xmit)

variable {p : StaPriv} {x : Xmit numSta} {enc : Mac → Addr}

/-- The queues are those of the stations of the table, with the addresses written by `enc`. -/
def SameStations (enc : Mac → Addr) (p : StaPriv) (x : Xmit numSta) : Prop :=
  ∀ s, x.addr s = if s ∈ p.freeStaQueue then none else some (enc (p.mac s))

theorem rtwFreeStainfo_same (h : SameStations enc p x) {isPreLinkSta : Mac → Bool}
    {s : StaTable.Slot} (hpre : isPreLinkSta (p.mac s) = false) :
    SameStations enc (StaTable.rtwFreeStainfo isPreLinkSta p s) (x.rtwFreeStainfo s) := by
  have haddr : (x.rtwFreeStainfo s).addr = Function.update x.addr s none := rfl
  intro t
  rw [haddr, StaTable.rtwFreeStainfo, hpre, if_neg Bool.false_ne_true]
  by_cases ht : t = s
  · simp [ht]
  · rw [Function.update_of_ne ht, h t]
    simp [ht]

/-- An address has the same station in both, if `enc` tells the addresses of the table apart. -/
theorem rtwGetStainfo_same (h : SameStations enc p x) (ht : p.Table []) (hd : p.Distinct)
    (henc : ∀ s ∉ p.freeStaQueue, ∀ a, enc (p.mac s) = enc a ↔ p.mac s = key a) (a : Mac) :
    StaTable.rtwGetStainfo p a = x.rtwGetStainfo (enc a) := by
  have haddr : ∀ s b, x.addr s = some (enc b) ↔ s ∉ p.freeStaQueue ∧ p.mac s = key b := by
    intro s b
    rw [h s]
    by_cases hs : s ∈ p.freeStaQueue
    · simp [hs]
    · simp [hs, henc s hs b]
  have hinj : ∀ i j b, x.addr i = some b → x.addr j = some b → i = j := by
    intro i j b hi hj
    have hjused : j ∉ p.freeStaQueue := fun hfree => by simp [h j, hfree] at hj
    have hb : b = enc (p.mac j) := by simpa [h j, hjused] using hj.symm
    rw [hb] at hi hj
    obtain ⟨hiused, hmac⟩ := (haddr i _).mp hi
    exact hd i hiused j hjused (hmac.trans ((haddr j _).mp hj).2.symm)
  refine Option.ext fun s => ?_
  rw [ht.rtwGetStainfo_iff hd, ← haddr]
  exact ⟨XmitSched.Xmit.rtwGetStainfo_of_addr hinj, XmitSched.Xmit.addr_of_rtwGetStainfo⟩

end Stations

section SleepQueues

open PowerSave (Ac Addr Frame Sta)
open XmitSched (Hwq Xmit)
open XmitSched.Xmit (dequeueToSleepLoop enqueueForSleepingSta mgmtEnqueueForSleepingSta)

variable {n : ℕ} {x y : Xmit n} {i b : Fin n} {enqueue : Xmit n → Frame → Bool × Xmit n}
  {enq : Sta → Frame → Bool × Sta} {C : Frame → Prop} {l : List Frame}

/-- On frames of a kind, a routine does what another one does to station `i`. -/
def ActsOn (A : Fin n → Option Addr) (i : Fin n) (enqueue : Xmit n → Frame → Bool × Xmit n)
    (enq : Sta → Frame → Bool × Sta) (C : Frame → Prop) : Prop :=
  ∀ (y : Xmit n) (f : Frame), y.addr = A → C f →
    enqueue y { f with triggered := false } =
      ((enq (y.ps i) { f with triggered := false }).1,
        y.setPs i (enq (y.ps i) { f with triggered := false }).2)

/-- The walk over a queue of station `i` is the one over its frames. -/
theorem dequeueToSleepLoop_ps {A : Fin n → Option Addr} (h : ActsOn A i enqueue enq C)
    (hwq : Frame → Hwq) (hl : ∀ f ∈ l, C f) (hy : y.addr = A) :
    (dequeueToSleepLoop enqueue hwq i l y).1 = (PowerSave.dequeueToSleepq enq l (y.ps i)).1 ∧
      (dequeueToSleepLoop enqueue hwq i l y).2.ps i =
        (PowerSave.dequeueToSleepq enq l (y.ps i)).2 ∧
      (dequeueToSleepLoop enqueue hwq i l y).2.addr = A ∧
      ∀ q, ((dequeueToSleepLoop enqueue hwq i l y).2.servq q).staPending =
        (y.servq q).staPending := by
  induction l generalizing y with
  | nil => exact ⟨rfl, rfl, hy, fun _ => rfl⟩
  | cons f l ih =>
    have hf := h y f hy (hl f (by simp))
    rw [dequeueToSleepLoop, PowerSave.dequeueToSleepq]
    dsimp only
    rw [hf]
    dsimp only
    generalize enq (y.ps i) { f with triggered := false } = r
    generalize hnext : (if r.1 = true then
      (y.setPs i r.2).addCnt (i, hwq { f with triggered := false }) (-1) else y.setPs i r.2) = z
    have hps : z.ps i = r.2 := by
      rw [← hnext]
      split_ifs <;> exact Function.update_self _ _ _
    have haddr : z.addr = A := by
      rw [← hnext]
      split_ifs <;> exact hy
    have hpend : ∀ q, (z.servq q).staPending = (y.servq q).staPending := by
      intro q
      rw [← hnext]
      split_ifs
      · exact XmitSched.Xmit.addCnt_pending _ _ _ q
      · rfl
    obtain ⟨hrest, hps', haddr', hpend'⟩ := ih (fun g hg => hl g (by simp [hg])) haddr
    rw [hps] at hrest hps'
    exact ⟨by rw [hrest], hps', haddr', fun q => (hpend' q).trans (hpend q)⟩

/-- One queue of station `i` goes to its sleep queue. -/
theorem dequeueToSleepq_ps {h : Hwq} (hact : ActsOn x.addr i enqueue enq C) (hwq : Frame → Hwq)
    (hl : ∀ f ∈ (x.servq (i, h)).staPending, C f) :
    (x.dequeueToSleepq enqueue hwq (i, h)).ps i =
        (PowerSave.dequeueToSleepq enq (x.servq (i, h)).staPending (x.ps i)).2 ∧
      (x.dequeueToSleepq enqueue hwq (i, h)).addr = x.addr ∧
      ∀ q ≠ (i, h), ((x.dequeueToSleepq enqueue hwq (i, h)).servq q).staPending =
        (x.servq q).staPending := by
  obtain ⟨-, hps, haddr, hpend⟩ := dequeueToSleepLoop_ps hact hwq hl rfl
  refine ⟨hps, haddr, fun q hq => ?_⟩
  rw [← hpend q]
  exact congrArg _ (XmitSched.Xmit.setPending_servq_of_ne _ _ _ hq)

theorem sleepq_append (enq : Sta → Frame → Bool × Sta) (l l' : List Frame) (s : Sta) :
    (PowerSave.dequeueToSleepq enq (l ++ l') s).2 =
      (PowerSave.dequeueToSleepq enq l' (PowerSave.dequeueToSleepq enq l s).2).2 := by
  induction l generalizing s with
  | nil => rfl
  | cons f l ih => exact ih _

/-- The frames of a station in its four queues, in the order in which `stop_sta_xmit` takes them. -/
def acPending (x : Xmit n) (i : Fin n) : List Frame :=
  [Ac.vo, .vi, .be, .bk].flatMap fun a => (x.servq (i, .ac a)).staPending

theorem stopAcs_ps (hact : ActsOn x.addr i enqueueForSleepingSta enq C)
    (hl : ∀ f ∈ acPending x i, C f) :
    (x.stopAcs i).ps i = (PowerSave.dequeueToSleepq enq (acPending x i) (x.ps i)).2 ∧
      (x.stopAcs i).addr = x.addr ∧
      ∀ q, q.1 ≠ i → ((x.stopAcs i).servq q).staPending = (x.servq q).staPending := by
  unfold XmitSched.Xmit.stopAcs acPending at *
  have hnodup : [Ac.vo, .vi, .be, .bk].Nodup := by decide
  generalize [Ac.vo, .vi, .be, .bk] = acs at *
  induction acs generalizing x with
  | nil => exact ⟨rfl, rfl, fun _ _ => rfl⟩
  | cons a acs ih =>
    have hhead : ∀ f ∈ (x.servq (i, .ac a)).staPending, C f := fun f hf => hl f (by simp [hf])
    obtain ⟨hps, haddr, hpend⟩ := dequeueToSleepq_ps hact XmitSched.Xmit.rtwGetStaPending hhead
    obtain ⟨hnot, hnodup'⟩ := List.nodup_cons.mp hnodup
    rw [List.foldl_cons, List.flatMap_cons, sleepq_append, ← hps]
    generalize x.dequeueToSleepq enqueueForSleepingSta XmitSched.Xmit.rtwGetStaPending (i, .ac a) =
      z at *
    have hsame : ∀ c ∈ acs, (z.servq (i, .ac c)).staPending = (x.servq (i, .ac c)).staPending := by
      refine fun c hc => hpend _ fun he => hnot ?_
      have hac : c = a := by simpa using he
      rwa [← hac]
    have hrest : (acs.flatMap fun c => (z.servq (i, .ac c)).staPending) =
        acs.flatMap fun c => (x.servq (i, .ac c)).staPending :=
      List.flatMap_congr hsame
    rw [← haddr] at hact
    obtain ⟨hps', haddr', hpend'⟩ := ih hact (by rw [hrest]; exact fun f hf => hl f (by simp [hf]))
      hnodup'
    rw [hrest] at hps'
    refine ⟨hps', haddr'.trans haddr, fun q hq => (hpend' q hq).trans (hpend q ?_)⟩
    rintro rfl
    exact hq rfl

theorem enqueueForSleepingSta_spares (hb : b ≠ i) {f : Frame} (hf : f.psta = b) :
    (y.enqueueForSleepingSta f).2.ps i = y.ps i ∧
      (y.enqueueForSleepingSta f).2.servq = y.servq := by
  unfold XmitSched.Xmit.enqueueForSleepingSta
  cases y.rtwGetStainfo f.ra with
  | none => exact ⟨rfl, rfl⟩
  | some j =>
    dsimp only
    split_ifs with hpsta
    · exact ⟨rfl, rfl⟩
    all_goals
      have hj : j = b := Fin.ext (by omega)
      subst hj
      exact ⟨Function.update_of_ne hb.symm _ _, rfl⟩

/-- The frames of another station leave station `i` alone. -/
theorem dequeueToSleepLoop_spares (hb : b ≠ i) (hwq : Frame → Hwq) (hl : ∀ f ∈ l, f.psta = b) :
    (dequeueToSleepLoop enqueueForSleepingSta hwq b l y).2.ps i = y.ps i ∧
      ∀ q, ((dequeueToSleepLoop enqueueForSleepingSta hwq b l y).2.servq q).staPending =
        (y.servq q).staPending := by
  induction l generalizing y with
  | nil => exact ⟨rfl, fun _ => rfl⟩
  | cons f l ih =>
    have hf : ({ f with triggered := false } : Frame).psta = b := hl f (by simp)
    obtain ⟨hps, hservq⟩ := enqueueForSleepingSta_spares (y := y) hb hf
    rw [dequeueToSleepLoop]
    dsimp only
    obtain ⟨hps', hpend⟩ := ih fun g hg => hl g (by simp [hg])
    refine ⟨hps'.trans ?_, fun q => (hpend q).trans ?_⟩
    · split_ifs <;> exact hps
    · split_ifs
      · rw [XmitSched.Xmit.addCnt_pending, hservq]
      · rw [hservq]

theorem stopAcs_spares (hb : b ≠ i) (hl : ∀ f ∈ acPending x b, f.psta = b) :
    (x.stopAcs b).ps i = x.ps i := by
  unfold XmitSched.Xmit.stopAcs acPending at *
  have hnodup : [Ac.vo, .vi, .be, .bk].Nodup := by decide
  generalize [Ac.vo, .vi, .be, .bk] = acs at *
  induction acs generalizing x with
  | nil => rfl
  | cons a acs ih =>
    have hhead : ∀ f ∈ (x.servq (b, .ac a)).staPending, f.psta = b :=
      fun f hf => hl f (by simp [hf])
    obtain ⟨hps, hpend⟩ :=
      dequeueToSleepLoop_spares (y := x) hb XmitSched.Xmit.rtwGetStaPending hhead
    obtain ⟨hnot, hnodup'⟩ := List.nodup_cons.mp hnodup
    rw [List.foldl_cons]
    refine (ih (fun f hf => ?_) hnodup').trans hps
    obtain ⟨c, hc, hf⟩ := List.mem_flatMap.mp hf
    have hne : ((b, .ac c) : Fin n × Hwq) ≠ (b, .ac a) := fun he => hnot (by
      have hac : c = a := by simpa using he
      rwa [← hac])
    have hsame : ((x.dequeueToSleepq enqueueForSleepingSta XmitSched.Xmit.rtwGetStaPending
        (b, .ac a)).servq (b, .ac c)).staPending = (x.servq (b, .ac c)).staPending :=
      (congrArg _ (XmitSched.Xmit.setPending_servq_of_ne _ _ _ hne)).trans (hpend _)
    rw [hsame] at hf
    exact hl f (List.mem_flatMap.mpr ⟨c, by simp [hc], hf⟩)

theorem owned_of_acPending (h : x.Own) {f : Frame} (hf : f ∈ acPending x i) :
    x.addr i = some f.ra ∧ f.psta = i := by
  obtain ⟨a, -, hf⟩ := List.mem_flatMap.mp hf
  exact ⟨(h.owned (i, .ac a) f hf).addr, (h.owned (i, .ac a) f hf).psta⟩

/-- A station that goes to sleep gets its frames as `PowerSave` says. -/
theorem stopStaXmit_ps (h : x.Own) (hi : x.addr i ≠ some .group) :
    (x.stopStaXmit i).ps i =
      PowerSave.stopStaXmit (x.servq (i, .mgmt)).staPending (acPending x i) (x.ps i) := by
  have hmgmt : ActsOn x.addr i mgmtEnqueueForSleepingSta
      PowerSave.mgmtXmitframeEnqueueForSleepingSta fun f => f.psta = i := by
    rintro y f - hf
    have hlt : f.psta < n := hf ▸ i.isLt
    have hslot : (⟨f.psta, hlt⟩ : Fin n) = i := Fin.ext hf
    rw [mgmtEnqueueForSleepingSta, dif_pos hlt]
    dsimp only
    rw [hslot]
  have hown : ActsOn x.addr i enqueueForSleepingSta PowerSave.xmitframeEnqueueForSleepingSta
      fun f => x.addr i = some f.ra ∧ f.psta = i := by
    rintro y f hy ⟨haddr, hpsta⟩
    have hgroup : ¬f.ra = .group := fun he => hi (by rw [haddr, he])
    rw [← hy] at haddr
    have heq := XmitSched.Xmit.enqueueForSleepingSta_eq (f := { f with triggered := false })
      (hy ▸ h.inj) haddr hpsta
    dsimp only at heq
    rwa [if_neg hgroup] at heq
  unfold XmitSched.Xmit.stopStaXmit PowerSave.stopStaXmit
  dsimp only
  generalize hdoze : x.setPs i { x.ps i with sleep := true, dz := true } = x1
  have haddr1 : x1.addr = x.addr := hdoze ▸ rfl
  have hservq1 : x1.servq = x.servq := hdoze ▸ rfl
  have hps1 : x1.ps i = { x.ps i with sleep := true, dz := true } := by
    rw [← hdoze]
    exact Function.update_self _ _ _
  rw [← haddr1] at hmgmt
  obtain ⟨hps2, haddr2, hpend2⟩ := dequeueToSleepq_ps hmgmt (fun _ => .mgmt) (h := .mgmt)
    (by rw [hservq1]; exact fun f hf => (h.owned (i, .mgmt) f hf).psta)
  generalize x1.dequeueToSleepq mgmtEnqueueForSleepingSta (fun _ => .mgmt) (i, .mgmt) = x2 at *
  have hac2 : ∀ j, acPending x2 j = acPending x j := by
    refine fun j => List.flatMap_congr fun a _ => ?_
    rw [hpend2 _ (by simp), hservq1]
  rw [← haddr1, ← haddr2] at hown
  obtain ⟨hps3, haddr3, hpend3⟩ := stopAcs_ps hown (by
    rw [hac2, haddr2, haddr1]
    exact fun f hf => owned_of_acPending h hf)
  generalize x2.stopAcs i = x3 at *
  have hlast : x3.ps i = (PowerSave.dequeueToSleepq PowerSave.xmitframeEnqueueForSleepingSta
      (acPending x i) (PowerSave.dequeueToSleepq PowerSave.mgmtXmitframeEnqueueForSleepingSta
        (x.servq (i, .mgmt)).staPending { x.ps i with sleep := true, dz := true }).2).2 := by
    rw [hps3, hac2, hps2, hps1, hservq1]
  rw [← hlast]
  cases hgroup : x3.rtwGetStainfo .group with
  | none => rfl
  | some b =>
    have hb : x.addr b = some .group := by
      rw [← haddr1, ← haddr2, ← haddr3]
      exact XmitSched.Xmit.addr_of_rtwGetStainfo hgroup
    have hne : b ≠ i := by
      rintro rfl
      exact hi hb
    refine stopAcs_spares hne fun f hf => (owned_of_acPending h ?_).2
    rw [← hac2]
    have hac3 : acPending x3 b = acPending x2 b :=
      List.flatMap_congr fun a _ => hpend3 _ hne
    rwa [← hac3]

end SleepQueues

end Rtl8821cu.Agree
