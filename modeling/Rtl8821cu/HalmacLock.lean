import Rtl8821cu.HalmacOfld

/-! Offload commands do not lock themselves out: a feature waits only for the acknowledgement of a
command that was sent. A page download or an allocation that fails after `SENDING` was entered is
what breaks it. -/
namespace Rtl8821cu.Halmac
open Run

/-- A command of the feature that asks for an acknowledgement, or is an NLO command, was sent, and
its acknowledgement has not come. -/
def Adapter.Outstanding (s : Adapter) (f : Feature) : Prop :=
  ∃ post ack nlo cmd pre, s.log = post ++ .h2c f (s.seqNum f) ack nlo cmd :: pre ∧
    (ack = true ∨ nlo = true) ∧ Log.acked f (s.seqNum f) ∉ post

/-- What holds after a call: `SENDING` only with a command outstanding, and no construction state
left at `H2C_SENT` by a call that failed. -/
def Unlocked (r : Adapter × Ret) : Prop :=
  (∀ f, r.1.proc f = .sending → r.1.Outstanding f) ∧
    (r.2.accepted = false → r.1.scanCnstr ≠ .h2cSent ∧ r.1.cfgCnstr ≠ .h2cSent)

/-- The buffer that a parameter goes to: the one there is, or a fresh one. -/
def paramInfo (cfg : Cfg) (env : Env) (s : Adapter) (fullFifo : BitVec 8) : Option CfgParamInfo :=
  if s.param.buf.isSome then some s.param
  else (smartMalloc env.mallocs (cfgParamBufSize cfg fullFifo)).map fun size =>
    CfgParamInfo.fresh size fullFifo env.mem

/-- A parameter makes its batch complete: it ends one with records in it, or leaves no room for
another record. -/
def CompletesBatch (cfg : Cfg) (env : Env) (s : Adapter) (param : Param) (fullFifo : BitVec 8) :
    Prop :=
  ∃ info, paramInfo cfg env s fullFifo = some info ∧
    if param.cmd = .finish then info.num ≠ 0
    else ¬ (BitVec.ofNat 32 cfgParamH2cInfoSize < info.next.avlBufSize - txdescSize)

/-- A command that gets to its page download has something to download, and it succeeds; one that
gets to the allocation of the scan report's buffer gets the memory. -/
def DownloadsWork (cfg : Cfg) (s : Adapter) : Ev → Prop
  | .updatePacket env _ pkt =>
    cfg.fwValidate = true → 4 ≤ cfg.h2cVersion → pkt.length ≤ updatePktRsvdpgSize →
      s.proc .updatePkt ≠ .sending → pkt ≠ [] ∧ env.dl = true
  | .sendScanPacket env _ pkt =>
    cfg.fwValidate = true → 13 ≤ cfg.h2cVersion → pkt.length ≤ updatePktRsvdpgSize →
      s.proc .scanPkt ≠ .sending → pkt ≠ [] ∧ env.dl = true
  | .cfgParameter env param fullFifo =>
    cfg.fwValidate = true → 4 ≤ cfg.h2cVersion → s.proc .cfgParam ≠ .sending →
      CompletesBatch cfg env s param fullFifo → env.dl = true
  | .ctrlChSwitch env opt =>
    cfg.fwValidate = true → 4 ≤ cfg.h2cVersion →
      s.chSw.totalSize + s.usedPage.toNat * 128 ≤ cfg.rsvdPgNum * 128 →
      (opt.switchEn = 0 ∨ s.proc .scan ≠ .sending ∧ s.proc .scan ≠ .rcvd) →
      s.scanCnstr = (if opt.switchEn = 1 then .cnstr else .bufClr) →
        (opt.switchEn ≠ 0 → s.chSw.list ≠ [] ∧ env.dl = true) ∧
          (opt.scanModeEn = 1 → s.scanRptBuf = true ∨ env.malloc = true)
  | _ => True

/-- Every feature but `f` that waits has a command outstanding. -/
def AwaitsBut (f : Feature) (s : Adapter) : Prop :=
  ∀ g, g ≠ f → s.proc g = .sending → s.Outstanding g

/-- Every feature that waits has a command outstanding. -/
def Awaits (s : Adapter) : Prop := ∀ f, s.proc f = .sending → s.Outstanding f

section Steps

variable {s t : Adapter} {f : Feature} {env : Env}

theorem Adapter.Outstanding.congr {g : Feature} (h : s.Outstanding g) (hseq : t.seqNum g = s.seqNum g)
    {l : List Log} (hlog : t.log = l ++ s.log) (hack : Log.acked g (s.seqNum g) ∉ l) :
    t.Outstanding g := by
  obtain ⟨post, ack, nlo, cmd, pre, hs, hask, hpost⟩ := h
  refine ⟨l ++ post, ack, nlo, cmd, pre, by rw [hlog, hs, hseq, List.append_assoc], hask, ?_⟩
  rw [hseq, List.mem_append, not_or]
  exact ⟨hack, hpost⟩

theorem Awaits.but (h : Awaits s) (f : Feature) : AwaitsBut f s := fun g _ hg => h g hg

theorem Awaits.congr (h : Awaits s) (hproc : t.proc = s.proc) (hseq : t.seqNum = s.seqNum)
    (hlog : t.log = s.log) : Awaits t := by
  intro g hg
  rw [hproc] at hg
  exact (h g hg).congr (by rw [hseq]) (l := []) hlog (by simp)

theorem AwaitsBut.congr (h : AwaitsBut f s) (hproc : t.proc = s.proc) (hseq : t.seqNum = s.seqNum)
    (hlog : t.log = s.log) : AwaitsBut f t := by
  intro g hgf hg
  rw [hproc] at hg
  exact (h g hgf hg).congr (by rw [hseq]) (l := []) hlog (by simp)

theorem AwaitsBut.setProc (h : AwaitsBut f s) (p : ProcStatus) : AwaitsBut f (s.setProc f p) := by
  intro g hgf hg
  rw [Adapter.setProc_proc_ne s hgf] at hg
  exact (h g hgf hg).congr rfl (l := []) rfl (by simp)

theorem AwaitsBut.awaits (h : AwaitsBut f s) {p : ProcStatus} (hp : p ≠ .sending) :
    Awaits (s.setProc f p) := by
  intro g hg
  by_cases hgf : g = f
  · subst hgf
    rw [Adapter.setProc_proc_self] at hg
    exact absurd hg hp
  · exact h.setProc p g hgf hg

theorem AwaitsBut.page (h : AwaitsBut f s) (g : Feature) (addr : BitVec 16)
    (data : List (BitVec 8)) : AwaitsBut f { s with log := .page g addr data :: s.log } := by
  intro k hkf hk
  exact (h k hkf hk).congr rfl (l := [_]) rfl (by simp)

theorem AwaitsBut.resetOfldFeature (h : AwaitsBut f s) : Awaits (s.resetOfldFeature f) :=
  (h.awaits (p := .idle) (by decide)).congr rfl rfl rfl

/-- After a transmission the feature waits only for the command that was sent. -/
theorem AwaitsBut.sendH2c (h : AwaitsBut f s) (env : Env) {ack nlo : Bool} (hask : ack = true ∨ nlo = true)
    (cmd : H2cCmd) : Awaits (s.sendH2c env f ack nlo cmd).1 := by
  have hseq : AwaitsBut f
      { s with h2cSeq := s.h2cSeq + 1, seqNum := Function.update s.seqNum f s.h2cSeq } := by
    intro g hgf hg
    exact (h g hgf hg).congr (Function.update_of_ne hgf _ _) (l := []) rfl (by simp)
  unfold Adapter.sendH2c
  dsimp only
  split
  · exact hseq.resetOfldFeature
  · intro g hg
    by_cases hgf : g = f
    · subst hgf
      exact ⟨[], ack, nlo, cmd, s.log, by simp, hask, by simp⟩
    · exact (hseq g hgf hg).congr rfl (l := [_]) rfl (by simp)

/-- The construction states after a transmission: as before, or reset. -/
theorem sendH2c_cnstr (s : Adapter) (env : Env) (f : Feature) (ack nlo : Bool) (cmd : H2cCmd) :
    ((s.sendH2c env f ack nlo cmd).1.cfgCnstr = s.cfgCnstr ∨
        (s.sendH2c env f ack nlo cmd).1.cfgCnstr = .idle) ∧
      ((s.sendH2c env f ack nlo cmd).1.scanCnstr = s.scanCnstr ∨
        (s.sendH2c env f ack nlo cmd).1.scanCnstr = .idle) := by
  unfold Adapter.sendH2c
  dsimp only
  split
  · cases f <;> simp [Adapter.resetOfldFeature, Adapter.setProc]
  · simp

/-- A download with something to download that succeeds. -/
theorem dlRsvdPage_success (s : Adapter) (f : Feature) (addr : BitVec 16)
    {data : List (BitVec 8)} (hdata : data ≠ []) (hdl : env.dl = true) :
    s.dlRsvdPage env f addr data = ({ s with log := .page f addr data :: s.log }, .success) := by
  simp [Adapter.dlRsvdPage, hdata, hdl]

end Steps

/-- Nothing is locked between two calls. -/
structure Inv (s : Adapter) : Prop where
  awaits : Awaits s
  cfg : s.cfgCnstr ≠ .h2cSent
  scan : s.scanCnstr ≠ .h2cSent

theorem Inv.unlocked {r : Adapter × Ret} (h : Inv r.1) : Unlocked r :=
  ⟨h.awaits, fun _ => ⟨h.scan, h.cfg⟩⟩

section Calls

variable {cfg : Cfg} {s : Adapter} {env : Env}

/-- A command that changes no construction state: what it sends is what its feature waits for. -/
theorem Inv.send (h : Inv s) (env : Env) (f : Feature) {ack nlo : Bool} (hask : ack = true ∨ nlo = true)
    (cmd : H2cCmd) {t : Adapter} (hbut : AwaitsBut f t) (hcfg : t.cfgCnstr = s.cfgCnstr)
    (hscan : t.scanCnstr = s.scanCnstr) : Inv (t.sendH2c env f ack nlo cmd).1 := by
  obtain ⟨hc, hn⟩ := sendH2c_cnstr t env f ack nlo cmd
  refine ⟨hbut.sendH2c env hask cmd, ?_, ?_⟩
  · rcases hc with hc | hc
    · rw [hc, hcfg]
      exact h.cfg
    · simp [hc]
  · rcases hn with hn | hn
    · rw [hn, hscan]
      exact h.scan
    · simp [hn]

theorem Inv.updatePacket (h : Inv s) (pktId : BitVec 32) (pkt : List (BitVec 8))
    (hok : DownloadsWork cfg s (.updatePacket env pktId pkt)) :
    Inv (updatePacket cfg env s pktId pkt).1 := by
  unfold Halmac.updatePacket
  split
  · exact h
  split
  · exact h
  split
  · exact h
  split
  · exact h
  rename_i hfw hver hlen hproc
  obtain ⟨hne, hdl⟩ := hok (by simpa using hfw) (by omega) (by omega) (by simpa using hproc)
  dsimp only
  rw [dlRsvdPage_success _ _ _ hne hdl]
  dsimp only
  have hbut := ((h.awaits.but .updatePkt).setProc .sending).page .updatePkt cfg.rsvdH2cInfoAddr pkt
  have hask : (!packetInNlo pktId) = true ∨ packetInNlo pktId = true := by
    cases packetInNlo pktId <;> simp
  have hsend := h.send env .updatePkt hask
    (.updatePkt (BitVec.ofNat 16 (pkt.length + txdescSize.toNat))
        ((getRealPktId pktId).setWidth 8) (pgLoc cfg cfg.rsvdH2cInfoAddr)) hbut rfl rfl
  generalize Adapter.sendH2c _ env .updatePkt _ _ _ = r at hsend ⊢
  split
  · split
    · exact ⟨((hsend.awaits.congr rfl rfl rfl).but .updatePkt).awaits (by decide) |>.congr rfl rfl rfl,
        hsend.cfg, hsend.scan⟩
    · exact ⟨hsend.awaits.congr rfl rfl rfl, hsend.cfg, hsend.scan⟩
  · exact hsend

theorem Inv.sendScanPacket (h : Inv s) (index : BitVec 8) (pkt : List (BitVec 8))
    (hok : DownloadsWork cfg s (.sendScanPacket env index pkt)) :
    Inv (sendScanPacket cfg env s index pkt).1 := by
  unfold Halmac.sendScanPacket
  split
  · exact h
  split
  · exact h
  split
  · exact h
  split
  · exact h
  rename_i hfw hver hlen hproc
  obtain ⟨hne, hdl⟩ := hok (by simpa using hfw) (by omega) (by omega) (by simpa using hproc)
  dsimp only
  rw [dlRsvdPage_success _ _ _ hne hdl]
  exact h.send env .scanPkt (Or.inl rfl) _
    (((h.awaits.but .scanPkt).setProc .sending).page .scanPkt cfg.rsvdH2cInfoAddr pkt) rfl rfl

theorem Inv.dropScanPacket (h : Inv s) (option : DropPktOption) :
    Inv (dropScanPacket cfg env s option).1 := by
  unfold Halmac.dropScanPacket
  split
  · exact h
  split
  · exact h
  split
  · exact h
  exact h.send env .dropPkt (Or.inl rfl) _ ((h.awaits.but .dropPkt).setProc .sending) rfl rfl

theorem Inv.getH2cAck (h : Inv s) (f : Feature) (seq rc : BitVec 8) (oa va : BitVec 32) :
    Inv (getH2cAck s f seq rc oa va).1 := by
  have hother : AwaitsBut f { s with log := .acked f seq :: s.log } := by
    intro g hgf hg
    exact (h.awaits g hg).congr rfl (l := [_]) rfl (by simp [hgf])
  unfold Halmac.getH2cAck
  dsimp only
  split
  · rename_i hseq
    have hne : seq ≠ s.seqNum f := by simpa using hseq
    refine ⟨fun g hg => ?_, h.cfg, h.scan⟩
    by_cases hgf : g = f
    · subst hgf
      exact (h.awaits g hg).congr rfl (l := [_]) rfl (by simpa using fun heq => hne heq.symm)
    · exact hother g hgf hg
  · split
    · rename_i hproc
      refine ⟨fun g hg => ?_, h.cfg, h.scan⟩
      by_cases hgf : g = f
      · subst hgf
        exact absurd hg (by simpa using hproc)
      · exact hother g hgf hg
    · refine ⟨hother.awaits ?_, h.cfg, h.scan⟩
      split
      · split <;> decide
      · decide

theorem Inv.getScanRpt (h : Inv s) (rc : BitVec 8) : Inv (getScanRpt s rc).1 := by
  refine ⟨(h.awaits.but .scan).awaits ?_, h.cfg, h.scan⟩
  split <;> decide

theorem cnvScanState_eq {state dest d : CnstrState} (h : cnvScanState state dest = some d) :
    d = dest := by
  unfold cnvScanState at h
  split_ifs at h
  simpa using h.symm

/-- A step of the list of channels leaves what the features wait for. -/
theorem Inv.setScan (h : Inv s) {state dest : CnstrState} (hcnv : cnvScanState s.scanCnstr dest = some state)
    (hdest : dest ≠ .h2cSent) (c : ChSwInfo) :
    Inv { s with scanCnstr := state, chSw := c } :=
  ⟨h.awaits.congr rfl rfl rfl, h.cfg, by
    rw [cnvScanState_eq hcnv]
    exact hdest⟩

theorem Inv.clearChInfo (h : Inv s) : Inv (clearChInfo s).1 := by
  unfold Halmac.clearChInfo
  split
  · exact h
  · split
    · exact h
    · rename_i hcnv
      exact h.setScan hcnv (by decide) _

theorem Inv.addChInfoBuf (h : Inv s) (buf : ℕ → BitVec 8) (info : ChInfo) :
    Inv (addChInfoBuf s buf info).1 := by
  unfold Halmac.addChInfoBuf
  split
  · exact h
  · split
    · exact h
    · split
      · exact h
      · rename_i hcnv
        exact h.setScan hcnv (by decide) _

theorem Inv.addChInfo (h : Inv s) (info : ChInfo) : Inv (addChInfo cfg env s info).1 := by
  unfold Halmac.addChInfo
  split
  · exact h
  · split
    · exact h
    · split
      · exact h.addChInfoBuf _ info
      · split
        · exact h
        · have hfresh : Inv { s with chSw := s.chSw.fresh env.mem } :=
            ⟨h.awaits.congr rfl rfl rfl, h.cfg, h.scan⟩
          exact hfresh.addChInfoBuf _ info

theorem Inv.addExtraChInfo (h : Inv s) (info : ChExtraInfo) : Inv (addExtraChInfo s info).1 := by
  unfold Halmac.addExtraChInfo
  split
  · exact h
  · split
    · exact h
    · split
      · exact h
      · split
        · exact h
        · split
          · exact h
          · rename_i hcnv
            exact h.setScan hcnv (by decide) _

/-- The end of a channel switch, with the construction state at `H2C_SENT`. -/
theorem sendChSwitch_inv (h : AwaitsBut .scan s) (hcfg : s.cfgCnstr ≠ .h2cSent)
    (hscan : s.scanCnstr = .h2cSent) (opt : ChSwitchOption) (pgAddr : BitVec 16) :
    Inv (sendChSwitch cfg env s opt pgAddr).1 := by
  have hask : (!(opt.nloEn == 1)) = true ∨ (opt.nloEn == 1) = true := by
    cases opt.nloEn == 1 <;> simp
  have hawaits := h.sendH2c env hask
    (.chSwitch opt (BitVec.ofNat 8 s.chSw.chNum) (pgLoc cfg pgAddr)
      (BitVec.ofNat 16 s.chSw.totalSize))
  obtain ⟨hc, hn⟩ := sendH2c_cnstr s env .scan (!(opt.nloEn == 1)) (opt.nloEn == 1)
    (.chSwitch opt (BitVec.ofNat 8 s.chSw.chNum) (pgLoc cfg pgAddr)
      (BitVec.ofNat 16 s.chSw.totalSize))
  unfold sendChSwitch
  dsimp only
  generalize Adapter.sendH2c s env .scan _ _ _ = r at hawaits hc hn ⊢
  have hidle : cnvScanState r.1.scanCnstr .idle = some .idle := by
    rcases hn with hn | hn
    · rw [hn, hscan]
      rfl
    · rw [hn]
      rfl
  have hcfg' : r.1.cfgCnstr ≠ .h2cSent := by
    rcases hc with hc | hc
    · rwa [hc]
    · simp [hc]
  rw [hidle]
  exact ⟨hawaits.congr rfl rfl rfl, hcfg', by simp⟩

theorem scanRptAndSend_inv (h : AwaitsBut .scan s) (hcfg : s.cfgCnstr ≠ .h2cSent)
    (hscan : s.scanCnstr = .h2cSent) (opt : ChSwitchOption) (pgAddr : BitVec 16)
    (hmem : opt.scanModeEn = 1 → s.scanRptBuf = true ∨ env.malloc = true) :
    Inv (scanRptAndSend cfg env s opt pgAddr).1 := by
  unfold scanRptAndSend
  dsimp only
  split
  · rename_i hmode
    have hgot := hmem (by simpa using hmode)
    split
    · rename_i hno
      simp only [Bool.and_eq_true, Bool.not_eq_true'] at hno
      rcases hgot with hgot | hgot
      · simp [hgot] at hno
      · simp [hgot] at hno
    · refine sendChSwitch_inv ?_ ?_ ?_ opt pgAddr
      · exact h.congr rfl rfl rfl
      · exact hcfg
      · exact hscan
  · refine sendChSwitch_inv ?_ ?_ ?_ opt pgAddr
    · exact h.congr rfl rfl rfl
    · exact hcfg
    · exact hscan

theorem Inv.procCtrlChSwitch (h : Inv s) (opt : ChSwitchOption)
    (hdl : opt.switchEn ≠ 0 → s.chSw.list ≠ [] ∧ env.dl = true)
    (hmem : opt.scanModeEn = 1 → s.scanRptBuf = true ∨ env.malloc = true) :
    Inv (procCtrlChSwitch cfg env s opt).1 := by
  unfold Halmac.procCtrlChSwitch
  split
  · exact h
  rename_i state hcnv
  have hstate := cnvScanState_eq hcnv
  have hbut : AwaitsBut .scan (({ s with scanCnstr := state } : Adapter).setProc .scan .sending) :=
    ((h.awaits.but .scan).congr rfl rfl rfl).setProc .sending
  obtain ⟨t, ht⟩ : ∃ t, t = ({ s with scanCnstr := state } : Adapter).setProc .scan .sending :=
    ⟨_, rfl⟩
  have hcfg : t.cfgCnstr ≠ .h2cSent := by
    rw [ht]
    exact h.cfg
  have hscan : t.scanCnstr = .h2cSent := by
    rw [ht]
    exact hstate
  have hlist : t.chSw.list = s.chSw.list := by
    rw [ht]
    rfl
  have hrpt : t.scanRptBuf = s.scanRptBuf := by
    rw [ht]
    rfl
  rw [← hrpt] at hmem
  rw [← ht] at hbut
  dsimp only
  rw [← ht]
  split
  · exact scanRptAndSend_inv hbut hcfg hscan opt _ hmem
  · rename_i hen
    obtain ⟨hne, hok⟩ := hdl (by simpa using hen)
    rw [dlRsvdPage_success _ _ _ (hlist ▸ hne) hok]
    refine scanRptAndSend_inv ?_ ?_ ?_ opt _ ?_
    · exact (hbut.page .scan _ _).congr rfl rfl rfl
    · exact hcfg
    · exact hscan
    · exact hmem

theorem Inv.ctrlChSwitch (h : Inv s) (opt : ChSwitchOption)
    (hok : DownloadsWork cfg s (.ctrlChSwitch env opt)) :
    Inv (ctrlChSwitch cfg env s opt).1 := by
  unfold Halmac.ctrlChSwitch
  split
  · exact h
  split
  · exact h
  split
  · exact h
  rename_i hfw hver hroom
  have hok' := hok (by simpa using hfw) (by omega) (by omega)
  simp only [beq_iff_eq]
  generalize (if opt.switchEn = 1 then CnstrState.cnstr else .bufClr) = want at hok' ⊢
  by_cases hen : opt.switchEn = 0
  · have hidle : Inv (s.setProc .scan .idle) :=
      ⟨(h.awaits.but .scan).awaits (by decide), h.cfg, h.scan⟩
    rw [if_pos hen, Adapter.setProc_proc_self, if_neg (by decide)]
    split
    · exact hidle
    · rename_i hstate
      obtain ⟨hdl, hmem⟩ := hok' (Or.inl hen) (by simpa [Adapter.setProc] using hstate)
      exact hidle.procCtrlChSwitch opt hdl hmem
  · rw [if_neg hen]
    split
    · exact h
    · rename_i hproc
      split
      · exact h
      · rename_i hstate
        simp only [Bool.or_eq_true, beq_iff_eq, not_or] at hproc
        obtain ⟨hdl, hmem⟩ := hok' (Or.inr hproc) (by simpa using hstate)
        exact h.procCtrlChSwitch opt hdl hmem

/-- What the features wait for does not depend on the buffer of the parameters. -/
theorem Inv.setParam (h : Inv s) (info : CfgParamInfo) : Inv { s with param := info } :=
  ⟨h.awaits.congr rfl rfl rfl, h.cfg, h.scan⟩

theorem mallocCfgParamBuf_eq (cfg : Cfg) (env : Env) (s : Adapter) (fullFifo : BitVec 8) :
    mallocCfgParamBuf cfg env s fullFifo =
      match paramInfo cfg env s fullFifo with
      | some info => ({ s with param := info }, .success)
      | none =>
        ({ s with param := { s.param with bufSize := cfgParamBufSize cfg fullFifo } },
          .mallocFail) := by
  unfold mallocCfgParamBuf paramInfo
  split
  · rfl
  · cases smartMalloc env.mallocs (cfgParamBufSize cfg fullFifo) <;> rfl

theorem paramInfo_buf {fullFifo : BitVec 8} {info : CfgParamInfo}
    (h : paramInfo cfg env s fullFifo = some info) : info.buf.isSome = true := by
  unfold paramInfo at h
  split at h
  · rename_i hsome
    obtain rfl := Option.some.inj h
    exact hsome
  · obtain ⟨size, -, rfl⟩ := Option.map_eq_some_iff.1 h
    rfl

/-- The record of a parameter changes neither the counters of the buffer nor anything else that the
commands decide by. -/
structure SameButRecord (s t : Adapter) : Prop where
  proc : t.proc = s.proc
  seqNum : t.seqNum = s.seqNum
  log : t.log = s.log
  cfgCnstr : t.cfgCnstr = s.cfgCnstr
  scanCnstr : t.scanCnstr = s.scanCnstr
  num : t.param.num = s.param.num
  avlBufSize : t.param.avlBufSize = s.param.avlBufSize
  buf : t.param.buf.isSome = s.param.buf.isSome

theorem addParamBuf_same (s : Adapter) (param : Param) : SameButRecord s (addParamBuf s param) := by
  unfold addParamBuf
  cases hbuf : s.param.buf with
  | none => exact ⟨rfl, rfl, rfl, rfl, rfl, rfl, rfl, rfl⟩
  | some buf => exact ⟨rfl, rfl, rfl, rfl, rfl, rfl, rfl, by simp [hbuf]⟩

theorem SameButRecord.inv {t : Adapter} (hsame : SameButRecord s t) (h : Inv s) : Inv t :=
  ⟨h.awaits.congr hsame.proc hsame.seqNum hsame.log, hsame.cfgCnstr ▸ h.cfg,
    hsame.scanCnstr ▸ h.scan⟩

theorem cfgParamH2cEnd_inv (h : Awaits s) (hcfg : s.cfgCnstr = .h2cSent ∨ s.cfgCnstr = .idle)
    (hscan : s.scanCnstr ≠ .h2cSent) (status : Ret) : Inv (cfgParamH2cEnd s status).1 := by
  have hidle : cnvCfgParamState s.cfgCnstr .idle = some .idle := by
    rcases hcfg with hcfg | hcfg <;> rw [hcfg] <;> rfl
  simp only [cfgParamH2cEnd, hidle]
  exact ⟨h.congr rfl rfl rfl, by simp, hscan⟩

/-- A complete batch that is downloaded: what is sent is what the feature waits for. -/
theorem Inv.sendCfgParamH2c (h : Inv s) (cfg : Cfg) (hcnstr : s.cfgCnstr = .cnstr)
    (hrec : s.param.records ≠ []) (hdl : env.dl = true) :
    Inv (sendCfgParamH2c cfg env s).1 := by
  have hcnv : cnvCfgParamState s.cfgCnstr .h2cSent = some .h2cSent := by
    rw [hcnstr]
    rfl
  simp only [Halmac.sendCfgParamH2c, hcnv]
  have hbut : AwaitsBut .cfgParam
      (({ s with cfgCnstr := .h2cSent } : Adapter).setProc .cfgParam .sending) :=
    ((h.awaits.but .cfgParam).congr rfl rfl rfl).setProc .sending
  obtain ⟨t, ht⟩ : ∃ t, t =
      ({ s with cfgCnstr := .h2cSent } : Adapter).setProc .cfgParam .sending := ⟨_, rfl⟩
  have hcfg : t.cfgCnstr = .h2cSent := by
    rw [ht]
    rfl
  have hscan : t.scanCnstr ≠ .h2cSent := by
    rw [ht]
    exact h.scan
  have hparam : t.param.records ≠ [] := by
    rw [ht]
    exact hrec
  rw [← ht] at hbut ⊢
  rw [dlRsvdPage_success _ _ _ hparam hdl]
  dsimp only
  have hask : true = true ∨ false = true := Or.inl rfl
  have hsent := (hbut.page .cfgParam (if t.param.fullFifoMode then 0 else cfg.rsvdH2cInfoAddr)
    t.param.records).sendH2c env hask (genCfgParamH2c cfg t.param)
  obtain ⟨hc, hn⟩ := sendH2c_cnstr
    { t with
      log := .page .cfgParam (if t.param.fullFifoMode then 0 else cfg.rsvdH2cInfoAddr)
        t.param.records :: t.log } env .cfgParam true false (genCfgParamH2c cfg t.param)
  refine cfgParamH2cEnd_inv hsent ?_ ?_ _
  · rcases hc with hc | hc
    · exact Or.inl (hc.trans hcfg)
    · exact Or.inr hc
  · rcases hn with hn | hn
    · rw [hn]
      exact hscan
    · rw [hn]
      decide

theorem CfgParamInfo.records_ne_nil {info : CfgParamInfo} (hbuf : info.buf.isSome = true)
    (hnum : info.num ≠ 0) : info.records ≠ [] := by
  obtain ⟨buf, hb⟩ := Option.isSome_iff_exists.1 hbuf
  rw [CfgParamInfo.records, hb]
  intro hnil
  have hlen := congrArg List.length hnil
  simp only [Store.length_load, cfgParamH2cInfoSize, List.length_nil] at hlen
  omega

/-- The adapter after a parameter has gone into the buffer. -/
def withParam (s : Adapter) (info : CfgParamInfo) (param : Param) : Adapter :=
  let t := addParamBuf { s with param := info, cfgCnstr := .cnstr } param
  if param.cmd == .finish then t else { t with param := t.param.next }

theorem withParam_inv (h : Inv s) (info : CfgParamInfo) (param : Param) :
    Inv (withParam s info param) := by
  have hbase : Inv { s with param := info, cfgCnstr := .cnstr } :=
    ⟨h.awaits.congr rfl rfl rfl, by simp, h.scan⟩
  have hadd := (addParamBuf_same { s with param := info, cfgCnstr := .cnstr } param).inv hbase
  unfold withParam
  split
  · exact hadd
  · exact hadd.setParam _

theorem withParam_cfgCnstr (s : Adapter) (info : CfgParamInfo) (param : Param) :
    (withParam s info param).cfgCnstr = .cnstr := by
  have hadd := addParamBuf_same { s with param := info, cfgCnstr := .cnstr } param
  unfold withParam
  split <;> exact hadd.cfgCnstr

theorem withParam_buf (s : Adapter) {info : CfgParamInfo} (hbuf : info.buf.isSome = true)
    (param : Param) : (withParam s info param).param.buf.isSome = true := by
  have hadd := addParamBuf_same { s with param := info, cfgCnstr := .cnstr } param
  unfold withParam
  split <;> exact hadd.buf.trans hbuf

theorem withParam_num (s : Adapter) (info : CfgParamInfo) {param : Param}
    (h : param.cmd = .finish) : (withParam s info param).param.num = info.num := by
  have hadd := addParamBuf_same { s with param := info, cfgCnstr := .cnstr } param
  simp [withParam, h, hadd.num]

theorem withParam_avl (s : Adapter) (info : CfgParamInfo) {param : Param}
    (h : param.cmd ≠ .finish) :
    (withParam s info param).param.avlBufSize = info.next.avlBufSize := by
  have hadd := addParamBuf_same { s with param := info, cfgCnstr := .cnstr } param
  simp [withParam, h, hadd.avlBufSize, CfgParamInfo.next]

theorem procCfgParam_eq {info : CfgParamInfo} {fullFifo : BitVec 8}
    (hinfo : paramInfo cfg env s fullFifo = some info)
    (hcnstr : s.cfgCnstr = .idle ∨ s.cfgCnstr = .cnstr) (param : Param) :
    procCfgParam cfg env s param fullFifo =
      if BitVec.ofNat 32 cfgParamH2cInfoSize <
          (withParam s info param).param.avlBufSize - txdescSize && !(param.cmd == .finish) then
        (withParam s info param, .success)
      else if (withParam s info param).param.num == 0 then
        ((({ withParam s info param with param := (withParam s info param).param.free }
          : Adapter).setProc .cfgParam .done).resetOfldFeature .cfgParam, .success)
      else
        match sendCfgParamH2c cfg env (withParam s info param) with
        | (s, .success) => (s, if param.cmd == .finish then .success else .paraSending)
        | (s, status) => ({ s with param := s.param.free }, status) := by
  have hcnv : cnvCfgParamState s.cfgCnstr .cnstr = some .cnstr := by
    rcases hcnstr with hcnstr | hcnstr <;> rw [hcnstr] <;> rfl
  simp only [procCfgParam, mallocCfgParamBuf_eq, hinfo, hcnv]
  rfl

theorem Inv.procCfgParam (h : Inv s) (hcnstr : s.cfgCnstr = .idle ∨ s.cfgCnstr = .cnstr)
    (param : Param) (fullFifo : BitVec 8)
    (hdl : CompletesBatch cfg env s param fullFifo → env.dl = true) :
    Inv (procCfgParam cfg env s param fullFifo).1 := by
  cases hinfo : paramInfo cfg env s fullFifo with
  | none =>
    simp only [Halmac.procCfgParam, mallocCfgParamBuf_eq, hinfo]
    exact h.setParam _
  | some info =>
    rw [procCfgParam_eq hinfo hcnstr]
    have hinv := withParam_inv h info param
    split
    · exact hinv
    · rename_i hfull
      split
      · exact ⟨((hinv.setParam _).awaits.but .cfgParam).setProc .done |>.resetOfldFeature, by
          simp [Adapter.resetOfldFeature], hinv.scan⟩
      · rename_i hnum
        have hcomplete : CompletesBatch cfg env s param fullFifo := by
          refine ⟨info, hinfo, ?_⟩
          split
          · rename_i hend
            rw [← withParam_num s info hend]
            simpa using hnum
          · rename_i hend
            rw [← withParam_avl s info hend]
            simpa [hend] using hfull
        have hsend := hinv.sendCfgParamH2c cfg (withParam_cfgCnstr s info param)
          (CfgParamInfo.records_ne_nil (withParam_buf s (paramInfo_buf hinfo) param)
            (by simpa using hnum)) (hdl hcomplete)
        generalize Halmac.sendCfgParamH2c cfg env (withParam s info param) = r at hsend ⊢
        split
        · exact hsend
        · exact hsend.setParam _

theorem Inv.cfgParameter (h : Inv s) (param : Param) (fullFifo : BitVec 8)
    (hok : DownloadsWork cfg s (.cfgParameter env param fullFifo)) :
    Inv (cfgParameter cfg env s param fullFifo).1 := by
  unfold Halmac.cfgParameter
  split
  · exact h
  split
  · exact h
  split
  · exact h
  split
  · exact h
  rename_i hfw hver hproc hcnstr
  have hidle : Inv (s.setProc .cfgParam .idle) :=
    ⟨(h.awaits.but .cfgParam).awaits (by decide), h.cfg, h.scan⟩
  refine hidle.procCfgParam ?_ param fullFifo fun hcomplete => ?_
  · simpa [Adapter.setProc, or_iff_not_imp_left] using hcnstr
  · exact hok (by simpa using hfw) (by omega) (by simpa using hproc) hcomplete

theorem Inv.handle (h : Inv s) (ev : Ev) (hok : DownloadsWork cfg s ev) :
    Inv (handle cfg s ev).1 := by
  cases ev with
  | updatePacket env pktId pkt => exact h.updatePacket pktId pkt hok
  | sendScanPacket env index pkt => exact h.sendScanPacket index pkt hok
  | dropScanPacket env option => exact h.dropScanPacket option
  | cfgParameter env param fullFifo => exact h.cfgParameter param fullFifo hok
  | clearChInfo => exact h.clearChInfo
  | addChInfo env info => exact h.addChInfo info
  | addExtraChInfo info => exact h.addExtraChInfo info
  | ctrlChSwitch env opt => exact h.ctrlChSwitch opt hok
  | h2cAck f seq rc oa va => exact h.getH2cAck f seq rc oa va
  | scanRpt rc => exact h.getScanRpt rc

end Calls

/-- In any run in which no page download fails and no scan report's buffer is refused, nothing is
locked after any call. -/
theorem offload_unlocked (cfg : Cfg) (s : Adapter) (es : List Ev)
    (hidle : ∀ f, s.proc f ≠ .sending) (hcfg : s.cfgCnstr ≠ .h2cSent)
    (hscan : s.scanCnstr ≠ .h2cSent) (hok : Along (step cfg) (DownloadsWork cfg) s es) :
    Along (step cfg) (fun s ev => Unlocked (handle cfg s ev)) s es := by
  have h0 : Inv s := ⟨fun f hf => absurd hf (hidle f), hcfg, hscan⟩
  exact along_mono (fun s ev hinv hdl => hinv.handle ev hdl)
    (fun s ev hinv hdl => (hinv.handle ev hdl).unlocked) h0 hok

/-- A firmware that supports every command. -/
def exampleCfg : Cfg := ⟨.genInfoSent, 13, 2048, 2048, 8, 0x1f0, 0x1e8⟩

/-- The adapter after its set-up. -/
def idleAdapter : Adapter where
  proc _ := .idle
  seqNum _ := 0
  cfgCnstr := .idle
  scanCnstr := .idle
  usedPage := 0
  nloFlag := false
  h2cSeq := 0
  param := ⟨none, 0, 0, 0, 0, 0, 0, false⟩
  chSw := ⟨none, 0, false, 0, 0, 0, 0, 0⟩
  scanRptBuf := false
  log := []
  overrun := false

/-- Everything succeeds, but for the page download as given. -/
def exampleEnv (dl : Bool) : Env := ⟨dl, true, true, fun _ => true, fun _ => 0⟩

def exampleChannel : ChInfo := ⟨1, 0, 0, 36, 100, 0⟩

def exampleSwitch : ChSwitchOption := ⟨0, 0, 0, 1, 1, 0, 36, 0, 0, 0, 0, 0, 0, 0⟩

theorem offload_unlocked_packet :
    Along (step exampleCfg) (fun s ev => Unlocked (handle exampleCfg s ev)) idleAdapter
      [.updatePacket (exampleEnv true) 0 [1, 2, 3], .h2cAck .updatePkt 0 0 0 0] :=
  offload_unlocked exampleCfg idleAdapter _ (fun _ => ProcStatus.noConfusion) (by decide) (by decide)
    ⟨fun _ _ _ _ => ⟨by decide, rfl⟩, trivial, trivial⟩

/-- A download that fails in a channel switch leaves the scan waiting, with nothing sent, and its
list at `H2C_SENT`. -/
theorem ctrl_ch_switch_locks :
    (∀ f, idleAdapter.proc f ≠ .sending) ∧ idleAdapter.cfgCnstr ≠ .h2cSent ∧
      idleAdapter.scanCnstr ≠ .h2cSent ∧
      ¬ Along (step exampleCfg) (fun s ev => Unlocked (handle exampleCfg s ev)) idleAdapter
        [.clearChInfo, .addChInfo (exampleEnv true) exampleChannel,
          .ctrlChSwitch (exampleEnv false) exampleSwitch] := by
  refine ⟨fun _ => ProcStatus.noConfusion, by decide, by decide, ?_⟩
  rintro ⟨-, -, ⟨-, hfailed⟩, -⟩
  exact (hfailed (by decide)).1 (by decide)

end Rtl8821cu.Halmac
