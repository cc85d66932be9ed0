import Rtl8821cu.HalmacLock
import Rtl8821cu.HalmacScanList

/-! The list of channels to scan: what is downloaded decodes to the channels added since the list
was cleared, when the last of them is complete. -/
namespace Rtl8821cu.Halmac
open LeWord Store Run

/-- The same list and counters. -/
def SameList (c d : ChSwInfo) : Prop := { d with scanMode := c.scanMode } = c

/-- The channels added since the list was cleared, with their extra records. -/
def added (cfg : Cfg) (s : Adapter) (l : List ChEntry) (ev : Ev) : List ChEntry :=
  if (handle cfg s ev).2 == .success then
    match ev with
    | .clearChInfo => []
    | .addChInfo _ info => l ++ [(info, [])]
    | .addExtraChInfo info => l.modifyLast fun e => (e.1, e.2 ++ [info])
    | _ => l
  else l

/-- The channels added since the list was cleared, after a run. -/
def addedAlong (cfg : Cfg) : Adapter → List ChEntry → List Ev → List ChEntry
  | _, l, [] => l
  | s, l, ev :: es => addedAlong cfg (step cfg s ev) (added cfg s l ev) es

/-- The flags of extra information are 0 or 1. -/
def FlagsOk : Ev → Prop
  | .addChInfo _ info => info.extraInfo = 0 ∨ info.extraInfo = 1
  | .addExtraChInfo info => info.extraInfo = 0 ∨ info.extraInfo = 1
  | _ => True

/-- The buffer holds the records of `l`, and its counters are theirs. -/
structure Listed (c : ChSwInfo) (buf : ℕ → BitVec 8) (l : List ChEntry) : Prop where
  wptr : c.bufWptr = c.totalSize
  size : c.totalSize + c.avlBufSize = c.bufSize
  total : c.totalSize = (l.flatMap ChEntry.records).length
  num : c.chNum = l.length
  holds : HoldsAt buf 0 (l.flatMap ChEntry.records)

/-- What is there between two calls: a buffer with the list, or no channel. -/
structure ScanInv (s : Adapter) (l : List ChEntry) : Prop where
  listed : ∀ buf, s.chSw.buf = some buf → Listed s.chSw buf l ∧ l ≠ []
  free : s.chSw.buf = none → s.scanCnstr ≠ .cnstr ∧ (s.scanCnstr = .bufClr → l = [])

/-- Every channel of `l` but the last is complete, and the last has the flag `f` in its last
record. -/
def Complete (l : List ChEntry) (f : BitVec 8) : Prop :=
  ∃ (init : List ChEntry) (info : ChInfo) (infos : List ChExtraInfo),
    l = init ++ [(info, infos)] ∧ (∀ e ∈ init, e.Closed) ∧ Chained info.extraInfo infos f

/-- The flags of a list in a buffer. -/
def FlagInv (s : Adapter) (l : List ChEntry) : Prop :=
  s.chSw.buf.isSome = true →
    (s.chSw.extraInfoEn = 0 ∨ s.chSw.extraInfoEn = 1) ∧ Complete l s.chSw.extraInfoEn

section Lists

variable {c d : ChSwInfo} {buf : ℕ → BitVec 8} {l : List ChEntry} {ch : ChInfo}
  {infos : List ChExtraInfo}

theorem SameList.refl (c : ChSwInfo) : SameList c c := rfl

theorem SameList.buf_eq (h : SameList c d) : d.buf = c.buf := by
  rw [← h]

theorem SameList.extra_eq (h : SameList c d) : d.extraInfoEn = c.extraInfoEn := by
  rw [← h]

theorem Listed.same (h : Listed c buf l) (hsame : SameList c d) : Listed d buf l := by
  rw [← hsame] at h
  exact ⟨h.wptr, h.size, h.total, h.num, h.holds⟩

theorem listed_fresh (c : ChSwInfo) (mem : ℕ → BitVec 8) : Listed (c.fresh mem) mem [] where
  wptr := rfl
  size := rfl
  total := rfl
  num := rfl
  holds := holdsAt_nil _ _

/-- A channel behind the list. -/
theorem Listed.addCh (h : Listed c buf l) (hroom : 4 ≤ c.avlBufSize) (info : ChInfo) :
    Listed (c.addCh buf info) (store buf c.bufWptr (bytes (info.word (wordAt buf c.bufWptr))))
      (l ++ [(info, [])]) where
  wptr := by simp [ChSwInfo.addCh, h.wptr]
  size := by
    have hsize := h.size
    simp only [ChSwInfo.addCh]
    omega
  total := by simp [ChSwInfo.addCh, h.total, ChEntry.records]
  num := by simp [ChSwInfo.addCh, h.num]
  holds := by
    rw [List.flatMap_append, holdsAt_append]
    refine ⟨h.holds.store_behind ?_ _, ?_⟩
    · rw [h.wptr, h.total]
      omega
    · rw [Nat.zero_add, ← h.total, ← h.wptr, info.word_eq]
      simpa [ChEntry.records, ChInfo.record] using holdsAt_store buf c.bufWptr (bytes (info.word 0))

/-- An extra record behind the list. -/
theorem holdsAt_extra (buf : ℕ → BitVec 8) (a : ℕ) (info : ChExtraInfo) :
    HoldsAt (store (store buf a (bytes (info.word (wordAt buf a)))) (a + 2) info.data) a
      info.record := by
  rw [ChExtraInfo.record, holdsAt_append, ← info.take_bytes (wordAt buf a)]
  refine ⟨HoldsAt.store_behind ?_ (by simp) _, ?_⟩
  · have hall := holdsAt_store buf a (bytes (info.word (wordAt buf a)))
    rw [← List.take_append_drop 2 (bytes (info.word (wordAt buf a))), holdsAt_append] at hall
    exact hall.1
  · simpa using holdsAt_store _ (a + 2) info.data

theorem Listed.addExtra (h : Listed c buf l) (hne : l ≠ []) (info : ChExtraInfo)
    (hroom : info.extraInfoSize.toNat + 2 ≤ c.avlBufSize) :
    Listed (c.addExtra buf info)
      (store (store buf c.bufWptr (bytes (info.word (wordAt buf c.bufWptr)))) (c.bufWptr + 2)
        info.data) (l.modifyLast fun e => (e.1, e.2 ++ [info])) := by
  obtain ⟨init, e, rfl⟩ := (List.eq_nil_or_concat l).resolve_left hne
  rw [List.concat_eq_append] at h ⊢
  rw [List.modifyLast_concat]
  have hrec : (init ++ [(e.1, e.2 ++ [info])]).flatMap ChEntry.records =
      (init ++ [e]).flatMap ChEntry.records ++ info.record := by
    simp [ChEntry.records]
  refine ⟨?_, ?_, ?_, ?_, ?_⟩
  · simp [ChSwInfo.addExtra, h.wptr]
  · have hsize := h.size
    simp only [ChSwInfo.addExtra]
    omega
  · rw [hrec, List.length_append, ← h.total, info.length_record]
    rfl
  · have hnum := h.num
    simpa [ChSwInfo.addExtra] using hnum
  · have hwptr := h.wptr
    have htotal := h.total
    rw [hrec, holdsAt_append, Nat.zero_add, ← htotal, ← hwptr]
    refine ⟨(h.holds.store_behind (by omega) _).store_behind (by omega) _, ?_⟩
    exact holdsAt_extra buf c.bufWptr info

/-- What is downloaded. -/
theorem Listed.list (h : Listed c buf l) (hbuf : c.buf = some buf) :
    c.list = l.flatMap ChEntry.records := by
  rw [ChSwInfo.list, hbuf, h.total]
  exact load_of_holdsAt h.holds

end Lists

/-- The list is left, and the state of its construction too, or it is at `H2C_SENT`. -/
structure ScanSame (s t : Adapter) : Prop where
  list : SameList s.chSw t.chSw
  cnstr : t.scanCnstr = s.scanCnstr ∨ t.scanCnstr = .h2cSent

/-- What a call of `ctrl_ch_switch_88xx` does to the list: it stays when the call fails before the
command is sent, and is dropped after that. -/
structure Switched (s : Adapter) (r : Adapter × Ret) : Prop where
  ends : ScanSame s r.1 ∧ r.2 ≠ .success ∧ r.2 ≠ .sendH2cFail ∨
    r.1.chSw.buf = none ∧ r.1.scanCnstr = .idle ∧ (r.2 = .success ∨ r.2 = .sendH2cFail)
  pages : ∃ pre, r.1.log = pre ++ s.log ∧
    ∀ addr data, Log.page .scan addr data ∈ pre → data = s.chSw.list

section Switch

variable {cfg : Cfg} {s : Adapter} {env : Env}

theorem sendH2c_cases (s : Adapter) (env : Env) (f : Feature) (ack nlo : Bool) (cmd : H2cCmd) :
    (s.sendH2c env f ack nlo cmd).2 = .success ∧
        (s.sendH2c env f ack nlo cmd).1.log = .h2c f s.h2cSeq ack nlo cmd :: s.log ∨
      (s.sendH2c env f ack nlo cmd).2 = .sendH2cFail ∧
        (s.sendH2c env f ack nlo cmd).1.log = s.log := by
  unfold Adapter.sendH2c
  dsimp only
  split
  · exact Or.inr ⟨rfl, rfl⟩
  · exact Or.inl ⟨rfl, rfl⟩

theorem sendChSwitch_ends (cfg : Cfg) (env : Env) (hscan : s.scanCnstr = .h2cSent)
    (opt : ChSwitchOption) (pgAddr : BitVec 16) :
    (sendChSwitch cfg env s opt pgAddr).1.chSw.buf = none ∧
      (sendChSwitch cfg env s opt pgAddr).1.scanCnstr = .idle ∧
      ((sendChSwitch cfg env s opt pgAddr).2 = .success ∨
        (sendChSwitch cfg env s opt pgAddr).2 = .sendH2cFail) ∧
      ∃ pre, (sendChSwitch cfg env s opt pgAddr).1.log = pre ++ s.log ∧
        ∀ addr data, Log.page .scan addr data ∉ pre := by
  have hlog := sendH2c_cases s env .scan (!(opt.nloEn == 1)) (opt.nloEn == 1)
    (.chSwitch opt (BitVec.ofNat 8 s.chSw.chNum) (pgLoc cfg pgAddr)
      (BitVec.ofNat 16 s.chSw.totalSize))
  obtain ⟨-, hn⟩ := sendH2c_cnstr s env .scan (!(opt.nloEn == 1)) (opt.nloEn == 1)
    (.chSwitch opt (BitVec.ofNat 8 s.chSw.chNum) (pgLoc cfg pgAddr)
      (BitVec.ofNat 16 s.chSw.totalSize))
  unfold sendChSwitch
  dsimp only
  generalize Adapter.sendH2c s env .scan _ _ _ = r at hlog hn ⊢
  have hidle : cnvScanState r.1.scanCnstr .idle = some .idle := by
    rcases hn with hn | hn
    · rw [hn, hscan]
      rfl
    · rw [hn]
      rfl
  rw [hidle]
  refine ⟨rfl, rfl, hlog.imp And.left And.left, ?_⟩
  rcases hlog with ⟨-, hlog⟩ | ⟨-, hlog⟩
  · exact ⟨[_], hlog, by simp⟩
  · exact ⟨[], hlog, by simp⟩

/-- From `H2C_SENT` on, with a page perhaps downloaded. -/
theorem scanRptAndSend_switched {t : Adapter} (hsame : SameList s.chSw t.chSw)
    (hscan : t.scanCnstr = .h2cSent) (pre : List Log) (hlog : t.log = pre ++ s.log)
    (hpre : ∀ addr data, Log.page .scan addr data ∈ pre → data = s.chSw.list)
    (opt : ChSwitchOption) (pgAddr : BitVec 16) :
    Switched s (scanRptAndSend cfg env t opt pgAddr) := by
  have hsend : ∀ u : Adapter, u.scanCnstr = .h2cSent → u.log = t.log →
      Switched s (sendChSwitch cfg env u opt pgAddr) := by
    intro u hu hulog
    obtain ⟨hbuf, hidle, hret, post, hpost, hno⟩ := sendChSwitch_ends cfg env hu opt pgAddr
    refine ⟨Or.inr ⟨hbuf, hidle, hret⟩, post ++ pre, ?_, ?_⟩
    · rw [hpost, hulog, hlog, List.append_assoc]
    · intro addr data hmem
      rcases List.mem_append.1 hmem with hmem | hmem
      · exact absurd hmem (hno addr data)
      · exact hpre addr data hmem
  unfold scanRptAndSend
  dsimp only
  split
  · split
    · exact ⟨Or.inl ⟨⟨hsame, Or.inr hscan⟩, by simp, by simp⟩, pre, hlog, hpre⟩
    · exact hsend _ hscan rfl
  · exact hsend _ hscan rfl

theorem Switched.fails {t : Adapter} (hsame : ScanSame s t) (hlog : t.log = s.log) {ret : Ret}
    (hret : ret ≠ .success) (hret' : ret ≠ .sendH2cFail) : Switched s (t, ret) :=
  ⟨Or.inl ⟨hsame, hret, hret'⟩, [], hlog, by simp⟩

theorem dlRsvdPage_ret (s : Adapter) (env : Env) (f : Feature) (addr : BitVec 16)
    (data : List (BitVec 8)) :
    s.dlRsvdPage env f addr data = ({ s with log := .page f addr data :: s.log }, .success) ∨
      ∃ ret, s.dlRsvdPage env f addr data = (s, ret) ∧ ret ≠ .success ∧ ret ≠ .sendH2cFail := by
  unfold Adapter.dlRsvdPage
  split
  · exact Or.inr ⟨_, rfl, by decide, by decide⟩
  · split
    · exact Or.inr ⟨_, rfl, by decide, by decide⟩
    · exact Or.inl rfl

theorem procCtrlChSwitch_switched (opt : ChSwitchOption) :
    Switched s (procCtrlChSwitch cfg env s opt) := by
  unfold procCtrlChSwitch
  split
  · exact Switched.fails ⟨SameList.refl _, Or.inl rfl⟩ rfl (by decide) (by decide)
  rename_i state hcnv
  have hstate := cnvScanState_eq hcnv
  obtain ⟨t, ht⟩ : ∃ t, t = ({ s with scanCnstr := state } : Adapter).setProc .scan .sending :=
    ⟨_, rfl⟩
  have hchSw : t.chSw = s.chSw := by
    rw [ht]
    rfl
  have hscan : t.scanCnstr = .h2cSent := by
    rw [ht]
    exact hstate
  have hlog : t.log = s.log := by
    rw [ht]
    rfl
  have hsame : SameList s.chSw t.chSw := by
    rw [hchSw]
    exact SameList.refl _
  dsimp only
  rw [← ht]
  split
  · exact scanRptAndSend_switched hsame hscan [] hlog (by simp) opt _
  · rcases dlRsvdPage_ret t env .scan (cfg.rsvdH2cInfoAddr + t.usedPage.setWidth 16)
      t.chSw.list with hdl | ⟨ret, hdl, hne, hne'⟩
    · rw [hdl]
      refine scanRptAndSend_switched ?_ ?_ [_] (congrArg _ hlog) ?_ opt _
      · exact hsame
      · exact hscan
      · intro addr data hmem
        rw [List.mem_singleton] at hmem
        injection hmem with _ _ hdata
        rw [hdata, hchSw]
    · rw [hdl]
      have hfails := Switched.fails ⟨hsame, Or.inr hscan⟩ hlog hne hne'
      cases ret
      case success => exact absurd rfl hne
      all_goals exact hfails

theorem ctrlChSwitch_switched (opt : ChSwitchOption) :
    Switched s (ctrlChSwitch cfg env s opt) := by
  have hrefl : ScanSame s s := ⟨SameList.refl _, Or.inl rfl⟩
  unfold ctrlChSwitch
  split
  · exact Switched.fails hrefl rfl (by decide) (by decide)
  split
  · exact Switched.fails hrefl rfl (by decide) (by decide)
  split
  · exact Switched.fails hrefl rfl (by decide) (by decide)
  dsimp only
  obtain ⟨t, ht⟩ : ∃ t, t = if (opt.switchEn == 0) = true then s.setProc .scan .idle else s :=
    ⟨_, rfl⟩
  have hchSw : t.chSw = s.chSw := by
    rw [ht]
    split <;> rfl
  have hcnstr : t.scanCnstr = s.scanCnstr := by
    rw [ht]
    split <;> rfl
  have hlog : t.log = s.log := by
    rw [ht]
    split <;> rfl
  have hsame : ScanSame s t := by
    refine ⟨?_, Or.inl hcnstr⟩
    rw [hchSw]
    exact SameList.refl _
  rw [← ht]
  generalize (if (opt.switchEn == 1) = true then CnstrState.cnstr else .bufClr) = want
  split
  · exact Switched.fails hsame hlog (by decide) (by decide)
  split
  · exact Switched.fails hsame hlog (by decide) (by decide)
  have hproc : Switched t (procCtrlChSwitch cfg env t opt) := procCtrlChSwitch_switched opt
  obtain ⟨hends, hpages⟩ := hproc
  refine ⟨?_, by rwa [hlog, hchSw] at hpages⟩
  rcases hends with ⟨⟨hlist, hstate⟩, hret⟩ | hends
  · rw [hchSw] at hlist
    rw [hcnstr] at hstate
    exact Or.inl ⟨⟨hlist, hstate⟩, hret⟩
  · exact Or.inr hends

/-- A page is downloaded only with the list in construction. -/
theorem ctrlChSwitch_downloads {opt : ChSwitchOption} (hen : opt.switchEn = 1)
    (hne : (ctrlChSwitch cfg env s opt).1.log ≠ s.log) : s.scanCnstr = .cnstr := by
  by_contra hcnstr
  refine hne ?_
  unfold ctrlChSwitch
  split
  · rfl
  split
  · rfl
  split
  · rfl
  have hzero : ((1 : BitVec 8) == 0) = false := rfl
  simp only [hen, hzero, beq_self_eq_true, if_true, Bool.false_eq_true, if_false]
  split
  · rfl
  · rw [if_pos (by simpa using hcnstr)]

end Switch

/-- Nothing of the list is changed. -/
structure ScanFrame (s t : Adapter) : Prop where
  chSw : t.chSw = s.chSw
  cnstr : t.scanCnstr = s.scanCnstr

section Frame

variable {cfg : Cfg} {s t u : Adapter} {env : Env} {f : Feature}

theorem ScanFrame.trans (h : ScanFrame s t) (h' : ScanFrame t u) : ScanFrame s u :=
  ⟨h'.chSw.trans h.chSw, h'.cnstr.trans h.cnstr⟩

theorem scanFrame_sendH2c (s : Adapter) (env : Env) (hf : f ≠ .scan) (ack nlo : Bool)
    (cmd : H2cCmd) : ScanFrame s (s.sendH2c env f ack nlo cmd).1 := by
  unfold Adapter.sendH2c
  dsimp only
  split
  · refine ⟨rfl, ?_⟩
    simp [Adapter.resetOfldFeature, hf]
  · exact ⟨rfl, rfl⟩

theorem scanFrame_dlRsvdPage (s : Adapter) (env : Env) (f : Feature) (addr : BitVec 16)
    (data : List (BitVec 8)) : ScanFrame s (s.dlRsvdPage env f addr data).1 := by
  unfold Adapter.dlRsvdPage
  split
  · exact ⟨rfl, rfl⟩
  · split <;> exact ⟨rfl, rfl⟩

theorem scanFrame_updatePacket (pktId : BitVec 32) (pkt : List (BitVec 8)) :
    ScanFrame s (updatePacket cfg env s pktId pkt).1 := by
  unfold updatePacket
  split
  · exact ⟨rfl, rfl⟩
  split
  · exact ⟨rfl, rfl⟩
  split
  · exact ⟨rfl, rfl⟩
  split
  · exact ⟨rfl, rfl⟩
  dsimp only
  have hdl := scanFrame_dlRsvdPage (s.setProc .updatePkt .sending) env .updatePkt
    cfg.rsvdH2cInfoAddr pkt
  generalize (s.setProc .updatePkt .sending).dlRsvdPage env .updatePkt cfg.rsvdH2cInfoAddr pkt = r
    at hdl ⊢
  split
  · rename_i t
    have hsend := scanFrame_sendH2c t env (f := .updatePkt) (by decide) (!packetInNlo pktId)
      (packetInNlo pktId) (.updatePkt (BitVec.ofNat 16 (pkt.length + txdescSize.toNat))
        ((getRealPktId pktId).setWidth 8) (pgLoc cfg cfg.rsvdH2cInfoAddr))
    generalize t.sendH2c env .updatePkt _ _ _ = r' at hsend ⊢
    have hall := hdl.trans hsend
    split
    · split <;> exact ⟨hall.chSw, hall.cnstr⟩
    · exact ⟨hall.chSw, hall.cnstr⟩
  · exact ⟨hdl.chSw, hdl.cnstr⟩

theorem scanFrame_sendScanPacket (index : BitVec 8) (pkt : List (BitVec 8)) :
    ScanFrame s (sendScanPacket cfg env s index pkt).1 := by
  unfold sendScanPacket
  split
  · exact ⟨rfl, rfl⟩
  split
  · exact ⟨rfl, rfl⟩
  split
  · exact ⟨rfl, rfl⟩
  split
  · exact ⟨rfl, rfl⟩
  dsimp only
  have hdl := scanFrame_dlRsvdPage (s.setProc .scanPkt .sending) env .scanPkt
    cfg.rsvdH2cInfoAddr pkt
  generalize (s.setProc .scanPkt .sending).dlRsvdPage env .scanPkt cfg.rsvdH2cInfoAddr pkt = r
    at hdl ⊢
  split
  · have hall := hdl.trans (scanFrame_sendH2c _ env (f := .scanPkt) (by decide) true false
      (.sendScanPkt (BitVec.ofNat 16 (pkt.length + txdescSize.toNat)) index
        (pgLoc cfg cfg.rsvdH2cInfoAddr)))
    exact ⟨hall.chSw, hall.cnstr⟩
  · exact ⟨hdl.chSw, hdl.cnstr⟩

theorem scanFrame_dropScanPacket (option : DropPktOption) :
    ScanFrame s (dropScanPacket cfg env s option).1 := by
  unfold dropScanPacket
  split
  · exact ⟨rfl, rfl⟩
  split
  · exact ⟨rfl, rfl⟩
  split
  · exact ⟨rfl, rfl⟩
  have hsend := scanFrame_sendH2c (s.setProc .dropPkt .sending) env (f := .dropPkt) (by decide)
    true false (.dropScanPkt option)
  exact ⟨hsend.chSw, hsend.cnstr⟩

theorem scanFrame_sendCfgParamH2c : ScanFrame s (sendCfgParamH2c cfg env s).1 := by
  have hend : ∀ (t : Adapter) (status : Ret), ScanFrame s t →
      ScanFrame s (cfgParamH2cEnd t status).1 := by
    intro t status h
    unfold cfgParamH2cEnd
    dsimp only
    split <;> exact ⟨h.chSw, h.cnstr⟩
  unfold sendCfgParamH2c
  split
  · exact ⟨rfl, rfl⟩
  rename_i state _
  have hproc : ScanFrame s (({ s with cfgCnstr := state } : Adapter).setProc .cfgParam .sending) :=
    ⟨rfl, rfl⟩
  generalize ({ s with cfgCnstr := state } : Adapter).setProc .cfgParam .sending = t at hproc ⊢
  dsimp only
  have hdl := scanFrame_dlRsvdPage t env .cfgParam
    (if t.param.fullFifoMode then 0 else cfg.rsvdH2cInfoAddr) t.param.records
  generalize t.dlRsvdPage env .cfgParam _ t.param.records = r at hdl ⊢
  split
  · exact hend _ _ ((hproc.trans hdl).trans (scanFrame_sendH2c _ env (by decide) _ _ _))
  · exact hend _ _ (hproc.trans hdl)

theorem scanFrame_addParamBuf (s : Adapter) (param : Param) : ScanFrame s (addParamBuf s param) := by
  unfold addParamBuf
  split <;> exact ⟨rfl, rfl⟩

theorem scanFrame_withParam (s : Adapter) (info : CfgParamInfo) (param : Param) :
    ScanFrame s (withParam s info param) := by
  have hadd := scanFrame_addParamBuf { s with param := info, cfgCnstr := .cnstr } param
  unfold withParam
  dsimp only
  split <;> exact ⟨hadd.chSw, hadd.cnstr⟩

theorem scanFrame_cfgParameter (param : Param) (fullFifo : BitVec 8) :
    ScanFrame s (cfgParameter cfg env s param fullFifo).1 := by
  unfold cfgParameter
  split
  · exact ⟨rfl, rfl⟩
  split
  · exact ⟨rfl, rfl⟩
  split
  · exact ⟨rfl, rfl⟩
  split
  · exact ⟨rfl, rfl⟩
  rename_i hcnstr
  obtain ⟨t, ht⟩ : ∃ t, t = s.setProc .cfgParam .idle := ⟨_, rfl⟩
  have hst : ScanFrame s t := by
    rw [ht]
    exact ⟨rfl, rfl⟩
  have hstate : t.cfgCnstr = .idle ∨ t.cfgCnstr = .cnstr := by
    rw [ht]
    simpa [Adapter.setProc, or_iff_not_imp_left] using hcnstr
  rw [← ht]
  cases hinfo : paramInfo cfg env t fullFifo with
  | none =>
    simp only [procCfgParam, mallocCfgParamBuf_eq, hinfo]
    exact ⟨hst.chSw, hst.cnstr⟩
  | some info =>
    rw [procCfgParam_eq hinfo hstate]
    have hwith := hst.trans (scanFrame_withParam t info param)
    split
    · exact hwith
    split
    · refine ⟨hwith.chSw, ?_⟩
      simpa [Adapter.resetOfldFeature, Adapter.setProc] using hwith.cnstr
    · have hsend : ScanFrame s (sendCfgParamH2c cfg env (withParam t info param)).1 :=
        hwith.trans scanFrame_sendCfgParamH2c
      generalize sendCfgParamH2c cfg env (withParam t info param) = r at hsend ⊢
      split
      · exact hsend
      · exact ⟨hsend.chSw, hsend.cnstr⟩

theorem scanFrame_getH2cAck (f : Feature) (seq rc : BitVec 8) (oa va : BitVec 32) :
    ScanFrame s (getH2cAck s f seq rc oa va).1 := by
  unfold getH2cAck
  dsimp only
  split
  · exact ⟨rfl, rfl⟩
  · split <;> exact ⟨rfl, rfl⟩

end Frame

section Steps

variable {cfg : Cfg} {s t : Adapter} {env : Env} {l : List ChEntry}

/-- The buffer that a channel goes to: the one there is, or a fresh one. -/
def ChBuf (env : Env) (s : Adapter) (c : ChSwInfo) (buf : ℕ → BitVec 8) : Prop :=
  s.chSw.buf = some buf ∧ c = s.chSw ∨
    s.chSw.buf = none ∧ c = s.chSw.fresh env.mem ∧ buf = env.mem

theorem addChInfoBuf_cases (s : Adapter) {c : ChSwInfo} (buf : ℕ → BitVec 8) (hc : s.chSw = c)
    (hcnstr : s.scanCnstr = .bufClr ∨ s.scanCnstr = .cnstr) (info : ChInfo) :
    (addChInfoBuf s buf info).1 = s ∧ (addChInfoBuf s buf info).2 ≠ .success ∧
        (c.extraInfoEn = 1 ∨ c.avlBufSize < 4) ∨
      c.extraInfoEn ≠ 1 ∧ 4 ≤ c.avlBufSize ∧ addChInfoBuf s buf info =
        ({ s with scanCnstr := .cnstr, chSw := c.addCh buf info }, .success) := by
  have hcnv : cnvScanState s.scanCnstr .cnstr = some .cnstr := by
    rcases hcnstr with hcnstr | hcnstr <;> rw [hcnstr] <;> rfl
  subst hc
  unfold addChInfoBuf
  split
  · rename_i hextra
    exact Or.inl ⟨rfl, by simp, Or.inl (by simpa using hextra)⟩
  · rename_i hextra
    split
    · rename_i hroom
      exact Or.inl ⟨rfl, by simp, Or.inr hroom⟩
    · rename_i hroom
      rw [hcnv]
      exact Or.inr ⟨by simpa using hextra, by omega, rfl⟩

/-- A channel is refused with nothing changed, or put behind the list. -/
theorem addChInfo_cases (cfg : Cfg) (env : Env) (s : Adapter) (info : ChInfo) :
    (addChInfo cfg env s info).1 = s ∧ (addChInfo cfg env s info).2 ≠ .success ∨
      (s.scanCnstr = .bufClr ∨ s.scanCnstr = .cnstr) ∧
        ∃ c buf, ChBuf env s c buf ∧ c.extraInfoEn ≠ 1 ∧ 4 ≤ c.avlBufSize ∧
          addChInfo cfg env s info =
            ({ s with scanCnstr := .cnstr, chSw := c.addCh buf info }, .success) := by
  unfold addChInfo
  split
  · exact Or.inl ⟨rfl, by simp⟩
  split
  · exact Or.inl ⟨rfl, by simp⟩
  rename_i hcnstr
  have hcnstr' : s.scanCnstr = .bufClr ∨ s.scanCnstr = .cnstr := by
    simpa [or_iff_not_imp_left] using hcnstr
  cases hbuf : s.chSw.buf with
  | some buf =>
    rcases addChInfoBuf_cases s buf rfl hcnstr' info with ⟨hsame, hret, -⟩ | hdone
    · exact Or.inl ⟨hsame, hret⟩
    · exact Or.inr ⟨hcnstr', s.chSw, buf, Or.inl ⟨hbuf, rfl⟩, hdone⟩
  | none =>
    dsimp only
    split
    · exact Or.inl ⟨rfl, by simp⟩
    · rcases addChInfoBuf_cases { s with chSw := s.chSw.fresh env.mem } env.mem rfl
        hcnstr' info with ⟨-, -, hno⟩ | hdone
      · simp [ChSwInfo.fresh, scanInfoRsvdpgSize] at hno
      · exact Or.inr ⟨hcnstr', s.chSw.fresh env.mem, env.mem, Or.inr ⟨hbuf, rfl, rfl⟩, hdone⟩

/-- An extra record is refused with nothing changed, or put behind the list. -/
theorem addExtraChInfo_cases (s : Adapter) (info : ChExtraInfo) :
    (addExtraChInfo s info).1 = s ∧ (addExtraChInfo s info).2 ≠ .success ∨
      ∃ buf, s.chSw.buf = some buf ∧ s.chSw.extraInfoEn ≠ 0 ∧
        info.extraInfoSize.toNat + 2 ≤ s.chSw.avlBufSize ∧ addExtraChInfo s info =
          ({ s with scanCnstr := .cnstr, chSw := s.chSw.addExtra buf info }, .success) := by
  unfold addExtraChInfo
  split
  · exact Or.inl ⟨rfl, by simp⟩
  rename_i buf hbuf
  split
  · exact Or.inl ⟨rfl, by simp⟩
  split
  · exact Or.inl ⟨rfl, by simp⟩
  split
  · exact Or.inl ⟨rfl, by simp⟩
  rename_i hextra hroom hcnstr
  have hcnstr' : s.scanCnstr = .cnstr := by simpa using hcnstr
  have hcnv : cnvScanState s.scanCnstr .cnstr = some .cnstr := by
    rw [hcnstr']
    rfl
  rw [hcnv]
  exact Or.inr ⟨buf, hbuf, by simpa using hextra, by omega, rfl⟩

theorem clearChInfo_cases (s : Adapter) :
    (clearChInfo s).1 = s ∧ (clearChInfo s).2 ≠ .success ∨
      clearChInfo s = ({ s with scanCnstr := .bufClr, chSw := s.chSw.clear }, .success) := by
  unfold clearChInfo
  split
  · exact Or.inl ⟨rfl, by simp⟩
  · split
    · exact Or.inl ⟨rfl, by simp⟩
    · rename_i state hcnv
      rw [cnvScanState_eq hcnv]
      exact Or.inr rfl

theorem added_refused {e : Ev} (h : (handle cfg s e).2 ≠ .success) : added cfg s l e = l := by
  unfold added
  exact if_neg (by simpa using h)

theorem ScanInv.same (h : ScanInv s l) (hsame : ScanSame s t) : ScanInv t l where
  listed buf hbuf := by
    rw [hsame.list.buf_eq] at hbuf
    obtain ⟨hlisted, hne⟩ := h.listed buf hbuf
    exact ⟨hlisted.same hsame.list, hne⟩
  free hbuf := by
    rw [hsame.list.buf_eq] at hbuf
    obtain ⟨hno, hempty⟩ := h.free hbuf
    rcases hsame.cnstr with hcnstr | hcnstr
    · rw [hcnstr]
      exact ⟨hno, hempty⟩
    · simp [hcnstr]

theorem ScanFrame.same (h : ScanFrame s t) : ScanSame s t := by
  refine ⟨?_, Or.inl h.cnstr⟩
  rw [h.chSw]
  exact SameList.refl _

theorem ScanInv.addChInfo (h : ScanInv s l) (env : Env) (info : ChInfo) :
    ScanInv (step cfg s (.addChInfo env info)) (added cfg s l (.addChInfo env info)) := by
  rcases addChInfo_cases cfg env s info with ⟨hsame, hret⟩ | ⟨hcnstr, c, buf, hc, -, hroom, hdone⟩
  · rw [added_refused (e := .addChInfo env info) hret, step, handle, hsame]
    exact h
  · have hlisted : Listed c buf l := by
      rcases hc with ⟨hbuf, rfl⟩ | ⟨hbuf, rfl, rfl⟩
      · exact (h.listed buf hbuf).1
      · obtain ⟨hno, hempty⟩ := h.free hbuf
        rw [hempty (hcnstr.resolve_right hno)]
        exact listed_fresh _ _
    have hadded : added cfg s l (.addChInfo env info) = l ++ [(info, [])] := by
      simp [added, handle, hdone]
    rw [hadded, step, handle, hdone]
    refine ⟨fun b hb => ?_, fun hb => ?_⟩
    · obtain rfl := Option.some.inj hb
      exact ⟨hlisted.addCh hroom info, by simp⟩
    · exact absurd hb (by simp [ChSwInfo.addCh])

theorem ScanInv.addExtraChInfo (h : ScanInv s l) (info : ChExtraInfo) :
    ScanInv (step cfg s (.addExtraChInfo info)) (added cfg s l (.addExtraChInfo info)) := by
  rcases addExtraChInfo_cases s info with ⟨hsame, hret⟩ | ⟨buf, hbuf, -, hroom, hdone⟩
  · rw [added_refused (e := .addExtraChInfo info) hret, step, handle, hsame]
    exact h
  · obtain ⟨hlisted, hne⟩ := h.listed buf hbuf
    have hadded : added cfg s l (.addExtraChInfo info) =
        l.modifyLast fun e => (e.1, e.2 ++ [info]) := by
      simp [added, handle, hdone]
    rw [hadded, step, handle, hdone]
    refine ⟨fun b hb => ?_, fun hb => ?_⟩
    · obtain rfl := Option.some.inj hb
      refine ⟨hlisted.addExtra hne info hroom, ?_⟩
      obtain ⟨init, e, rfl⟩ := (List.eq_nil_or_concat l).resolve_left hne
      rw [List.concat_eq_append, List.modifyLast_concat]
      simp
    · exact absurd hb (by simp [ChSwInfo.addExtra])

theorem ScanInv.clearChInfo (h : ScanInv s l) :
    ScanInv (step cfg s .clearChInfo) (added cfg s l .clearChInfo) := by
  rcases clearChInfo_cases s with ⟨hsame, hret⟩ | hdone
  · rw [added_refused (e := .clearChInfo) hret, step, handle, hsame]
    exact h
  · have hadded : added cfg s l .clearChInfo = [] := by
      simp [added, handle, hdone]
    rw [hadded, step, handle, hdone]
    refine ⟨fun b hb => ?_, fun _ => ⟨by simp, fun _ => rfl⟩⟩
    exact absurd hb (by simp [ChSwInfo.clear])

theorem ScanInv.ctrlChSwitch (h : ScanInv s l) (opt : ChSwitchOption) :
    ScanInv (ctrlChSwitch cfg env s opt).1 l := by
  have hswitched : Switched s (Halmac.ctrlChSwitch cfg env s opt) := ctrlChSwitch_switched opt
  rcases hswitched.ends with ⟨hsame, -⟩ | ⟨hbuf, hidle, -⟩
  · exact h.same hsame
  · refine ⟨fun b hb => ?_, fun _ => ⟨by simp [hidle], by simp [hidle]⟩⟩
    rw [hbuf] at hb
    exact absurd hb (by simp)

theorem ScanInv.step (h : ScanInv s l) (ev : Ev) :
    ScanInv (step cfg s ev) (added cfg s l ev) := by
  have hkeep : ∀ {t : Adapter} {P : Prop} [Decidable P], ScanInv t l →
      ScanInv t (if P then l else l) := by
    intro t P _ hinv
    rwa [ite_self]
  have hother : ∀ {t : Adapter} {P : Prop} [Decidable P], ScanFrame s t →
      ScanInv t (if P then l else l) := fun hframe => hkeep (h.same hframe.same)
  cases ev with
  | updatePacket env pktId pkt => exact hother (scanFrame_updatePacket pktId pkt)
  | sendScanPacket env index pkt => exact hother (scanFrame_sendScanPacket index pkt)
  | dropScanPacket env option => exact hother (scanFrame_dropScanPacket option)
  | cfgParameter env param fullFifo => exact hother (scanFrame_cfgParameter param fullFifo)
  | clearChInfo => exact h.clearChInfo
  | addChInfo env info => exact h.addChInfo env info
  | addExtraChInfo info => exact h.addExtraChInfo info
  | ctrlChSwitch env opt => exact hkeep (h.ctrlChSwitch opt)
  | h2cAck f seq rc oa va => exact hother (scanFrame_getH2cAck f seq rc oa va)
  | scanRpt rc => exact hother ⟨rfl, rfl⟩

theorem Chained.snoc {f : BitVec 8} {infos : List ChExtraInfo} (h : Chained f infos 1)
    (info : ChExtraInfo) : Chained f (infos ++ [info]) info.extraInfo := by
  induction infos generalizing f with
  | nil => exact ⟨h, rfl⟩
  | cons x infos ih => exact ⟨h.1, ih h.2⟩

theorem Complete.closed (h : Complete l 0) : ∀ e ∈ l, e.Closed := by
  obtain ⟨init, info, infos, rfl, hinit, hlast⟩ := h
  intro e he
  rcases List.mem_append.1 he with he | he
  · exact hinit e he
  · rw [List.mem_singleton.1 he]
    exact hlast

theorem Complete.snoc (h : Complete l 1) (info : ChExtraInfo) :
    Complete (l.modifyLast fun e => (e.1, e.2 ++ [info])) info.extraInfo := by
  obtain ⟨init, ch, infos, rfl, hinit, hlast⟩ := h
  rw [List.modifyLast_concat]
  exact ⟨init, ch, infos ++ [info], rfl, hinit, hlast.snoc info⟩

theorem FlagInv.same (h : FlagInv s l) (hsame : ScanSame s t) : FlagInv t l := by
  unfold FlagInv
  rw [hsame.list.buf_eq, hsame.list.extra_eq]
  exact h

/-- A channel is added only behind a complete one. -/
theorem FlagInv.addChInfo (h : FlagInv s l) (hinv : ScanInv s l) (env : Env) {info : ChInfo}
    (hok : info.extraInfo = 0 ∨ info.extraInfo = 1) :
    FlagInv (step cfg s (.addChInfo env info)) (added cfg s l (.addChInfo env info)) := by
  rcases addChInfo_cases cfg env s info with ⟨hsame, hret⟩ | ⟨hcnstr, c, buf, hc, hno, -, hdone⟩
  · rw [added_refused (e := .addChInfo env info) hret, Halmac.step, handle, hsame]
    exact h
  · have hclosed : ∀ e ∈ l, e.Closed := by
      rcases hc with ⟨hbuf, rfl⟩ | ⟨hbuf, -, -⟩
      · obtain ⟨hflag, hcomplete⟩ := h (by simp [hbuf])
        rw [hflag.resolve_right hno] at hcomplete
        exact hcomplete.closed
      · obtain ⟨hfree, hempty⟩ := hinv.free hbuf
        simp [hempty (hcnstr.resolve_right hfree)]
    have hadded : added cfg s l (.addChInfo env info) = l ++ [(info, [])] := by
      simp [added, handle, hdone]
    rw [hadded, Halmac.step, handle, hdone]
    exact fun _ => ⟨hok, l, info, [], rfl, hclosed, rfl⟩

/-- An extra record is added only where one is announced. -/
theorem FlagInv.addExtraChInfo (h : FlagInv s l) {info : ChExtraInfo}
    (hok : info.extraInfo = 0 ∨ info.extraInfo = 1) :
    FlagInv (step cfg s (.addExtraChInfo info)) (added cfg s l (.addExtraChInfo info)) := by
  rcases addExtraChInfo_cases s info with ⟨hsame, hret⟩ | ⟨buf, hbuf, hextra, -, hdone⟩
  · rw [added_refused (e := .addExtraChInfo info) hret, Halmac.step, handle, hsame]
    exact h
  · obtain ⟨hflag, hcomplete⟩ := h (by simp [hbuf])
    rw [hflag.resolve_left hextra] at hcomplete
    have hadded : added cfg s l (.addExtraChInfo info) =
        l.modifyLast fun e => (e.1, e.2 ++ [info]) := by
      simp [added, handle, hdone]
    rw [hadded, Halmac.step, handle, hdone]
    exact fun _ => ⟨hok, hcomplete.snoc info⟩

theorem FlagInv.clearChInfo (h : FlagInv s l) :
    FlagInv (step cfg s .clearChInfo) (added cfg s l .clearChInfo) := by
  rcases clearChInfo_cases s with ⟨hsame, hret⟩ | hdone
  · rw [added_refused (e := .clearChInfo) hret, Halmac.step, handle, hsame]
    exact h
  · rw [Halmac.step, handle, hdone]
    intro hsome
    simp [ChSwInfo.clear] at hsome

theorem FlagInv.ctrlChSwitch (h : FlagInv s l) (opt : ChSwitchOption) :
    FlagInv (ctrlChSwitch cfg env s opt).1 l := by
  have hswitched : Switched s (Halmac.ctrlChSwitch cfg env s opt) := ctrlChSwitch_switched opt
  rcases hswitched.ends with ⟨hsame, -⟩ | ⟨hbuf, -⟩
  · exact h.same hsame
  · intro hsome
    simp [hbuf] at hsome

theorem FlagInv.step (h : FlagInv s l) (hinv : ScanInv s l) (ev : Ev) (hok : FlagsOk ev) :
    FlagInv (step cfg s ev) (added cfg s l ev) := by
  have hkeep : ∀ {t : Adapter} {P : Prop} [Decidable P], FlagInv t l →
      FlagInv t (if P then l else l) := by
    intro t P _ hflag
    rwa [ite_self]
  have hother : ∀ {t : Adapter} {P : Prop} [Decidable P], ScanFrame s t →
      FlagInv t (if P then l else l) := fun hframe => hkeep (h.same hframe.same)
  cases ev with
  | updatePacket env pktId pkt => exact hother (scanFrame_updatePacket pktId pkt)
  | sendScanPacket env index pkt => exact hother (scanFrame_sendScanPacket index pkt)
  | dropScanPacket env option => exact hother (scanFrame_dropScanPacket option)
  | cfgParameter env param fullFifo => exact hother (scanFrame_cfgParameter param fullFifo)
  | clearChInfo => exact h.clearChInfo
  | addChInfo env info => exact h.addChInfo hinv env hok
  | addExtraChInfo info => exact h.addExtraChInfo hok
  | ctrlChSwitch env opt => exact hkeep (h.ctrlChSwitch opt)
  | h2cAck f seq rc oa va => exact hother (scanFrame_getH2cAck f seq rc oa va)
  | scanRpt rc => exact hother ⟨rfl, rfl⟩

theorem ScanInv.run (h : ScanInv s l) (es : List Ev) :
    ScanInv (run (Halmac.step cfg) s es) (addedAlong cfg s l es) := by
  induction es generalizing s l with
  | nil => exact h
  | cons ev es ih => exact ih (h.step ev)

theorem FlagInv.run (h : FlagInv s l) (hinv : ScanInv s l) {es : List Ev}
    (hok : ∀ ev ∈ es, FlagsOk ev) :
    FlagInv (run (Halmac.step cfg) s es) (addedAlong cfg s l es) := by
  induction es generalizing s l with
  | nil => exact h
  | cons ev es ih =>
    exact ih (h.step hinv ev (hok ev (by simp))) (hinv.step ev) fun e he => hok e (by simp [he])

end Steps

/-- With a buffer, what is used and what is left make up its size, and the next record goes behind
the list. -/
def Counted (t : Adapter) : Prop :=
  t.chSw.buf.isSome = true → t.chSw.totalSize + t.chSw.avlBufSize = t.chSw.bufSize ∧
    t.chSw.bufWptr = t.chSw.totalSize

/-- The list that a switch downloads decodes to the channels of `l`, each with its extra records. -/
def Decodes (cfg : Cfg) (t : Adapter) (l : List ChEntry) : Prop :=
  ∀ env opt pre addr data, opt.switchEn = 1 →
    (handle cfg t (.ctrlChSwitch env opt)).1.log = pre ++ t.log →
    Log.page .scan addr data ∈ pre →
      data.length = t.chSw.totalSize ∧ l.length = t.chSw.chNum ∧
        decodeList data.length data = some (l.map ChEntry.fields)

section Results

variable {cfg : Cfg} {s t : Adapter} {l : List ChEntry}

theorem ScanInv.counted (h : ScanInv t l) : Counted t := by
  intro hsome
  obtain ⟨buf, hbuf⟩ := Option.isSome_iff_exists.1 hsome
  obtain ⟨hlisted, -⟩ := h.listed buf hbuf
  exact ⟨hlisted.size, hlisted.wptr⟩

theorem length_le_records (l : List ChEntry) : l.length ≤ (l.flatMap ChEntry.records).length := by
  induction l with
  | nil => simp
  | cons e l ih =>
    rw [List.flatMap_cons, List.length_append, ChEntry.records, List.length_append,
      ChInfo.length_record, List.length_cons]
    omega

theorem ScanInv.decodes (h : ScanInv t l) (hflag : FlagInv t l) (hlast : t.chSw.extraInfoEn = 0) :
    Decodes cfg t l := by
  intro env opt pre addr data hen hlog hmem
  have hcnstr : t.scanCnstr = .cnstr := by
    have hne : (Halmac.ctrlChSwitch cfg env t opt).1.log ≠ t.log := by
      intro hsame
      have hnil : pre = [] := List.append_left_eq_self.1 (hlog.symm.trans hsame)
      simp [hnil] at hmem
    exact ctrlChSwitch_downloads hen hne
  obtain ⟨buf, hbuf⟩ : ∃ buf, t.chSw.buf = some buf := by
    by_contra hno
    refine (h.free ?_).1 hcnstr
    exact Option.eq_none_iff_forall_ne_some.2 fun buf hbuf => hno ⟨buf, hbuf⟩
  obtain ⟨hlisted, -⟩ := h.listed buf hbuf
  have hclosed : ∀ e ∈ l, e.Closed := by
    have hcomplete := (hflag (by simp [hbuf])).2
    rw [hlast] at hcomplete
    exact hcomplete.closed
  have hswitched : Switched t (Halmac.ctrlChSwitch cfg env t opt) := ctrlChSwitch_switched opt
  obtain ⟨pre', hlog', hpages⟩ := hswitched.pages
  obtain rfl : pre = pre' := List.append_cancel_right (hlog.symm.trans hlog')
  have hdata := hpages addr data hmem
  rw [hlisted.list hbuf] at hdata
  rw [hdata]
  exact ⟨hlisted.total.symm, hlisted.num.symm, decodeList_records hclosed (length_le_records l)⟩

/-- A call that fails leaves the list, unless it is a switch whose command was not sent. -/
theorem handle_error (cfg : Cfg) (t : Adapter) (ev : Ev)
    (herr : (handle cfg t ev).2.accepted = false)
    (hsent : ∀ env opt, ev = .ctrlChSwitch env opt → (handle cfg t ev).2 ≠ .sendH2cFail) :
    SameList t.chSw (handle cfg t ev).1.chSw := by
  have herr' : (handle cfg t ev).2 ≠ .success := by
    intro hok
    simp [hok, Ret.accepted] at herr
  have hsame : ∀ {u : Adapter}, ScanFrame t u → SameList t.chSw u.chSw :=
    fun hframe => hframe.same.list
  cases ev with
  | updatePacket env pktId pkt => exact hsame (scanFrame_updatePacket pktId pkt)
  | sendScanPacket env index pkt => exact hsame (scanFrame_sendScanPacket index pkt)
  | dropScanPacket env option => exact hsame (scanFrame_dropScanPacket option)
  | cfgParameter env param fullFifo => exact hsame (scanFrame_cfgParameter param fullFifo)
  | clearChInfo =>
    rcases clearChInfo_cases t with ⟨heq, -⟩ | hdone
    · rw [handle, heq]
      exact SameList.refl _
    · rw [handle, hdone] at herr'
      exact absurd rfl herr'
  | addChInfo env info =>
    rcases addChInfo_cases cfg env t info with ⟨heq, -⟩ | ⟨-, c, buf, -, -, -, hdone⟩
    · rw [handle, heq]
      exact SameList.refl _
    · rw [handle, hdone] at herr'
      exact absurd rfl herr'
  | addExtraChInfo info =>
    rcases addExtraChInfo_cases t info with ⟨heq, -⟩ | ⟨buf, -, -, -, hdone⟩
    · rw [handle, heq]
      exact SameList.refl _
    · rw [handle, hdone] at herr'
      exact absurd rfl herr'
  | ctrlChSwitch env opt =>
    have hswitched : Switched t (ctrlChSwitch cfg env t opt) := ctrlChSwitch_switched opt
    rcases hswitched.ends with ⟨hlist, -⟩ | ⟨-, -, hret⟩
    · exact hlist.list
    · rcases hret with hret | hret
      · exact absurd hret herr'
      · exact absurd hret (hsent env opt rfl)
  | h2cAck f seq rc oa va => exact hsame (scanFrame_getH2cAck f seq rc oa va)
  | scanRpt rc => exact hsame ⟨rfl, rfl⟩

end Results

/-- In every state of a run from a list that is not there yet: the counters fit the buffer, a call
that fails leaves the list (but for a switch whose command could not be sent), and, with flags that
are 0 or 1, a list whose last record announces no extra record decodes to the channels added. -/
theorem scan_list_decodes (cfg : Cfg) (s : Adapter) (es : List Ev) (hbuf : s.chSw.buf = none)
    (hidle : s.scanCnstr = .idle) :
    Counted (run (step cfg) s es) ∧
      (∀ ev, (handle cfg (run (step cfg) s es) ev).2.accepted = false →
        (∀ env opt, ev = .ctrlChSwitch env opt →
          (handle cfg (run (step cfg) s es) ev).2 ≠ .sendH2cFail) →
        SameList (run (step cfg) s es).chSw (handle cfg (run (step cfg) s es) ev).1.chSw) ∧
      ((∀ ev ∈ es, FlagsOk ev) → (run (step cfg) s es).chSw.extraInfoEn = 0 →
        Decodes cfg (run (step cfg) s es) (addedAlong cfg s [] es)) := by
  have h0 : ScanInv s [] :=
    ⟨fun buf hsome => absurd hsome (by simp [hbuf]), fun _ => ⟨by simp [hidle], fun _ => rfl⟩⟩
  have hflag0 : FlagInv s [] := fun hsome => absurd hsome (by simp [hbuf])
  exact ⟨(h0.run es).counted, handle_error cfg _,
    fun hok hlast => (h0.run es).decodes (hflag0.run h0 hok) hlast⟩

/-- Extra information of three bytes, with nothing behind it. -/
def exampleExtra : ChExtraInfo := ⟨0, 2, 3, fun i => BitVec.ofNat 8 i⟩

/-- Two channels, the first with an extra record. -/
def exampleScan : List Ev :=
  [.clearChInfo, .addChInfo (exampleEnv true) { exampleChannel with extraInfo := 1 },
    .addExtraChInfo exampleExtra, .addChInfo (exampleEnv true) exampleChannel]

theorem scan_list_decodes_example :
    Counted (run (step exampleCfg) idleAdapter exampleScan) ∧
      Decodes exampleCfg (run (step exampleCfg) idleAdapter exampleScan)
        (addedAlong exampleCfg idleAdapter [] exampleScan) ∧
      (run (step exampleCfg) idleAdapter exampleScan).chSw.chNum = 2 := by
  have hall := scan_list_decodes exampleCfg idleAdapter exampleScan rfl rfl
  refine ⟨hall.1, hall.2.2 ?_ (by decide), by decide⟩
  intro ev hev
  simp only [exampleScan, List.mem_cons, List.not_mem_nil, or_false] at hev
  rcases hev with rfl | rfl | rfl | rfl
  · trivial
  · exact Or.inr rfl
  · exact Or.inl rfl
  · exact Or.inl rfl

/-- A list cut behind the announcement of an extra record. -/
def cutScan : List Ev :=
  [.clearChInfo, .addChInfo (exampleEnv true) { exampleChannel with extraInfo := 1 }]

/-- An extra record behind a flag of 2. -/
def oddScan : List Ev :=
  [.clearChInfo, .addChInfo (exampleEnv true) { exampleChannel with extraInfo := 2 },
    .addExtraChInfo exampleExtra]

/-- A switch whose command is not sent drops the list, a list may be downloaded that is cut behind
the announcement of an extra record, and a flag other than 0 and 1 takes an extra record that it
does not announce. -/
theorem scan_list_fails :
    idleAdapter.chSw.buf = none ∧ idleAdapter.scanCnstr = .idle ∧
      (∃ env opt, (handle exampleCfg (run (step exampleCfg) idleAdapter exampleScan)
            (.ctrlChSwitch env opt)).2.accepted = false ∧
        ¬ SameList (run (step exampleCfg) idleAdapter exampleScan).chSw
          (handle exampleCfg (run (step exampleCfg) idleAdapter exampleScan)
            (.ctrlChSwitch env opt)).1.chSw) ∧
      ¬ Decodes exampleCfg (run (step exampleCfg) idleAdapter cutScan)
        (addedAlong exampleCfg idleAdapter [] cutScan) ∧
      ¬ Decodes exampleCfg (run (step exampleCfg) idleAdapter oddScan)
        (addedAlong exampleCfg idleAdapter [] oddScan) := by
  refine ⟨rfl, rfl, ⟨{ exampleEnv true with h2c := false }, exampleSwitch, by decide, ?_⟩, ?_, ?_⟩
  · intro hsame
    have hnum := congrArg ChSwInfo.chNum hsame
    exact absurd hnum (by decide)
  · intro hdecodes
    have hcut := (hdecodes (exampleEnv true) exampleSwitch _ _ _ rfl (List.append_nil _).symm
      (List.mem_cons_of_mem _ List.mem_cons_self)).2.2
    exact absurd hcut (by decide)
  · intro hdecodes
    have hodd := (hdecodes (exampleEnv true) exampleSwitch _ _ _ rfl (List.append_nil _).symm
      (List.mem_cons_of_mem _ List.mem_cons_self)).2.2
    exact absurd hodd (by decide)

end Rtl8821cu.Halmac
