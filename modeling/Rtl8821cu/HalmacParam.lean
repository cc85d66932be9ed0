import Rtl8821cu.HalmacLock

/-! Batches of parameters: every record stays in its buffer and reaches the firmware once, in the
order of the calls, when a buffer has room for a record and a TX descriptor and its records can be
counted in 16 bits. -/
namespace Rtl8821cu.Halmac
open LeWord Store Run

def Param.record (p : Param) : List (BitVec 8) :=
  bytes (p.head 0) ++ if p.cmd.isWrite then bytes p.value ++ bytes p.msk else List.replicate 8 0

@[simp] theorem Param.length_record (p : Param) : p.record.length = 12 := by
  unfold Param.record
  split <;> simp

theorem length_records (l : List Param) : (l.flatMap Param.record).length = 12 * l.length := by
  induction l with
  | nil => rfl
  | cons p l ih =>
    rw [List.flatMap_cons, List.length_append, ih, Param.length_record, List.length_cons]
    omega

/-- The buffer holds the records of `cur` and their sums. -/
structure Records (info : CfgParamInfo) (cur : List Param) : Prop where
  num : info.num = cur.length
  holds : ∃ buf, info.buf = some buf ∧ HoldsAt buf 0 (cur.flatMap Param.record)
  value : info.valueAccum = (cur.map Param.valueTerm).sum
  offset : info.offsetAccum = (cur.map Param.offsetTerm).sum

theorem Records.records {info : CfgParamInfo} {cur : List Param} (h : Records info cur) :
    info.records = cur.flatMap Param.record := by
  obtain ⟨buf, hbuf, hholds⟩ := h.holds
  have hload := load_of_holdsAt hholds
  rw [length_records, Nat.mul_comm] at hload
  rw [CfgParamInfo.records, hbuf, h.num]
  exact hload

/-- The sizes a buffer of parameters may have: room for a record and a TX descriptor, and records
that 16 bits can count. -/
def GoodSize (size : BitVec 32) : Prop := 60 ≤ size.toNat ∧ size.toNat ≤ 786480

/-- A buffer with the records of `cur`, zero behind them. -/
structure Filled (info : CfgParamInfo) (cur : List Param) : Prop extends Records info cur where
  size : GoodSize info.bufSize
  wptr : info.bufWptr = 12 * cur.length
  avl : info.avlBufSize.toNat + 12 * cur.length = info.bufSize.toNat
  fits : 12 * cur.length + 48 ≤ info.bufSize.toNat
  zero : ∀ buf, info.buf = some buf → ∀ i, 12 * cur.length ≤ i → i < info.bufSize.toNat → buf i = 0

/-- Another record fits. -/
def HasRoom (info : CfgParamInfo) (cur : List Param) : Prop :=
  cur = [] ∨ 12 * cur.length + 61 ≤ info.bufSize.toNat

theorem filled_fresh {size : BitVec 32} (hsize : GoodSize size) (fullFifo : BitVec 8)
    (mem : ℕ → BitVec 8) : Filled (CfgParamInfo.fresh size fullFifo mem) [] where
  num := rfl
  holds := ⟨_, rfl, holdsAt_nil _ _⟩
  value := rfl
  offset := rfl
  size := hsize
  wptr := rfl
  avl := rfl
  fits := by
    have hle := hsize.1
    simp only [CfgParamInfo.fresh, List.length_nil]
    omega
  zero := by
    rintro buf hbuf i - hi
    obtain rfl : _ = buf := Option.some.inj hbuf
    exact if_pos hi

section Add

variable {s : Adapter} {info : CfgParamInfo} {cur : List Param} {param : Param}

theorem Param.length_written_le (param : Param) (buf : ℕ → BitVec 8) (wptr : ℕ) :
    (param.written buf wptr).length ≤ 12 := by
  unfold Param.written
  split <;> simp

theorem Filled.written_le (h : Filled info cur) (hroom : HasRoom info cur) (param : Param)
    (buf : ℕ → BitVec 8) : info.bufWptr + (param.written buf info.bufWptr).length ≤
      info.bufSize.toNat := by
  have hsize := h.size.1
  have hlen := param.length_written_le buf info.bufWptr
  rw [h.wptr] at hlen ⊢
  rcases hroom with rfl | hroom
  · simp only [List.length_nil, Nat.mul_zero] at hlen ⊢
    omega
  · omega

/-- Zero bytes where a record goes: it is written as it is over an empty word. -/
theorem wordAt_zero {buf : ℕ → BitVec 8} {a : ℕ} (h : ∀ i, a ≤ i → i < a + 4 → buf i = 0) :
    wordAt buf a = 0 := by
  rw [wordAt, h a (by omega) (by omega), h (a + 1) (by omega) (by omega),
    h (a + 2) (by omega) (by omega), h (a + 3) (by omega) (by omega)]
  decide

/-- The record of a parameter in a stretch of zeros. -/
theorem holdsAt_written {buf : ℕ → BitVec 8} {a : ℕ} (h : ∀ i, a ≤ i → i < a + 12 → buf i = 0)
    (param : Param) : HoldsAt (store buf a (param.written buf a)) a param.record := by
  have hword : wordAt buf a = 0 := wordAt_zero fun i hi hi' => h i hi (by omega)
  unfold Param.written Param.record
  rw [hword]
  split
  · rw [List.append_assoc]
    exact holdsAt_store _ _ _
  · rw [holdsAt_append]
    refine ⟨holdsAt_store _ _ _, holdsAt_replicate fun i hi hi' => ?_⟩
    simp only [length_bytes] at hi hi'
    rw [store_of_ge _ _ (by simpa using hi)]
    exact h i (by omega) (by omega)

theorem addParamBuf_param (s : Adapter) (param : Param) {buf : ℕ → BitVec 8}
    (hbuf : s.param.buf = some buf) :
    addParamBuf s param =
      { s with
        param := { s.param with
          buf := some (store buf s.param.bufWptr (param.written buf s.param.bufWptr))
          valueAccum := s.param.valueAccum + param.valueTerm
          offsetAccum := s.param.offsetAccum + param.offsetTerm }
        overrun := s.overrun || decide (s.param.bufSize.toNat <
          s.param.bufWptr + (param.written buf s.param.bufWptr).length) } := by
  simp [addParamBuf, hbuf]

/-- A parameter that is not the end goes behind the records that are there. -/
theorem Filled.withParam (h : Filled info cur) (hroom : HasRoom info cur)
    (hend : param.cmd ≠ .finish) :
    Filled (withParam s info param).param (cur ++ [param]) ∧
      (withParam s info param).overrun = s.overrun := by
  obtain ⟨buf, hbuf, hholds⟩ := h.holds
  have hsize := h.size
  have hle := h.written_le hroom param buf
  have hwptr := h.wptr
  have havl := h.avl
  have hfits : 12 * cur.length + 60 ≤ info.bufSize.toNat := by
    rcases hroom with rfl | hroom
    · have := hsize.1
      simpa using this
    · omega
  have hlen := length_records cur
  have hspace : ∀ i, info.bufWptr ≤ i → i < info.bufWptr + 12 → buf i = 0 := by
    intro i hi hi'
    exact h.zero buf hbuf i (by omega) (by omega)
  have hw12 := param.length_written_le buf info.bufWptr
  unfold Halmac.withParam
  rw [addParamBuf_param { s with param := info, cfgCnstr := .cnstr } param hbuf]
  simp only [beq_iff_eq, hend, if_false, CfgParamInfo.next]
  refine ⟨⟨⟨?_, ⟨_, rfl, ?_⟩, ?_, ?_⟩, hsize, ?_, ?_, ?_, ?_⟩, ?_⟩
  · simp [h.num]
  · rw [List.flatMap_append, holdsAt_append, hlen]
    refine ⟨hholds.store_behind (by omega) _, ?_⟩
    rw [Nat.zero_add, ← hwptr]
    simpa using holdsAt_written hspace param
  · simp [h.value]
  · simp [h.offset]
  · simp only [hwptr, cfgParamH2cInfoSize, List.length_append, List.length_singleton]
    omega
  · simp only [List.length_append, List.length_singleton, cfgParamH2cInfoSize]
    have hsub : (info.avlBufSize - 12#32).toNat = info.avlBufSize.toNat - 12 := by bv_omega
    rw [hsub]
    omega
  · simp only [List.length_append, List.length_singleton]
    omega
  · rintro b hb i hi hi'
    obtain rfl := Option.some.inj hb
    simp only [List.length_append, List.length_singleton] at hi
    rw [store_of_ge _ _ (by omega)]
    exact h.zero buf hbuf i (by omega) hi'
  · simp [Nat.not_lt.2 hle]

/-- The end of a batch leaves its records. -/
theorem Filled.withEnd (h : Filled info cur) (hroom : HasRoom info cur)
    (hend : param.cmd = .finish) :
    Records (Halmac.withParam s info param).param cur ∧
      (Halmac.withParam s info param).overrun = s.overrun := by
  obtain ⟨buf, hbuf, hholds⟩ := h.holds
  have hle := h.written_le hroom param buf
  unfold Halmac.withParam
  rw [addParamBuf_param { s with param := info, cfgCnstr := .cnstr } param hbuf]
  simp only [hend, beq_self_eq_true, if_true]
  refine ⟨⟨h.num, ⟨_, rfl, ?_⟩, ?_, ?_⟩, ?_⟩
  · refine hholds.store_behind ?_ _
    rw [length_records, h.wptr]
    omega
  · simp [h.value, Param.valueTerm, hend, ParamCmd.isWrite]
  · simp [h.offset, Param.offsetTerm, hend, ParamCmd.isWrite]
  · simp [Nat.not_lt.2 hle]

end Add

/-- What the log tells of batches: the records that were downloaded and the numbers announced. -/
def Log.batch : Log → Option (List (BitVec 8) ⊕ BitVec 16)
  | .page .cfgParam _ data => some (.inl data)
  | .h2c .cfgParam _ _ _ (.cfgParam num _ _) => some (.inr num)
  | _ => none

/-- The downloads and announcements of batches, the first one first. -/
def sentBatches (log : List Log) : List (List (BitVec 8) ⊕ BitVec 16) :=
  (log.filterMap Log.batch).reverse

/-- The downloads and announcements that belong to batches of parameters. -/
def batchesOf (parts : List (List Param)) : List (List (BitVec 8) ⊕ BitVec 16) :=
  parts.flatMap fun part =>
    [.inl (part.flatMap Param.record), .inr (BitVec.ofNat 16 part.length)]

/-- Nothing of the parameters is changed. -/
structure SameParam (s t : Adapter) : Prop where
  param : t.param = s.param
  overrun : t.overrun = s.overrun
  sent : sentBatches t.log = sentBatches s.log
  proc : t.proc .cfgParam = .sending → s.proc .cfgParam = .sending

section Frame

variable {s t u : Adapter} {f : Feature}

theorem SameParam.refl (s : Adapter) : SameParam s s := ⟨rfl, rfl, rfl, id⟩

theorem SameParam.trans (h : SameParam s t) (h' : SameParam t u) : SameParam s u :=
  ⟨h'.param.trans h.param, h'.overrun.trans h.overrun, h'.sent.trans h.sent,
    fun hp => h.proc (h'.proc hp)⟩

theorem SameParam.congr (h : SameParam s t) (hparam : u.param = t.param)
    (hoverrun : u.overrun = t.overrun) (hlog : u.log = t.log) (hproc : u.proc = t.proc) :
    SameParam s u :=
  ⟨hparam.trans h.param, hoverrun.trans h.overrun, hlog ▸ h.sent, hproc ▸ h.proc⟩

theorem sameParam_setProc (s : Adapter) {p : ProcStatus} (hp : f ≠ .cfgParam ∨ p ≠ .sending) :
    SameParam s (s.setProc f p) := by
  refine ⟨rfl, rfl, rfl, fun hs => ?_⟩
  by_cases hf : f = .cfgParam
  · subst hf
    rw [Adapter.setProc_proc_self] at hs
    rcases hp with hp | hp
    · exact absurd rfl hp
    · exact absurd hs hp
  · rwa [Adapter.setProc_proc_ne s (Ne.symm hf)] at hs

theorem sameParam_dlRsvdPage (s : Adapter) (env : Env) (hf : f ≠ .cfgParam) (addr : BitVec 16)
    (data : List (BitVec 8)) : SameParam s (s.dlRsvdPage env f addr data).1 := by
  unfold Adapter.dlRsvdPage
  split
  · exact SameParam.refl s
  · split
    · exact SameParam.refl s
    · refine ⟨rfl, rfl, ?_, id⟩
      cases f <;> first | exact absurd rfl hf | rfl

theorem sameParam_sendH2c (s : Adapter) (env : Env) (hf : f ≠ .cfgParam) (ack nlo : Bool)
    (cmd : H2cCmd) : SameParam s (s.sendH2c env f ack nlo cmd).1 := by
  unfold Adapter.sendH2c
  dsimp only
  split
  · refine SameParam.trans (t := s.setProc f .idle) (sameParam_setProc s (Or.inl hf)) ?_
    exact ⟨rfl, rfl, rfl, id⟩
  · refine ⟨rfl, rfl, ?_, id⟩
    cases f <;> first | exact absurd rfl hf | rfl

end Frame

section Other

variable {cfg : Cfg} {s : Adapter} {env : Env}

theorem sameParam_updatePacket (pktId : BitVec 32) (pkt : List (BitVec 8)) :
    SameParam s (updatePacket cfg env s pktId pkt).1 := by
  unfold updatePacket
  split
  · exact SameParam.refl s
  split
  · exact SameParam.refl s
  split
  · exact SameParam.refl s
  split
  · exact SameParam.refl s
  dsimp only
  have hproc := sameParam_setProc s (f := .updatePkt) (p := .sending) (Or.inl (by decide))
  have hdl := sameParam_dlRsvdPage (s.setProc .updatePkt .sending) env (f := .updatePkt)
    (by decide) cfg.rsvdH2cInfoAddr pkt
  generalize (s.setProc .updatePkt .sending).dlRsvdPage env .updatePkt cfg.rsvdH2cInfoAddr pkt = r
    at hdl ⊢
  split
  · rename_i t
    have hsend := sameParam_sendH2c t env (f := .updatePkt) (by decide) (!packetInNlo pktId)
      (packetInNlo pktId) (.updatePkt (BitVec.ofNat 16 (pkt.length + txdescSize.toNat))
        ((getRealPktId pktId).setWidth 8) (pgLoc cfg cfg.rsvdH2cInfoAddr))
    generalize t.sendH2c env .updatePkt _ _ _ = r' at hsend ⊢
    have hall := (hproc.trans hdl).trans hsend
    split
    · split
      · exact (hall.trans (sameParam_setProc _ (f := .updatePkt) (p := .done)
          (Or.inl (by decide)))).congr rfl rfl rfl rfl
      · exact hall.congr rfl rfl rfl rfl
    · exact hall
  · exact hproc.trans hdl

theorem sameParam_sendScanPacket (index : BitVec 8) (pkt : List (BitVec 8)) :
    SameParam s (sendScanPacket cfg env s index pkt).1 := by
  unfold sendScanPacket
  split
  · exact SameParam.refl s
  split
  · exact SameParam.refl s
  split
  · exact SameParam.refl s
  split
  · exact SameParam.refl s
  dsimp only
  have hproc := sameParam_setProc s (f := .scanPkt) (p := .sending) (Or.inl (by decide))
  have hdl := sameParam_dlRsvdPage (s.setProc .scanPkt .sending) env (f := .scanPkt)
    (by decide) cfg.rsvdH2cInfoAddr pkt
  generalize (s.setProc .scanPkt .sending).dlRsvdPage env .scanPkt cfg.rsvdH2cInfoAddr pkt = r
    at hdl ⊢
  split
  · exact (hproc.trans hdl).trans (sameParam_sendH2c _ env (by decide) _ _ _)
  · exact hproc.trans hdl

theorem sameParam_dropScanPacket (option : DropPktOption) :
    SameParam s (dropScanPacket cfg env s option).1 := by
  unfold dropScanPacket
  split
  · exact SameParam.refl s
  split
  · exact SameParam.refl s
  split
  · exact SameParam.refl s
  exact (sameParam_setProc s (Or.inl (by decide))).trans
    (sameParam_sendH2c _ env (by decide) _ _ _)

theorem sameParam_clearChInfo : SameParam s (clearChInfo s).1 := by
  unfold clearChInfo
  split
  · exact SameParam.refl s
  · split <;> exact ⟨rfl, rfl, rfl, id⟩

theorem sameParam_addChInfoBuf (buf : ℕ → BitVec 8) (info : ChInfo) :
    SameParam s (addChInfoBuf s buf info).1 := by
  unfold addChInfoBuf
  split
  · exact SameParam.refl s
  · split
    · exact SameParam.refl s
    · split <;> exact ⟨rfl, rfl, rfl, id⟩

theorem sameParam_addChInfo (info : ChInfo) : SameParam s (addChInfo cfg env s info).1 := by
  unfold addChInfo
  split
  · exact SameParam.refl s
  · split
    · exact SameParam.refl s
    · split
      · exact sameParam_addChInfoBuf _ info
      · split
        · exact SameParam.refl s
        · exact SameParam.trans (t := { s with chSw := s.chSw.fresh env.mem })
            ⟨rfl, rfl, rfl, id⟩ (sameParam_addChInfoBuf _ info)

theorem sameParam_addExtraChInfo (info : ChExtraInfo) : SameParam s (addExtraChInfo s info).1 := by
  unfold addExtraChInfo
  split
  · exact SameParam.refl s
  · split
    · exact SameParam.refl s
    · split
      · exact SameParam.refl s
      · split
        · exact SameParam.refl s
        · split <;> exact ⟨rfl, rfl, rfl, id⟩

theorem sameParam_sendChSwitch (opt : ChSwitchOption) (pgAddr : BitVec 16) :
    SameParam s (sendChSwitch cfg env s opt pgAddr).1 := by
  unfold sendChSwitch
  dsimp only
  have hsend := sameParam_sendH2c s env (f := .scan) (by decide) (!(opt.nloEn == 1))
    (opt.nloEn == 1) (.chSwitch opt (BitVec.ofNat 8 s.chSw.chNum) (pgLoc cfg pgAddr)
      (BitVec.ofNat 16 s.chSw.totalSize))
  generalize s.sendH2c env .scan _ _ _ = r at hsend ⊢
  split
  · exact hsend.trans ⟨rfl, rfl, rfl, id⟩
  · exact hsend.trans ⟨rfl, rfl, rfl, id⟩

theorem sameParam_scanRptAndSend (opt : ChSwitchOption) (pgAddr : BitVec 16) :
    SameParam s (scanRptAndSend cfg env s opt pgAddr).1 := by
  unfold scanRptAndSend
  dsimp only
  split
  · split
    · exact (SameParam.refl s).congr rfl rfl rfl rfl
    · refine SameParam.trans ?_ (sameParam_sendChSwitch opt pgAddr)
      exact (SameParam.refl s).congr rfl rfl rfl rfl
  · refine SameParam.trans ?_ (sameParam_sendChSwitch opt pgAddr)
    exact (SameParam.refl s).congr rfl rfl rfl rfl

theorem sameParam_procCtrlChSwitch (opt : ChSwitchOption) :
    SameParam s (procCtrlChSwitch cfg env s opt).1 := by
  unfold procCtrlChSwitch
  split
  · exact SameParam.refl s
  rename_i state _
  have hproc : SameParam s (({ s with scanCnstr := state } : Adapter).setProc .scan .sending) :=
    SameParam.trans (t := { s with scanCnstr := state }) ⟨rfl, rfl, rfl, id⟩
      (sameParam_setProc _ (Or.inl (by decide)))
  generalize ({ s with scanCnstr := state } : Adapter).setProc .scan .sending = t at hproc ⊢
  dsimp only
  split
  · exact hproc.trans (sameParam_scanRptAndSend opt _)
  · have hdl := sameParam_dlRsvdPage t env (f := .scan) (by decide)
      (cfg.rsvdH2cInfoAddr + t.usedPage.setWidth 16) t.chSw.list
    generalize t.dlRsvdPage env .scan _ t.chSw.list = r at hdl ⊢
    split
    · refine SameParam.trans ?_ (sameParam_scanRptAndSend opt _)
      exact (hproc.trans hdl).congr rfl rfl rfl rfl
    · exact hproc.trans hdl

theorem sameParam_ctrlChSwitch (opt : ChSwitchOption) :
    SameParam s (ctrlChSwitch cfg env s opt).1 := by
  unfold ctrlChSwitch
  split
  · exact SameParam.refl s
  split
  · exact SameParam.refl s
  split
  · exact SameParam.refl s
  dsimp only
  have hidle : SameParam s (if opt.switchEn == 0 then s.setProc .scan .idle else s) := by
    split
    · exact sameParam_setProc s (Or.inl (by decide))
    · exact SameParam.refl s
  generalize (if opt.switchEn == 0 then s.setProc .scan .idle else s) = t at hidle ⊢
  generalize (if (opt.switchEn == 1) = true then CnstrState.cnstr else .bufClr) = want
  split
  · exact hidle
  · split
    · exact hidle
    · exact hidle.trans (sameParam_procCtrlChSwitch opt)

theorem sameParam_getH2cAck (f : Feature) (seq rc : BitVec 8) (oa va : BitVec 32) :
    SameParam s (getH2cAck s f seq rc oa va).1 := by
  have hlog : SameParam s { s with log := .acked f seq :: s.log } := ⟨rfl, rfl, rfl, id⟩
  unfold getH2cAck
  dsimp only
  split
  · exact hlog
  · split
    · exact hlog
    · refine hlog.trans (sameParam_setProc _ (Or.inr ?_))
      split
      · split <;> decide
      · decide

theorem sameParam_getScanRpt (rc : BitVec 8) : SameParam s (getScanRpt s rc).1 :=
  sameParam_setProc s (Or.inl (by decide))

end Other

section Send

variable {cfg : Cfg} {s : Adapter} {env : Env}

theorem sentBatches_cons (x : Log) (log : List Log) :
    sentBatches (x :: log) = sentBatches log ++ x.batch.toList := by
  cases h : x.batch <;> simp [sentBatches, h]

/-- The records of `s` were downloaded and announced, and its buffer is freed. -/
structure Sent (s t : Adapter) : Prop where
  param : t.param = s.param.free
  overrun : t.overrun = s.overrun
  sent : sentBatches t.log =
    sentBatches s.log ++ [.inl s.param.records, .inr (BitVec.ofNat 16 s.param.num)]

theorem sendCfgParamH2c_sent (cfg : Cfg) (hcnstr : s.cfgCnstr = .cnstr)
    (hrec : s.param.records ≠ []) (hdl : env.dl = true) (hh2c : env.h2c = true) :
    (sendCfgParamH2c cfg env s).2 = .success ∧ Sent s (sendCfgParamH2c cfg env s).1 := by
  have hcnv : cnvCfgParamState s.cfgCnstr .h2cSent = some .h2cSent := by
    rw [hcnstr]
    rfl
  obtain ⟨t, ht⟩ : ∃ t, t =
      ({ s with cfgCnstr := .h2cSent } : Adapter).setProc .cfgParam .sending := ⟨_, rfl⟩
  have hparam : t.param = s.param := by
    rw [ht]
    rfl
  have hlog : t.log = s.log := by
    rw [ht]
    rfl
  have hover : t.overrun = s.overrun := by
    rw [ht]
    rfl
  have hsent : t.cfgCnstr = .h2cSent := by
    rw [ht]
    rfl
  have hidle : cnvCfgParamState t.cfgCnstr .idle = some .idle := by
    rw [hsent]
    rfl
  simp only [sendCfgParamH2c, hcnv]
  rw [← ht, dlRsvdPage_success _ _ _ (hparam ▸ hrec) hdl]
  simp only [Adapter.sendH2c, hh2c, Bool.not_true, Bool.false_eq_true, if_false, cfgParamH2cEnd,
    hidle]
  refine ⟨trivial, ?_, hover, ?_⟩
  · rw [hparam]
  · rw [sentBatches_cons, sentBatches_cons, hlog, hparam, List.append_assoc]
    rfl

end Send

/-- A parameter gets past the checks of `cfg_parameter_88xx`. -/
def TakesParam (cfg : Cfg) (s : Adapter) : Prop :=
  cfg.fwValidate = true ∧ 4 ≤ cfg.h2cVersion ∧ s.proc .cfgParam ≠ .sending ∧
    (s.cfgCnstr = .idle ∨ s.cfgCnstr = .cnstr)

/-- The download and the command of a complete batch succeed. -/
def BatchWorks (cfg : Cfg) (s : Adapter) : Ev → Prop
  | .cfgParameter env param fullFifo =>
    TakesParam cfg s → CompletesBatch cfg env s param fullFifo → env.dl = true ∧ env.h2c = true
  | _ => True

/-- A buffer that is allocated has room for a record and a TX descriptor, and no more records than
16 bits count. -/
def BufferFits (cfg : Cfg) (s : Adapter) : Ev → Prop
  | .cfgParameter env _ fullFifo =>
    TakesParam cfg s → s.param.buf = none →
      ∀ size, smartMalloc env.mallocs (cfgParamBufSize cfg fullFifo) = some size → GoodSize size
  | _ => True

/-- The parameters that an event puts into a batch: that of a call that was accepted, unless it is
the end. -/
def acceptedBy (cfg : Cfg) (s : Adapter) : Ev → List Param
  | .cfgParameter env param fullFifo =>
    if (cfgParameter cfg env s param fullFifo).2.accepted && param.cmd != .finish then [param]
    else []
  | _ => []

/-- The parameters accepted in a run, in the order of the calls. -/
def acceptedParams (cfg : Cfg) : Adapter → List Ev → List Param
  | _, [] => []
  | s, ev :: es => acceptedBy cfg s ev ++ acceptedParams cfg (step cfg s ev) es

/-- The batches of `parts` were sent, and the records of `cur` are in the buffer. -/
structure Batched (s : Adapter) (parts : List (List Param)) (cur : List Param) : Prop where
  inside : s.overrun = false
  sent : sentBatches s.log = batchesOf parts
  count : ∀ part ∈ parts, part.length < 2 ^ 16
  free : s.param.buf = none → cur = []
  filled : s.param.buf.isSome = true → Filled s.param cur ∧ HasRoom s.param cur
  sums : s.proc .cfgParam = .sending → ∃ init part, parts = init ++ [part] ∧
    s.param.valueAccum = (part.map Param.valueTerm).sum ∧
    s.param.offsetAccum = (part.map Param.offsetTerm).sum

section Batch

variable {cfg : Cfg} {s t : Adapter} {env : Env} {parts : List (List Param)} {cur : List Param}

theorem Batched.same (h : Batched s parts cur) (hsame : SameParam s t) : Batched t parts cur where
  inside := hsame.overrun.trans h.inside
  sent := hsame.sent.trans h.sent
  count := h.count
  free := by
    rw [hsame.param]
    exact h.free
  filled := by
    rw [hsame.param]
    exact h.filled
  sums := by
    rw [hsame.param]
    exact fun hproc => h.sums (hsame.proc hproc)

/-- The buffer that a parameter goes to has the records so far, and room for one more. -/
theorem Batched.paramInfo (h : Batched s parts cur) {fullFifo : BitVec 8} {info : CfgParamInfo}
    (hinfo : paramInfo cfg env s fullFifo = some info)
    (hfits : s.param.buf = none →
      ∀ size, smartMalloc env.mallocs (cfgParamBufSize cfg fullFifo) = some size → GoodSize size) :
    Filled info cur ∧ HasRoom info cur := by
  unfold Halmac.paramInfo at hinfo
  split at hinfo
  · rename_i hsome
    obtain rfl := Option.some.inj hinfo
    exact h.filled hsome
  · rename_i hnone
    have hbuf : s.param.buf = none := by simpa using hnone
    obtain ⟨size, hsize, rfl⟩ := Option.map_eq_some_iff.1 hinfo
    obtain rfl := h.free hbuf
    exact ⟨filled_fresh (hfits hbuf size hsize) fullFifo env.mem, Or.inl rfl⟩

/-- The number of records that a buffer takes can be announced. -/
theorem HasRoom.count {info : CfgParamInfo} (hroom : HasRoom info cur)
    (hsize : GoodSize info.bufSize) : cur.length + 1 < 2 ^ 16 := by
  have hle := hsize.2
  rcases hroom with rfl | hroom
  · decide
  · omega

theorem batchesOf_snoc (parts : List (List Param)) (part : List Param) :
    batchesOf (parts ++ [part]) = batchesOf parts ++
      [.inl (part.flatMap Param.record), .inr (BitVec.ofNat 16 part.length)] := by
  simp [batchesOf]

/-- A batch that is sent. -/
theorem Batched.send (h : Batched s parts cur) {u : Adapter} {part : List Param}
    (hsent : sentBatches t.log = sentBatches s.log) (hover : t.overrun = false)
    (hrec : Records t.param part) (hcount : part.length < 2 ^ 16) (hsend : Sent t u) :
    Batched u (parts ++ [part]) [] where
  inside := hsend.overrun.trans hover
  sent := by
    rw [hsend.sent, hsent, h.sent, hrec.records, hrec.num, batchesOf_snoc]
  count := by
    intro part' hmem
    rcases List.mem_append.1 hmem with hmem | hmem
    · exact h.count part' hmem
    · rw [List.mem_singleton.1 hmem]
      exact hcount
  free _ := rfl
  filled := by
    rw [hsend.param]
    intro hsome
    simp [CfgParamInfo.free] at hsome
  sums := by
    rw [hsend.param]
    exact fun _ => ⟨parts, part, rfl, hrec.value, hrec.offset⟩

theorem withParam_log (s : Adapter) (info : CfgParamInfo) (param : Param) :
    (withParam s info param).log = s.log := by
  have hadd := addParamBuf_same { s with param := info, cfgCnstr := .cnstr } param
  unfold withParam
  split <;> exact hadd.log

theorem withParam_proc (s : Adapter) (info : CfgParamInfo) (param : Param) :
    (withParam s info param).proc = s.proc := by
  have hadd := addParamBuf_same { s with param := info, cfgCnstr := .cnstr } param
  unfold withParam
  split <;> exact hadd.proc

/-- After a record, the buffer counts as full or has room for another one. -/
theorem Filled.hasRoom {info : CfgParamInfo} (h : Filled info cur)
    (hlt : BitVec.ofNat 32 cfgParamH2cInfoSize < info.avlBufSize - txdescSize) :
    HasRoom info cur := by
  right
  have havl := h.avl
  have hfits := h.fits
  have hge : 48 ≤ info.avlBufSize.toNat := by omega
  have hsub : (info.avlBufSize - txdescSize).toNat = info.avlBufSize.toNat - 48 := by
    unfold txdescSize
    bv_omega
  have hlt' := BitVec.lt_def.1 hlt
  rw [hsub] at hlt'
  have h12 : (BitVec.ofNat 32 cfgParamH2cInfoSize).toNat = 12 := rfl
  omega

theorem withParam_sent {info : CfgParamInfo} {param : Param} {fullFifo : BitVec 8}
    (hinfo : Halmac.paramInfo cfg env s fullFifo = some info)
    (hnum : (withParam s info param).param.num ≠ 0) (hdl : env.dl = true)
    (hh2c : env.h2c = true) :
    ∃ u, sendCfgParamH2c cfg env (withParam s info param) = (u, .success) ∧
      Sent (withParam s info param) u := by
  obtain ⟨hok, hsend⟩ := sendCfgParamH2c_sent cfg (withParam_cfgCnstr s info param)
    (CfgParamInfo.records_ne_nil (withParam_buf s (paramInfo_buf hinfo) param) hnum) hdl hh2c
  exact ⟨_, Prod.ext rfl hok, hsend⟩

section Proc

variable {info : CfgParamInfo} {param : Param} {fullFifo : BitVec 8}

/-- The end of a batch: its records are sent, if it has any. -/
theorem Batched.procEnd (h : Batched s parts cur)
    (hcnstr : s.cfgCnstr = .idle ∨ s.cfgCnstr = .cnstr)
    (hinfo : Halmac.paramInfo cfg env s fullFifo = some info) (hfill : Filled info cur)
    (hroom : HasRoom info cur) (hend : param.cmd = .finish)
    (hworks : CompletesBatch cfg env s param fullFifo → env.dl = true ∧ env.h2c = true) :
    ∃ parts', Batched (procCfgParam cfg env s param fullFifo).1 parts' [] ∧
      parts'.flatten = parts.flatten ++ cur := by
  obtain ⟨hrec, hover⟩ := hfill.withEnd (s := s) hroom hend
  replace hover := hover.trans h.inside
  have hlog : sentBatches (withParam s info param).log = sentBatches s.log := by
    rw [withParam_log]
  rw [procCfgParam_eq hinfo hcnstr]
  simp only [hend, beq_self_eq_true, Bool.not_true, Bool.and_false, Bool.false_eq_true, if_false,
    if_true]
  split
  · rename_i hzero
    have hcur : cur = [] := by
      rw [hrec.num] at hzero
      simpa using hzero
    refine ⟨parts, ⟨hover, hlog.trans h.sent, h.count, fun _ => rfl, ?_, ?_⟩, by simp [hcur]⟩
    · intro hsome
      simp [Adapter.resetOfldFeature, Adapter.setProc, CfgParamInfo.free] at hsome
    · intro hp
      simp [Adapter.resetOfldFeature] at hp
  · rename_i hnum
    have hnum' : (withParam s info param).param.num ≠ 0 := by simpa using hnum
    have hcomplete : CompletesBatch cfg env s param fullFifo := by
      refine ⟨info, hinfo, ?_⟩
      rw [if_pos hend, ← withParam_num s info hend]
      exact hnum'
    obtain ⟨hdl, hh2c⟩ := hworks hcomplete
    obtain ⟨u, hu, hsend⟩ := withParam_sent hinfo hnum' hdl hh2c
    rw [hu]
    have hcount := hroom.count hfill.size
    exact ⟨parts ++ [cur], h.send hlog hover hrec (by omega) hsend, by simp⟩

/-- A record of a batch: it stays in the buffer, or fills it, and the batch is sent. -/
theorem Batched.procRecord (h : Batched s parts cur) (hproc : s.proc .cfgParam ≠ .sending)
    (hcnstr : s.cfgCnstr = .idle ∨ s.cfgCnstr = .cnstr)
    (hinfo : Halmac.paramInfo cfg env s fullFifo = some info) (hfill : Filled info cur)
    (hroom : HasRoom info cur) (hend : param.cmd ≠ .finish)
    (hworks : CompletesBatch cfg env s param fullFifo → env.dl = true ∧ env.h2c = true) :
    (procCfgParam cfg env s param fullFifo).2.accepted = true ∧
      ∃ parts' cur', Batched (procCfgParam cfg env s param fullFifo).1 parts' cur' ∧
        parts'.flatten ++ cur' = parts.flatten ++ cur ++ [param] := by
  obtain ⟨hfill', hover⟩ := hfill.withParam (s := s) hroom hend
  replace hover := hover.trans h.inside
  have hlog : sentBatches (withParam s info param).log = sentBatches s.log := by
    rw [withParam_log]
  have hnum : (withParam s info param).param.num ≠ 0 := by
    rw [hfill'.num]
    simp
  have hne : (param.cmd == ParamCmd.finish) = false := by simpa using hend
  rw [procCfgParam_eq hinfo hcnstr]
  simp only [hne, Bool.not_false, Bool.and_true, beq_iff_eq, hnum, if_false, decide_eq_true_eq]
  split
  · rename_i hlt
    refine ⟨rfl, parts, cur ++ [param], ⟨hover, hlog.trans h.sent, h.count, ?_, ?_, ?_⟩, by simp⟩
    · intro hnone
      have hsome := withParam_buf s (paramInfo_buf hinfo) param
      rw [hnone] at hsome
      exact absurd hsome (by decide)
    · exact fun _ => ⟨hfill', hfill'.hasRoom hlt⟩
    · intro hp
      rw [withParam_proc] at hp
      exact absurd hp hproc
  · rename_i hfull
    have hcomplete : CompletesBatch cfg env s param fullFifo := by
      refine ⟨info, hinfo, ?_⟩
      rw [if_neg hend, ← withParam_avl s info hend]
      exact hfull
    obtain ⟨hdl, hh2c⟩ := hworks hcomplete
    obtain ⟨u, hu, hsend⟩ := withParam_sent hinfo hnum hdl hh2c
    rw [hu]
    have hcount := hroom.count hfill.size
    exact ⟨rfl, parts ++ [cur ++ [param]], [],
      h.send hlog hover hfill'.toRecords (by simpa using hcount) hsend, by simp⟩

theorem Batched.procCfgParam (h : Batched s parts cur) (hproc : s.proc .cfgParam ≠ .sending)
    (hcnstr : s.cfgCnstr = .idle ∨ s.cfgCnstr = .cnstr) (param : Param) (fullFifo : BitVec 8)
    (hworks : CompletesBatch cfg env s param fullFifo → env.dl = true ∧ env.h2c = true)
    (hfits : s.param.buf = none →
      ∀ size, smartMalloc env.mallocs (cfgParamBufSize cfg fullFifo) = some size → GoodSize size) :
    ∃ parts' cur', Batched (procCfgParam cfg env s param fullFifo).1 parts' cur' ∧
      parts'.flatten ++ cur' = parts.flatten ++ cur ++
        (if (procCfgParam cfg env s param fullFifo).2.accepted && param.cmd != .finish then [param]
        else []) := by
  cases hinfo : Halmac.paramInfo cfg env s fullFifo with
  | none =>
    have hbuf : s.param.buf = none := by
      unfold Halmac.paramInfo at hinfo
      split at hinfo
      · exact absurd hinfo (by simp)
      · rename_i hnone
        simpa using hnone
    simp only [Halmac.procCfgParam, mallocCfgParamBuf_eq, hinfo]
    refine ⟨parts, cur, ⟨h.inside, h.sent, h.count, h.free, ?_, fun hp => absurd hp hproc⟩, ?_⟩
    · intro hsome
      simp [hbuf] at hsome
    · simp [Ret.accepted]
  | some info =>
    obtain ⟨hfill, hroom⟩ := h.paramInfo hinfo hfits
    by_cases hend : param.cmd = .finish
    · obtain ⟨parts', hbatch, hflat⟩ := h.procEnd hcnstr hinfo hfill hroom hend hworks
      exact ⟨parts', [], hbatch, by simp [hend, hflat]⟩
    · obtain ⟨hok, parts', cur', hbatch, hflat⟩ :=
        h.procRecord hproc hcnstr hinfo hfill hroom hend hworks
      exact ⟨parts', cur', hbatch, by simp [hend, hok, hflat]⟩

end Proc

theorem cfgParameter_takes (h : TakesParam cfg s) (param : Param) (fullFifo : BitVec 8) :
    cfgParameter cfg env s param fullFifo =
      procCfgParam cfg env (s.setProc .cfgParam .idle) param fullFifo := by
  obtain ⟨hfw, hver, hproc, hcnstr⟩ := h
  have hcnstr' : (s.cfgCnstr == .idle || s.cfgCnstr == .cnstr) = true := by simpa using hcnstr
  simp [cfgParameter, hfw, Nat.not_lt.2 hver, hproc, hcnstr']

theorem cfgParameter_refuses (h : ¬ TakesParam cfg s) (env : Env) (param : Param) (fullFifo : BitVec 8) :
    (cfgParameter cfg env s param fullFifo).1 = s ∧
      (cfgParameter cfg env s param fullFifo).2.accepted = false := by
  unfold cfgParameter
  split
  · exact ⟨rfl, rfl⟩
  split
  · exact ⟨rfl, rfl⟩
  split
  · exact ⟨rfl, rfl⟩
  split
  · exact ⟨rfl, rfl⟩
  rename_i hfw hver hproc hcnstr
  refine absurd ⟨by simpa using hfw, by omega, by simpa using hproc, ?_⟩ h
  simpa [or_iff_not_imp_left] using hcnstr

theorem Batched.cfgParameter (h : Batched s parts cur) (param : Param) (fullFifo : BitVec 8)
    (hworks : BatchWorks cfg s (.cfgParameter env param fullFifo))
    (hfits : BufferFits cfg s (.cfgParameter env param fullFifo)) :
    ∃ parts' cur', Batched (cfgParameter cfg env s param fullFifo).1 parts' cur' ∧
      parts'.flatten ++ cur' = parts.flatten ++ cur ++
        acceptedBy cfg s (.cfgParameter env param fullFifo) := by
  by_cases htakes : TakesParam cfg s
  · have hidle : Batched (s.setProc .cfgParam .idle) parts cur :=
      h.same (sameParam_setProc s (Or.inr (by decide)))
    rw [acceptedBy, cfgParameter_takes htakes]
    exact hidle.procCfgParam (by simp) htakes.2.2.2 param fullFifo (hworks htakes) (hfits htakes)
  · obtain ⟨hsame, hno⟩ := cfgParameter_refuses htakes env param fullFifo
    rw [acceptedBy, hsame, hno]
    exact ⟨parts, cur, h, by simp⟩

/-- Every other event leaves the batches. -/
theorem Batched.step (h : Batched s parts cur) (ev : Ev) (hworks : BatchWorks cfg s ev)
    (hfits : BufferFits cfg s ev) :
    ∃ parts' cur', Batched (step cfg s ev) parts' cur' ∧
      parts'.flatten ++ cur' = parts.flatten ++ cur ++ acceptedBy cfg s ev := by
  have hother : ∀ {t : Adapter}, SameParam s t → ∃ parts' cur', Batched t parts' cur' ∧
      parts'.flatten ++ cur' = parts.flatten ++ cur ++ [] :=
    fun hsame => ⟨parts, cur, h.same hsame, (List.append_nil _).symm⟩
  cases ev with
  | updatePacket env pktId pkt => exact hother (sameParam_updatePacket pktId pkt)
  | sendScanPacket env index pkt => exact hother (sameParam_sendScanPacket index pkt)
  | dropScanPacket env option => exact hother (sameParam_dropScanPacket option)
  | cfgParameter env param fullFifo => exact h.cfgParameter param fullFifo hworks hfits
  | clearChInfo => exact hother sameParam_clearChInfo
  | addChInfo env info => exact hother (sameParam_addChInfo info)
  | addExtraChInfo info => exact hother (sameParam_addExtraChInfo info)
  | ctrlChSwitch env opt => exact hother (sameParam_ctrlChSwitch opt)
  | h2cAck f seq rc oa va => exact hother (sameParam_getH2cAck f seq rc oa va)
  | scanRpt rc => exact hother (sameParam_getScanRpt rc)

theorem Batched.run (h : Batched s parts cur) (es : List Ev)
    (hworks : Along (Halmac.step cfg) (BatchWorks cfg) s es)
    (hfits : Along (Halmac.step cfg) (BufferFits cfg) s es) :
    ∃ parts' cur', Batched (run (Halmac.step cfg) s es) parts' cur' ∧
      parts'.flatten ++ cur' = parts.flatten ++ cur ++ acceptedParams cfg s es := by
  induction es generalizing s parts cur with
  | nil => exact ⟨parts, cur, h, by simp [acceptedParams]⟩
  | cons ev es ih =>
    obtain ⟨parts₁, cur₁, hstep, hflat⟩ := h.step ev hworks.1 hfits.1
    obtain ⟨parts₂, cur₂, hrun, hflat'⟩ := ih hstep hworks.2 hfits.2
    exact ⟨parts₂, cur₂, hrun, by rw [hflat', hflat, acceptedParams, List.append_assoc _ (acceptedBy _ _ _)]⟩

end Batch

/-- What is promised of the batches sent when the parameters `accepted` were: nothing was written
outside a buffer, the records of the batches and those still in the buffer are the accepted ones in
their order, each number announced is that of the batch's records, and the sums that a pending
acknowledgement is compared with are those of the batch it is for. -/
def LossFree (s : Adapter) (accepted : List Param) : Prop :=
  s.overrun = false ∧ ∃ parts cur, parts.flatten ++ cur = accepted ∧
    sentBatches s.log = batchesOf parts ∧ (∀ part ∈ parts, part.length < 2 ^ 16) ∧
    (s.param.buf = none → cur = []) ∧ (s.param.buf.isSome = true → Records s.param cur) ∧
    (s.proc .cfgParam = .sending → ∃ init part, parts = init ++ [part] ∧
      s.param.valueAccum = (part.map Param.valueTerm).sum ∧
      s.param.offsetAccum = (part.map Param.offsetTerm).sum)

/-- From a state with nothing buffered or sent, no accepted parameter is lost in a run where every
complete batch is downloaded and announced and every buffer that is allocated fits. -/
theorem cfg_params_loss_free (cfg : Cfg) (s : Adapter) (es : List Ev)
    (hbuf : s.param.buf = none) (hover : s.overrun = false) (hsent : sentBatches s.log = [])
    (hproc : s.proc .cfgParam ≠ .sending)
    (hworks : Along (step cfg) (BatchWorks cfg) s es)
    (hfits : Along (step cfg) (BufferFits cfg) s es) :
    LossFree (run (step cfg) s es) (acceptedParams cfg s es) := by
  have h0 : Batched s [] [] :=
    ⟨hover, hsent, by simp, fun _ => rfl, by simp [hbuf], fun hp => absurd hp hproc⟩
  obtain ⟨parts, cur, hrun, hflat⟩ := h0.run es hworks hfits
  exact ⟨hrun.inside, parts, cur, by simpa using hflat, hrun.sent, hrun.count, hrun.free,
    fun hsome => (hrun.filled hsome).1.toRecords, hrun.sums⟩

/-- Two writes of MAC registers and the end of their batch. -/
def exampleBatch : List Ev :=
  [.cfgParameter (exampleEnv true) ⟨.macW8, 0x5a, 0xff, 0x100, 0, 0⟩ 0,
    .cfgParameter (exampleEnv true) ⟨.macW32, 0x1234, 0xffff, 0x104, 1, 0⟩ 0,
    .cfgParameter (exampleEnv true) ⟨.finish, 0, 0, 0, 0, 0⟩ 0]

theorem cfg_params_loss_free_batch :
    LossFree (run (step exampleCfg) idleAdapter exampleBatch)
        (acceptedParams exampleCfg idleAdapter exampleBatch) ∧
      (run (step exampleCfg) idleAdapter exampleBatch).proc .cfgParam = .sending := by
  have hfull : smartMalloc (exampleEnv true).mallocs (cfgParamBufSize exampleCfg 0) = some 2048 := by
    decide
  refine ⟨cfg_params_loss_free exampleCfg idleAdapter exampleBatch rfl rfl rfl (by decide)
    ⟨fun _ _ => ⟨rfl, rfl⟩, fun _ _ => ⟨rfl, rfl⟩, fun _ _ => ⟨rfl, rfl⟩, trivial⟩
    ⟨?_, ?_, ?_, trivial⟩, by decide⟩
  all_goals
    intro _ _ size hsize
    obtain rfl := Option.some.inj (hfull.symm.trans hsize)
    exact ⟨by decide, by decide⟩

/-- A firmware whose reserved pages take 32 bytes. -/
def smallCfg : Cfg := { exampleCfg with rsvdPgSize := 32 }

/-- Three writes of MAC registers. -/
def exampleWrites : List Ev :=
  List.replicate 3 (.cfgParameter (exampleEnv true) ⟨.macW8, 0x5a, 0xff, 0x100, 0, 0⟩ 0)

/-- With a buffer of 32 bytes the room left over wraps round, and the third record leaves it. -/
theorem cfg_params_leave_buffer :
    idleAdapter.param.buf = none ∧ idleAdapter.overrun = false ∧
      sentBatches idleAdapter.log = [] ∧ idleAdapter.proc .cfgParam ≠ .sending ∧
      Along (step smallCfg) (BatchWorks smallCfg) idleAdapter exampleWrites ∧
      ¬ LossFree (run (step smallCfg) idleAdapter exampleWrites)
        (acceptedParams smallCfg idleAdapter exampleWrites) := by
  refine ⟨rfl, rfl, rfl, by decide,
    ⟨fun _ _ => ⟨rfl, rfl⟩, fun _ _ => ⟨rfl, rfl⟩, fun _ _ => ⟨rfl, rfl⟩, trivial⟩, ?_⟩
  rintro ⟨hinside, -⟩
  exact absurd hinside (by decide)

end Rtl8821cu.Halmac
