import Rtl8821cu.EfuseWalk

/-! Logical efuse writes over whole histories: the record log on the chip replays to the last
value written at every offset. -/
namespace Rtl8821cu.Efuse
open Run Store

inductive LogWrite
  | byte (offset : ℕ) (value : BitVec 8)
  | word (offset : ℕ) (value : BitVec 16)

/-- What a write puts at `o`, if it covers it. -/
def LogWrite.valueAt (o : ℕ) : LogWrite → Option (BitVec 8)
  | .byte offset value => if o = offset then some value else none
  | .word offset value =>
      if o = offset then some (value.setWidth 8)
      else if o = offset + 1 then some ((value >>> 8).setWidth 8)
      else none

/-- The value of the last write to `o`, a blank byte if there is none. -/
def lastWrite (ws : List LogWrite) (o : ℕ) : BitVec 8 :=
  (ws.reverse.findSome? (LogWrite.valueAt o)).getD 0xFF

/-- A call of one of the two entry points with its environment. -/
structure Call where
  write : LogWrite
  faults : Faults

def exec (hw : EfuseHw) (cfg : HwCfgInfo) (s : HalmacAdapter) (c : Call) :
    HalmacRet × HalmacAdapter :=
  match c.write with
  | .byte offset value => writeLogEfuse hw cfg c.faults offset value s
  | .word offset value => writeLogEfuseWord hw cfg c.faults offset value s

def execStep (hw : EfuseHw) (cfg : HwCfgInfo) (s : HalmacAdapter) (c : Call) : HalmacAdapter :=
  (exec hw cfg s c).2

/-- A valid copy of the efuse agrees with the chip. -/
def CacheCoherent (cfg : HwCfgInfo) (s : HalmacAdapter) : Prop :=
  ∀ efuseMap, s.cache = .valid efuseMap → ∀ i < cfg.efuseSize, efuseMap i = s.phy i

section LastWrite

theorem lastWrite_concat (ws : List LogWrite) (w : LogWrite) (o : ℕ) :
    lastWrite (ws ++ [w]) o = (w.valueAt o).getD (lastWrite ws o) := by
  unfold lastWrite
  rw [List.reverse_append, List.reverse_singleton, List.singleton_append, List.findSome?_cons]
  cases w.valueAt o <;> rfl

theorem lastWrite_concat_byte (ws : List LogWrite) (offset : ℕ) (value : BitVec 8) :
    lastWrite (ws ++ [.byte offset value]) = Function.update (lastWrite ws) offset value := by
  funext o
  rw [lastWrite_concat, Function.update_apply, LogWrite.valueAt]
  split <;> rfl

theorem lastWrite_concat_word (ws : List LogWrite) (offset : ℕ) (value : BitVec 16) :
    lastWrite (ws ++ [.word offset value]) =
      Function.update (Function.update (lastWrite ws) offset (value.setWidth 8)) (offset + 1)
        ((value >>> 8).setWidth 8) := by
  funext o
  rw [lastWrite_concat, Function.update_apply, Function.update_apply, LogWrite.valueAt]
  split
  · rw [if_neg (by omega)]
    rfl
  · split <;> rfl

end LastWrite

section Sequence
variable {r : HalmacRet × HalmacAdapter} {k : HalmacAdapter → HalmacRet × HalmacAdapter}

theorem andThen_success (h : (andThen r k).1 = .success) :
    r.1 = .success ∧ (k r.2).1 = .success ∧ andThen r k = k r.2 := by
  unfold andThen at h ⊢
  by_cases hr : r.1 = .success
  · simp only [hr, if_true] at h ⊢
    exact ⟨trivial, h, trivial⟩
  · simp [hr] at h

/-- A sequence ends in the first call with its status or goes on behind it. -/
theorem andThen_cases (r : HalmacRet × HalmacAdapter)
    (k : HalmacAdapter → HalmacRet × HalmacAdapter) :
    (r.1 ≠ .success ∧ andThen r k = r) ∨ (r.1 = .success ∧ andThen r k = k r.2) := by
  unfold andThen
  by_cases hr : r.1 = .success
  · exact Or.inr ⟨hr, if_pos hr⟩
  · exact Or.inl ⟨hr, if_neg hr⟩

end Sequence

section Hardware
variable {hw : EfuseHw} {cfg : HwCfgInfo} {flt : Faults} {s : HalmacAdapter}

@[simp] theorem invalidate_phy (s : HalmacAdapter) : s.invalidate.phy = s.phy := by
  unfold HalmacAdapter.invalidate
  split <;> rfl

theorem invalidate_cache (s : HalmacAdapter) : ∃ allocated, s.invalidate.cache = .invalid allocated := by
  unfold HalmacAdapter.invalidate
  split
  · rename_i allocated h
    exact ⟨allocated, h⟩
  · exact ⟨true, rfl⟩

/-- A successful write to a blank byte stores it and drops the copy of the efuse. -/
theorem writeHwEfuse_success {fault : WriteFault} {offset : ℕ} {value : BitVec 8}
    (h : (writeHwEfuse hw fault offset value s).1 = .success) (hlt : offset < 1024)
    (hblank : s.phy offset = 0xFF) :
    (writeHwEfuse hw fault offset value s).2.phy = Function.update s.phy offset value ∧
      ∃ allocated, (writeHwEfuse hw fault offset value s).2.cache = .invalid allocated := by
  have hmod : offset % 1024 = offset := Nat.mod_eq_of_lt hlt
  have hburn : (s.invalidate.burn hw offset value).phy = Function.update s.phy offset value := by
    simp only [HalmacAdapter.burn, invalidate_phy, hmod, hblank, hw.burn_blank]
  obtain ⟨allocated, hcache⟩ := invalidate_cache s
  have hstate : (writeHwEfuse hw fault offset value s).2 = s.invalidate.burn hw offset value := by
    unfold writeHwEfuse at h ⊢
    cases fault with
    | timeout stored => simp at h
    | none => dsimp only; split_ifs <;> rfl
    | readBack => dsimp only; split_ifs <;> rfl
  rw [hstate]
  exact ⟨hburn, allocated, hcache⟩

theorem writeHwBytes_success {n e : ℕ} {bs : List (BitVec 8)}
    (h : (writeHwBytes hw flt n e bs s).1 = .success) (hlt : e + bs.length ≤ 1024)
    (hblank : ∀ i, e ≤ i → i < e + bs.length → s.phy i = 0xFF) :
    (writeHwBytes hw flt n e bs s).2.phy = store s.phy e bs ∧
      (bs ≠ [] → ∃ allocated, (writeHwBytes hw flt n e bs s).2.cache = .invalid allocated) := by
  induction bs generalizing n e s with
  | nil => exact ⟨rfl, fun hne => absurd rfl hne⟩
  | cons b bs ih =>
    rw [List.length_cons] at hlt hblank
    unfold writeHwBytes at h ⊢
    obtain ⟨h1, h2, heq⟩ := andThen_success h
    rw [heq]
    obtain ⟨hphy, hcache⟩ := writeHwEfuse_success h1 (by omega) (hblank e le_rfl (by omega))
    obtain ⟨hphy', hcache'⟩ := ih h2 (by omega) (by
      intro i hi hi'
      rw [hphy, Function.update_of_ne (by omega)]
      exact hblank i (by omega) (by omega))
    refine ⟨by rw [hphy', hphy, store], fun _ => ?_⟩
    cases bs with
    | nil => exact hcache
    | cons b' bs => exact hcache' (by simp)

end Hardware

section Log
variable {hw : EfuseHw} {cfg : HwCfgInfo} {flt : Faults} {s : HalmacAdapter}

/-- The chip holds a record log that ends at `e` and replays to `m`, blank from `e` on. -/
structure LogAt (cfg : HwCfgInfo) (phy : ByteMap) (e : ℕ) (m : ByteMap) : Prop where
  walk : Walk cfg phy (0, fun _ => 0xFF) (e, m)
  end_lt : e < cfg.efuseSize
  blank : ∀ i, e ≤ i → i < cfg.efuseSize → phy i = 0xFF

theorem LogAt.congr {phy phy' : ByteMap} {e : ℕ} {m : ByteMap} (h : LogAt cfg phy e m)
    (hag : ∀ i < cfg.efuseSize, phy' i = phy i) : LogAt cfg phy' e m where
  walk := h.walk.congr fun k _ hk => (hag k (by have := h.end_lt; dsimp only at hk; omega)).symm
  end_lt := h.end_lt
  blank i hi hi' := (hag i hi').trans (h.blank i hi hi')

theorem LogAt.eepromParser_eq {phy : ByteMap} {e : ℕ} {m : ByteMap} (h : LogAt cfg phy e m) :
    eepromParser cfg phy = some (e, m) :=
  h.walk.eepromParser_eq (h.blank e le_rfl h.end_lt)

/-- Reading leaves the chip alone and has its own error codes. -/
theorem fillEfuseMap_phy (s : HalmacAdapter) : (fillEfuseMap flt s).2.phy = s.phy := by
  unfold fillEfuseMap
  split
  · rfl
  · split_ifs <;> rfl

theorem fillEfuseMap_error {e : HalmacRet} {t : HalmacAdapter}
    (h : fillEfuseMap flt s = (.error e, t)) : e = .mallocFail ∨ e = .efuseRFail := by
  unfold fillEfuseMap at h
  split at h
  · cases h
  · split_ifs at h <;> cases h <;> simp

theorem readLogEfuseMap_phy (s : HalmacAdapter) : (readLogEfuseMap cfg flt s).2.phy = s.phy := by
  have hfill : (fillEfuseMap flt s).2.phy = s.phy := fillEfuseMap_phy s
  unfold readLogEfuseMap
  rcases hf : fillEfuseMap flt s with ⟨_ | map, t⟩
  · rw [hf] at hfill
    exact hfill
  · rw [hf] at hfill
    rcases hp : eepromParser cfg map with _ | ⟨e, m⟩
    · simpa [hp] using hfill
    · simpa [hp] using hfill

theorem readLogEfuseMap_error {e : HalmacRet} {t : HalmacAdapter}
    (h : readLogEfuseMap cfg flt s = (.error e, t)) :
    e = .mallocFail ∨ e = .efuseRFail ∨ e = .eepromParsingFail := by
  unfold readLogEfuseMap at h
  split at h
  · rename_i hfill
    cases h
    have := fillEfuseMap_error hfill
    tauto
  · split at h
    · cases h
      simp
    · cases h

theorem withLogMap_success {k : ByteMap → HalmacAdapter → HalmacRet × HalmacAdapter}
    (h : (withLogMap cfg flt k s).1 = .success) :
    ∃ map t, readLogEfuseMap cfg flt s = (.ok map, t) ∧ withLogMap cfg flt k s = k map t := by
  unfold withLogMap at h ⊢
  split_ifs at h ⊢
  rcases hread : readLogEfuseMap cfg flt s with ⟨err | map, t⟩
  · have herr := readLogEfuseMap_error hread
    rw [hread] at h
    rw [show err = .success from h] at herr
    simp at herr
  · exact ⟨map, t, rfl, rfl⟩

theorem fillEfuseMap_ok {map : ByteMap} {s' : HalmacAdapter} (hc : CacheCoherent cfg s)
    (h : fillEfuseMap flt s = (.ok map, s')) :
    s'.phy = s.phy ∧ CacheCoherent cfg s' ∧ ∀ i < cfg.efuseSize, map i = s.phy i := by
  unfold fillEfuseMap at h
  split at h
  · rename_i efuseMap hvalid
    cases h
    exact ⟨rfl, hc, hc map hvalid⟩
  · split_ifs at h
    · cases h
    · cases h
    · cases h
    · cases h
      have hle := cfg.efuse_le
      have hmap : ∀ i < cfg.efuseSize, s.phy (i % 1024) = s.phy i := by
        intro i hi
        rw [Nat.mod_eq_of_lt (by omega)]
      refine ⟨rfl, ?_, hmap⟩
      intro efuseMap hvalid
      cases hvalid
      exact hmap

/-- A successful read returns what the parser makes of the chip. -/
theorem readLogEfuseMap_ok {e : ℕ} {m map : ByteMap} {s' : HalmacAdapter}
    (hparse : ∀ phy : ByteMap, (∀ i < cfg.efuseSize, phy i = s.phy i) →
      eepromParser cfg phy = some (e, m)) (hc : CacheCoherent cfg s)
    (h : readLogEfuseMap cfg flt s = (.ok map, s')) :
    map = m ∧ s'.phy = s.phy ∧ s'.efuseEnd = e ∧ CacheCoherent cfg s' := by
  unfold readLogEfuseMap at h
  split at h
  · cases h
  · rename_i efuseMap t hfill
    obtain ⟨hphy, hcoh, hmap⟩ := fillEfuseMap_ok hc hfill
    rw [hparse efuseMap hmap] at h
    cases h
    exact ⟨rfl, hphy, rfl, hcoh⟩

/-- A successful read returns the replayed map and finds the end of the log. -/
theorem LogAt.readLogEfuseMap_ok {e : ℕ} {m map : ByteMap} {s' : HalmacAdapter}
    (hlog : LogAt cfg s.phy e m) (hc : CacheCoherent cfg s)
    (h : readLogEfuseMap cfg flt s = (.ok map, s')) :
    map = m ∧ s'.phy = s.phy ∧ s'.efuseEnd = e ∧ CacheCoherent cfg s' :=
  Efuse.readLogEfuseMap_ok (fun _ hag => (hlog.congr hag).eepromParser_eq) hc h

/-- A successful record write appends the record to the log. -/
theorem LogAt.writeRecord_success {offset : ℕ} {byte1 byte2 : BitVec 8} {m : ByteMap}
    (h8 : cfg.eepromSize % 8 = 0) (h1024 : cfg.eepromSize ≤ 1024) (hoff : offset < cfg.eepromSize)
    (hlog : LogAt cfg s.phy s.efuseEnd m)
    (h : (writeRecord hw cfg flt offset byte1 byte2 s).1 = .success) :
    LogAt cfg (writeRecord hw cfg flt offset byte1 byte2 s).2.phy (s.efuseEnd + recordLen offset)
        (Function.update (Function.update m (offset / 2 * 2) byte1) (offset / 2 * 2 + 1) byte2) ∧
      CacheCoherent cfg (writeRecord hw cfg flt offset byte1 byte2 s).2 := by
  have hle := cfg.efuse_le
  have hlen : (recordHdrBytes offset ++ [byte1, byte2]).length = recordLen offset := by
    rw [List.length_append, ← length_recordHdrBytes]
    rfl
  have hroom : ¬ cfg.efuseSize ≤ recordLen offset + cfg.prtctEfuseSize + s.efuseEnd := by
    intro hfull
    unfold writeRecord at h
    unfold recordLen at hfull
    simp [hfull] at h
  have hwrite : writeRecord hw cfg flt offset byte1 byte2 s =
      writeHwBytes hw flt 0 s.efuseEnd (recordHdrBytes offset ++ [byte1, byte2]) s := by
    unfold writeRecord
    exact if_neg hroom
  rw [hwrite] at h ⊢
  obtain ⟨hphy, hcache⟩ := writeHwBytes_success h (by omega) (by
    intro i hi hi'
    exact hlog.blank i hi (by omega))
  obtain ⟨allocated, hcache⟩ := hcache (by simp)
  rw [hphy]
  refine ⟨⟨?_, by omega, ?_⟩, ?_⟩
  · refine Relation.ReflTransGen.tail (hlog.walk.congr fun k _ hk => ?_)
      (parseStep_record m h8 h1024 hoff hroom (holdsAt_store _ _ _))
    exact (store_of_lt _ _ hk).symm
  · intro i hi hi'
    rw [store_of_ge _ _ (by omega)]
    exact hlog.blank i (by omega) hi'
  · intro efuseMap hvalid
    rw [hcache] at hvalid
    cases hvalid

/-- The log on the chip replays to `m`, and the copy of the efuse is coherent. -/
def Appended (cfg : HwCfgInfo) (m : ByteMap) (s : HalmacAdapter) : Prop :=
  (∃ e, LogAt cfg s.phy e m) ∧ CacheCoherent cfg s

section Proc
variable {offset e : ℕ} {m : ByteMap} (h8 : cfg.eepromSize % 8 = 0)
  (h1024 : cfg.eepromSize ≤ 1024) (hoff : offset < cfg.eepromSize)
include h8 h1024 hoff

theorem LogAt.procWriteLogEfuse_success {value : BitVec 8} (hlog : LogAt cfg s.phy e m)
    (hc : CacheCoherent cfg s) (h : (procWriteLogEfuse hw cfg flt offset value s).1 = .success) :
    Appended cfg (Function.update m offset value)
      (procWriteLogEfuse hw cfg flt offset value s).2 := by
  unfold procWriteLogEfuse at h ⊢
  obtain ⟨map, t, hread, heq⟩ := withLogMap_success h
  rw [heq] at h ⊢
  obtain ⟨rfl, hphy, rfl, hcoh⟩ := hlog.readLogEfuseMap_ok hc hread
  rw [← hphy] at hlog
  split_ifs at h ⊢ with hsame heven
  · refine ⟨⟨t.efuseEnd, ?_⟩, hcoh⟩
    rw [← hsame, Function.update_eq_self]
    exact hlog
  · obtain ⟨hnew, hcoh'⟩ := hlog.writeRecord_success h8 h1024 hoff h
    rw [show offset / 2 * 2 = offset by omega, Function.update_comm (by omega),
      Function.update_eq_self] at hnew
    exact ⟨⟨_, hnew⟩, hcoh'⟩
  · obtain ⟨hnew, hcoh'⟩ := hlog.writeRecord_success h8 h1024 hoff h
    rw [show offset / 2 * 2 = offset - 1 by omega, Function.update_eq_self,
      show offset - 1 + 1 = offset by omega] at hnew
    exact ⟨⟨_, hnew⟩, hcoh'⟩

theorem LogAt.procWriteLogEfuseWord_success {value : BitVec 16} (hlog : LogAt cfg s.phy e m)
    (hc : CacheCoherent cfg s)
    (h : (procWriteLogEfuseWord hw cfg flt offset value s).1 = .success) :
    Appended cfg
      (Function.update (Function.update m offset (value.setWidth 8)) (offset + 1)
        ((value >>> 8).setWidth 8))
      (procWriteLogEfuseWord hw cfg flt offset value s).2 := by
  unfold procWriteLogEfuseWord at h ⊢
  obtain ⟨map, t, hread, heq⟩ := withLogMap_success h
  rw [heq] at h ⊢
  obtain ⟨rfl, hphy, rfl, hcoh⟩ := hlog.readLogEfuseMap_ok hc hread
  rw [← hphy] at hlog
  split_ifs at h ⊢ with heven
  obtain ⟨hnew, hcoh'⟩ := hlog.writeRecord_success h8 h1024 hoff h
  rw [show offset / 2 * 2 = offset by omega] at hnew
  exact ⟨⟨_, hnew⟩, hcoh'⟩

end Proc

end Log

section Entry
variable {hw : EfuseHw} {cfg : HwCfgInfo} {flt : Faults} {s : HalmacAdapter}

/-- The command state machine and the bank register do not touch the chip or its copy. -/
theorem cnvEfuseState_keeps (dest : CmdCnstrState) (s : HalmacAdapter) :
    (cnvEfuseState dest s).2.phy = s.phy ∧ (cnvEfuseState dest s).2.cache = s.cache ∧
      ((cnvEfuseState dest s).1 = .success ∨ (cnvEfuseState dest s).1 = .errorState) := by
  unfold cnvEfuseState
  split_ifs <;> simp

theorem switchEfuseBank_keeps (flt : Faults) (bank : BitVec 2) (s : HalmacAdapter) :
    (switchEfuseBank flt bank s).2.phy = s.phy ∧ (switchEfuseBank flt bank s).2.cache = s.cache ∧
      ((switchEfuseBank flt bank s).1 = .success ∨ (switchEfuseBank flt bank s).1 = .errorState ∨
        (switchEfuseBank flt bank s).1 = .switchEfuseBankFail) := by
  obtain ⟨hphy, hcache, -⟩ := cnvEfuseState_keeps .busy s
  simp only [switchEfuseBank]
  split_ifs <;> simp [hphy, hcache]

/-- Past its checks an entry point runs its writer on the unchanged efuse, and what comes after
the writer changes neither the chip nor its copy. -/
theorem efuseEntry_cases (flt : Faults) (proc : HalmacAdapter → HalmacRet × HalmacAdapter)
    (s : HalmacAdapter) :
    ((efuseEntry flt proc s).2.phy = s.phy ∧
      (efuseEntry flt proc s).1 ∈ [.busyState, .errorState, .switchEfuseBankFail]) ∨
    ∃ t : HalmacAdapter, t.phy = s.phy ∧ t.cache = s.cache ∧
      (efuseEntry flt proc s).2.phy = (proc t).2.phy ∧
      (efuseEntry flt proc s).2.cache = (proc t).2.cache ∧
      ((efuseEntry flt proc s).1 = (proc t).1 ∨ (efuseEntry flt proc s).1 = .errorState) := by
  unfold efuseEntry
  split_ifs with h1 h2
  · exact Or.inl ⟨rfl, by simp⟩
  · exact Or.inl ⟨rfl, by simp⟩
  · obtain ⟨hphy, hcache, hret⟩ := switchEfuseBank_keeps flt bankWifi s
    obtain ⟨hne, heq⟩ | ⟨hok, heq⟩ := andThen_cases (switchEfuseBank flt bankWifi s) proc
    · rw [heq]
      obtain ⟨-, heq'⟩ | ⟨hok', -⟩ :=
        andThen_cases (switchEfuseBank flt bankWifi s) (cnvEfuseState .idle)
      · rw [heq']
        refine Or.inl ⟨hphy, ?_⟩
        rcases hret with hret | hret | hret
        · exact absurd hret hne
        · simp [hret]
        · simp [hret]
      · exact absurd hok' hne
    · rw [heq]
      refine Or.inr ⟨(switchEfuseBank flt bankWifi s).2, hphy, hcache, ?_⟩
      obtain ⟨-, heq'⟩ | ⟨hok', heq'⟩ :=
        andThen_cases (proc (switchEfuseBank flt bankWifi s).2) (cnvEfuseState .idle)
      · rw [heq']
        exact ⟨rfl, rfl, Or.inl rfl⟩
      · rw [heq', hok']
        exact cnvEfuseState_keeps _ _

/-- A successful entry ran its writer, successfully, on the unchanged efuse. -/
theorem efuseEntry_success {proc : HalmacAdapter → HalmacRet × HalmacAdapter}
    (h : (efuseEntry flt proc s).1 = .success) :
    ∃ t : HalmacAdapter, t.phy = s.phy ∧ t.cache = s.cache ∧ (proc t).1 = .success ∧
      (efuseEntry flt proc s).2.phy = (proc t).2.phy ∧
      (efuseEntry flt proc s).2.cache = (proc t).2.cache := by
  obtain ⟨-, hret⟩ | ⟨t, hphy, hcache, hphy', hcache', hret⟩ := efuseEntry_cases flt proc s
  · simp [h] at hret
  · rw [h] at hret
    rcases hret with hret | hret
    · exact ⟨t, hphy, hcache, hret.symm, hphy', hcache'⟩
    · cases hret

theorem logEfuseEntry_eq (cfg : HwCfgInfo) (flt : Faults) (offset : ℕ)
    (proc : HalmacAdapter → HalmacRet × HalmacAdapter) (s : HalmacAdapter) :
    logEfuseEntry cfg flt offset proc s =
      if cfg.eepromSize ≤ offset then (.efuseSizeIncorrect, s) else efuseEntry flt proc s := rfl

theorem logEfuseEntry_cases (cfg : HwCfgInfo) (flt : Faults) (offset : ℕ)
    (proc : HalmacAdapter → HalmacRet × HalmacAdapter) (s : HalmacAdapter) :
    ((logEfuseEntry cfg flt offset proc s).2.phy = s.phy ∧
      (logEfuseEntry cfg flt offset proc s).1 ∈
        [.efuseSizeIncorrect, .busyState, .errorState, .switchEfuseBankFail]) ∨
    (offset < cfg.eepromSize ∧ ∃ t : HalmacAdapter, t.phy = s.phy ∧ t.cache = s.cache ∧
      (logEfuseEntry cfg flt offset proc s).2.phy = (proc t).2.phy ∧
      (logEfuseEntry cfg flt offset proc s).2.cache = (proc t).2.cache ∧
      ((logEfuseEntry cfg flt offset proc s).1 = (proc t).1 ∨
        (logEfuseEntry cfg flt offset proc s).1 = .errorState)) := by
  rw [logEfuseEntry_eq]
  split_ifs with hoff
  · exact Or.inl ⟨rfl, by simp⟩
  · obtain ⟨hphy, hret⟩ | h := efuseEntry_cases flt proc s
    · exact Or.inl ⟨hphy, List.mem_cons_of_mem _ hret⟩
    · exact Or.inr ⟨by omega, h⟩

theorem logEfuseEntry_success {offset : ℕ} {proc : HalmacAdapter → HalmacRet × HalmacAdapter}
    (h : (logEfuseEntry cfg flt offset proc s).1 = .success) :
    offset < cfg.eepromSize ∧ ∃ t : HalmacAdapter, t.phy = s.phy ∧ t.cache = s.cache ∧
      (proc t).1 = .success ∧ (logEfuseEntry cfg flt offset proc s).2.phy = (proc t).2.phy ∧
      (logEfuseEntry cfg flt offset proc s).2.cache = (proc t).2.cache := by
  rw [logEfuseEntry_eq] at h ⊢
  split_ifs at h ⊢ with hoff
  exact ⟨by omega, efuseEntry_success h⟩

theorem Appended.of_eq {m : ByteMap} {t : HalmacAdapter} (h : Appended cfg m t)
    (hphy : s.phy = t.phy) (hcache : s.cache = t.cache) : Appended cfg m s := by
  unfold Appended CacheCoherent at h ⊢
  rwa [hphy, hcache]

theorem Appended.writeLogEfuse_success {m : ByteMap} {offset : ℕ} {value : BitVec 8}
    (h8 : cfg.eepromSize % 8 = 0) (h1024 : cfg.eepromSize ≤ 1024) (hs : Appended cfg m s)
    (h : (writeLogEfuse hw cfg flt offset value s).1 = .success) :
    Appended cfg (Function.update m offset value) (writeLogEfuse hw cfg flt offset value s).2 := by
  obtain ⟨hoff, t, hphy, hcache, hok, hphy', hcache'⟩ := logEfuseEntry_success h
  obtain ⟨⟨e, hlog⟩, hc⟩ := hs.of_eq hphy hcache
  exact (hlog.procWriteLogEfuse_success h8 h1024 hoff hc hok).of_eq hphy' hcache'

theorem Appended.writeLogEfuseWord_success {m : ByteMap} {offset : ℕ} {value : BitVec 16}
    (h8 : cfg.eepromSize % 8 = 0) (h1024 : cfg.eepromSize ≤ 1024) (hs : Appended cfg m s)
    (h : (writeLogEfuseWord hw cfg flt offset value s).1 = .success) :
    Appended cfg
      (Function.update (Function.update m offset (value.setWidth 8)) (offset + 1)
        ((value >>> 8).setWidth 8))
      (writeLogEfuseWord hw cfg flt offset value s).2 := by
  obtain ⟨hoff, t, hphy, hcache, hok, hphy', hcache'⟩ := logEfuseEntry_success h
  obtain ⟨⟨e, hlog⟩, hc⟩ := hs.of_eq hphy hcache
  exact (hlog.procWriteLogEfuseWord_success h8 h1024 hoff hc hok).of_eq hphy' hcache'

/-- A successful call puts exactly its own bytes on top of the replayed map. -/
theorem Appended.exec_success {ws : List LogWrite} {c : Call} (h8 : cfg.eepromSize % 8 = 0)
    (h1024 : cfg.eepromSize ≤ 1024) (hs : Appended cfg (lastWrite ws) s)
    (h : (exec hw cfg s c).1 = .success) :
    Appended cfg (lastWrite (ws ++ [c.write])) (execStep hw cfg s c) := by
  unfold execStep
  obtain ⟨w, flt⟩ := c
  cases w with
  | byte offset value =>
    rw [lastWrite_concat_byte]
    exact hs.writeLogEfuse_success h8 h1024 h
  | word offset value =>
    rw [lastWrite_concat_word]
    exact hs.writeLogEfuseWord_success h8 h1024 h

theorem appended_run {calls : List Call} (h8 : cfg.eepromSize % 8 = 0)
    (h1024 : cfg.eepromSize ≤ 1024) {ws : List LogWrite} (hs : Appended cfg (lastWrite ws) s)
    (h : Along (execStep hw cfg) (fun s c => (exec hw cfg s c).1 = .success) s calls) :
    Appended cfg (lastWrite (ws ++ calls.map Call.write)) (run (execStep hw cfg) s calls) := by
  induction calls generalizing s ws with
  | nil => simpa using hs
  | cons c calls ih =>
    have hrest := ih (hs.exec_success h8 h1024 h.1) h.2
    simpa using hrest

theorem appended_blank (hblank : ∀ i < cfg.efuseSize, s.phy i = 0xFF)
    (hc : CacheCoherent cfg s) : Appended cfg (lastWrite []) s :=
  ⟨⟨0, .refl, cfg.efuse_pos, fun i _ hi => hblank i hi⟩, hc⟩

end Entry

section Refused
variable {hw : EfuseHw} {cfg : HwCfgInfo} {flt : Faults} {s : HalmacAdapter}

/-- The two refusals that come before any write. -/
def Refused (r : HalmacRet) : Prop := r = .efuseNotEnough ∨ r = .adrNotAlign

theorem writeHwEfuse_not_refused {fault : WriteFault} {offset : ℕ} {value : BitVec 8} :
    ¬ Refused (writeHwEfuse hw fault offset value s).1 := by
  unfold writeHwEfuse Refused
  cases fault with
  | timeout stored => simp
  | none => dsimp only; split_ifs <;> simp
  | readBack => dsimp only; split_ifs <;> simp

theorem writeHwBytes_not_refused {n e : ℕ} {bs : List (BitVec 8)} :
    ¬ Refused (writeHwBytes hw flt n e bs s).1 := by
  induction bs generalizing n e s with
  | nil => simp [writeHwBytes, Refused]
  | cons b bs ih =>
    unfold writeHwBytes
    obtain ⟨-, heq⟩ | ⟨-, heq⟩ := andThen_cases (writeHwEfuse hw (flt.write n) e b s)
      (writeHwBytes hw flt (n + 1) (e + 1) bs)
    · rw [heq]
      exact writeHwEfuse_not_refused
    · rw [heq]
      exact ih

theorem writeRecord_refused {offset : ℕ} {byte1 byte2 : BitVec 8}
    (h : Refused (writeRecord hw cfg flt offset byte1 byte2 s).1) :
    (writeRecord hw cfg flt offset byte1 byte2 s).2.phy = s.phy := by
  unfold writeRecord at h ⊢
  dsimp only at h ⊢
  by_cases hfull : cfg.efuseSize ≤ (if 0x7f < offset then 4 else 3) + cfg.prtctEfuseSize + s.efuseEnd
  · rw [if_pos hfull]
  · rw [if_neg hfull] at h
    exact absurd h writeHwBytes_not_refused

theorem withLogMap_refused {k : ByteMap → HalmacAdapter → HalmacRet × HalmacAdapter}
    (hk : ∀ map t, Refused (k map t).1 → (k map t).2.phy = t.phy)
    (h : Refused (withLogMap cfg flt k s).1) : (withLogMap cfg flt k s).2.phy = s.phy := by
  have hphy : (readLogEfuseMap cfg flt s).2.phy = s.phy := readLogEfuseMap_phy s
  unfold withLogMap at h ⊢
  split_ifs at h ⊢
  · rfl
  · rcases hread : readLogEfuseMap cfg flt s with ⟨err | map, t⟩
    · rw [hread] at hphy
      exact hphy
    · rw [hread] at h hphy
      exact (hk map t h).trans hphy

theorem exec_refused {c : Call} (h : Refused (exec hw cfg s c).1) :
    (exec hw cfg s c).2.phy = s.phy := by
  have hentry : ∀ {flt : Faults} {offset : ℕ} {proc : HalmacAdapter → HalmacRet × HalmacAdapter},
      (∀ t, Refused (proc t).1 → (proc t).2.phy = t.phy) →
      Refused (logEfuseEntry cfg flt offset proc s).1 →
      (logEfuseEntry cfg flt offset proc s).2.phy = s.phy := by
    intro flt offset proc hproc hr
    obtain ⟨hphy, -⟩ | ⟨-, t, hphy, -, hphy', -, hret | hret⟩ :=
      logEfuseEntry_cases cfg flt offset proc s
    · exact hphy
    · rw [hret] at hr
      rw [hphy', hproc t hr, hphy]
    · simp [hret, Refused] at hr
  obtain ⟨w, flt⟩ := c
  cases w with
  | byte offset value =>
    refine hentry (fun t ht => withLogMap_refused ?_ ht) h
    intro map t ht
    split_ifs at ht ⊢
    · rfl
    · exact writeRecord_refused ht
    · exact writeRecord_refused ht
  | word offset value =>
    refine hentry (fun t ht => withLogMap_refused ?_ ht) h
    intro map t ht
    split_ifs at ht ⊢
    · exact writeRecord_refused ht
    · rfl

end Refused

/-- After any sequence of successful writes to a blank efuse the parser returns, at each offset,
the value of the last write to it; a write that is refused for lack of space or for alignment
burns nothing. -/
theorem log_efuse_write_read (hw : EfuseHw) (cfg : HwCfgInfo) (h8 : cfg.eepromSize % 8 = 0)
    (h1024 : cfg.eepromSize ≤ 1024) (s : HalmacAdapter)
    (hblank : ∀ i < cfg.efuseSize, s.phy i = 0xFF) (hc : CacheCoherent cfg s) (calls : List Call)
    (h : Along (execStep hw cfg) (fun s c => (exec hw cfg s c).1 = .success) s calls) :
    (∃ efuseEnd logMap,
        eepromParser cfg (run (execStep hw cfg) s calls).phy = some (efuseEnd, logMap) ∧
        ∀ o < cfg.eepromSize, logMap o = lastWrite (calls.map Call.write) o) ∧
      ∀ (t : HalmacAdapter) (c : Call),
        (exec hw cfg t c).1 = .efuseNotEnough ∨ (exec hw cfg t c).1 = .adrNotAlign →
        (exec hw cfg t c).2.phy = t.phy := by
  refine ⟨?_, fun t c hr => exec_refused hr⟩
  obtain ⟨⟨e, hlog⟩, -⟩ := appended_run h8 h1024 (appended_blank hblank hc) h
  exact ⟨e, _, hlog.eepromParser_eq, fun o _ => rfl⟩

/-- Burning clears bits. -/
def clearingHw : EfuseHw where
  burn old value := old &&& value
  burn_blank _ := BitVec.allOnes_and

/-- The sizes of the 8821C. -/
def cfg8821c : HwCfgInfo where
  efuseSize := 512
  eepromSize := 512
  prtctEfuseSize := 96
  efuse_pos := by decide
  efuse_le := by decide
  prtct_lt := by decide

def blankAdapter : HalmacAdapter where
  phy := fun _ => 0xFF
  cache := .invalid false
  efuseEnd := 0
  efuseAutoCheckEn := true
  cmdCnstrState := .idle
  procStatus := .undefine
  bank := 0

def noFaults : Faults where
  bankSwitch := true
  mallocMap := true
  mallocLocal := true
  readHw := true
  mallocAdapterMap := true
  write := fun _ => .none

theorem log_efuse_write_read_8821c :
    ∃ efuseEnd logMap,
      eepromParser cfg8821c (run (execStep clearingHw cfg8821c) blankAdapter
        [⟨.byte 0x11 0x42, noFaults⟩, ⟨.word 0x1f0 0xBEEF, noFaults⟩,
          ⟨.byte 0x1f0 0xFF, noFaults⟩]).phy = some (efuseEnd, logMap) ∧
      logMap 0x11 = 0x42 ∧ logMap 0x1f0 = 0xFF ∧ logMap 0x1f1 = 0xBE ∧ logMap 0x10 = 0xFF := by
  obtain ⟨e, m, hparse, hlast⟩ := (log_efuse_write_read clearingHw cfg8821c (by decide) (by decide)
    blankAdapter (fun _ _ => rfl) (fun _ h => by cases h)
    [⟨.byte 0x11 0x42, noFaults⟩, ⟨.word 0x1f0 0xBEEF, noFaults⟩, ⟨.byte 0x1f0 0xFF, noFaults⟩]
    ⟨by decide +kernel, by decide +kernel, by decide +kernel, trivial⟩).1
  refine ⟨e, m, hparse, ?_, ?_, ?_, ?_⟩
  · exact (hlast 0x11 (by decide)).trans (by decide)
  · exact (hlast 0x1f0 (by decide)).trans (by decide)
  · exact (hlast 0x1f1 (by decide)).trans (by decide)
  · exact (hlast 0x10 (by decide)).trans (by decide)

end Rtl8821cu.Efuse
