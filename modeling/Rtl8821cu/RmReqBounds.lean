import Rtl8821cu.LibBounded
import Rtl8821cu.RmReq
import Rtl8821cu.RmTable

/-! Radio measurement requests and the bounds of the frame and of the object they are stored in
(`core/rtw_rm.c`, `core/rtw_rm_util.c`). -/
namespace Rtl8821cu.RmReq
open Store Reads Reading Bytes
open Rm (RmPriv rmAllocRmobj)

def rtwChannelScanAmount : ℕ := 14 + 37

def rtwOpClassUs : List (Byte × List Byte) :=
  [(0, []), (115, [36, 40, 44, 48]), (118, [52, 56, 60, 64]), (124, [149, 153, 157, 161]),
    (121, [100, 104, 108, 112, 116, 120, 124, 128, 132, 136, 140]),
    (125, [149, 153, 157, 161, 165]), (81, [1, 2, 3, 4, 5, 6, 7, 8, 9, 10, 11])]

def rmGetChSet (opClass chNum : Byte) : List Byte :=
  if chNum ≠ 0 then [chNum]
  else ((rtwOpClassUs.find? fun op => op.1 == opClass).map Prod.snd).getD []

/-- `rm_get_ch_set_from_bcn_req_opt`: an entry for each channel that a report counts. -/
def rmGetChSetFromBcnReqOpt (opt : BcnReqOpt) : List Byte :=
  opt.apChRpt.flatMap fun op => (List.range op.len.toNat).map fun j => op.channel.getD j 0

/-- The channel set of `rm_sitesurvey`. -/
def rmSitesurvey (q : RmMeasReq) : List Byte :=
  if q.chNum = 0 then rmGetChSet q.opClass q.chNum
  else if q.chNum = 255 then rmGetChSetFromBcnReqOpt q.bcn
  else rmGetChSet q.opClass q.chNum

/-- What `rm_recv_radio_mens_req` leaves behind, up to its call of `rm_enqueue_rmobj`; `id` is the
object it allocated. -/
inductive Received
  | noObj (s : RmPriv)
  | rejected (s : RmPriv) (id : ℕ)
  | accepted (s : RmPriv) (id : ℕ) (q : RmMeasReq)

def received (s : RmPriv) (id : ℕ) (r : RmMeasReq × Bool) : Received :=
  if r.2 then .accepted s id r.1 else .rejected s id

/-- `rm_recv_radio_mens_req` with its object; `mem` is whether there is memory for it. -/
def recvRequest (s : RmPriv) (mem : Bool) (alloc : ℕ → Bool) (turns : ℕ) :
    Reading Byte (Option Received) :=
  match rmAllocRmobj s mem with
  | (s, none) => pure (some (.noObj s))
  | (s, some id) => do
    let r ← rmRecvRadioMensReq alloc turns
    pure (r.map (received s id))

/-- Nothing was written outside of the object, and the lengths stored fit its arrays and those that
are made of them. -/
structure Stored (q : RmMeasReq) : Prop where
  fault : q.bcn.fault = false
  optId : q.bcn.optId.length ≤ bcnReqOptMaxNum
  ssidLength : q.bcn.ssidLength ≤ 32
  len : ∀ op ∈ q.bcn.apChRpt, op.len ≤ maxChNumInOpClass
  apChRpt : q.bcn.apChRpt.length ≤ bcnReqOptApChRptMaxNum
  chSet : (rmSitesurvey q).length ≤ rtwChannelScanAmount

/-- A request that is rejected keeps no object and no clock. -/
def Handled : Received → Prop
  | .noObj _ => True
  | .rejected s id => s.heap id = none ∧ ∀ k, (s.clock k).prm ≠ some id
  | .accepted _ _ q => Stored q

/-- The subelement at `q` lies in the frame as far as it is read, and there is room for it. -/
@[mk_iff] structure SubelemFits (mem : ℕ → Byte) (n : ℕ) (ok : Bool) (q rpts : ℕ) : Prop where
  header : q + 2 ≤ n
  ssid : mem q = 0 → (mem (q + 1)).toNat ≤ 32 ∧ q + 2 + min (mem (q + 1)).toNat 31 ≤ n
  repInfo : mem q = 1 → q + 4 ≤ n
  repDetail : mem q = 2 → q + 3 ≤ n
  req : mem q = 10 → ok = true → q + 2 + (mem (q + 1)).toNat ≤ n
  apChRep : mem q = 51 → ok = true ∧ rpts < bcnReqOptApChRptMaxNum ∧ 1 ≤ (mem (q + 1)).toNat ∧
    (mem (q + 1)).toNat ≤ 12 ∧ q + 2 + (mem (q + 1)).toNat ≤ n

/-- Whether the id of the subelement is recorded. -/
def recorded (mem : ℕ → Byte) (ok : Bool) (q : ℕ) : Bool :=
  mem q == 0 || mem q == 2 || (mem q == 10 && ok) || mem q == 51

/-- The number of channels that the subelement reports. -/
def reportedChs (mem : ℕ → Byte) (q : ℕ) : ℕ :=
  if mem q = 51 then (mem (q + 1)).toNat - 1 else 0

/-- The subelements of a beacon request from `p` on, of `len` bytes, behind `ids` recorded ids,
`rpts` reports and `chs` channels: their lengths add up exactly unless the sixteenth recorded one
comes first, each fits, and when the reports are surveyed they have no more channels than there is
room for. -/
inductive SubelemsFit (mem : ℕ → Byte) (n : ℕ) (alloc : ℕ → Bool) (pbody : ℕ) (all : Bool) :
    ℕ → ℤ → ℕ → ℕ → ℕ → Prop
  | stop {p ids rpts chs : ℕ} {len : ℤ} (h : len = 0 ∨ bcnReqOptMaxNum ≤ ids)
      (hchs : all = true → chs ≤ rtwChannelScanAmount) :
      SubelemsFit mem n alloc pbody all p len ids rpts chs
  | elem {p ids rpts chs : ℕ} {len : ℤ} (h : ¬(len = 0 ∨ bcnReqOptMaxNum ≤ ids))
      (hfits : SubelemFits mem n (alloc p) (pbody + p) rpts)
      (rest : SubelemsFit mem n alloc pbody all (p + (mem (pbody + p + 1)).toNat + 2)
        (len - (mem (pbody + p + 1)).toNat - 2)
        (ids + if recorded mem (alloc p) (pbody + p) then 1 else 0)
        (rpts + if mem (pbody + p) = 51 then 1 else 0) (chs + reportedChs mem (pbody + p))) :
      SubelemsFit mem n alloc pbody all p len ids rpts chs

/-- The subelements of the other requests: their lengths add up exactly. -/
inductive RepCondsFit (mem : ℕ → Byte) (n pbody : ℕ) : ℕ → ℤ → Prop
  | stop {p : ℕ} : RepCondsFit mem n pbody p 0
  | elem {p : ℕ} {len : ℤ} (h : len ≠ 0) (hin : pbody + p + 2 ≤ n)
      (hcond : mem (pbody + p) = 1 → pbody + p + 4 ≤ n)
      (rest : RepCondsFit mem n pbody (p + (mem (pbody + p + 1)).toNat + 2)
        (len - (mem (pbody + p + 1)).toNat - 2)) : RepCondsFit mem n pbody p len

/-- A request that is as long as its lengths say, with no more in it than there is room for. -/
structure ReqFits (mem : ℕ → Byte) (n : ℕ) (alloc : ℕ → Bool) : Prop where
  hdr : 10 ≤ n
  eId : mem 5 = measReqIe
  fixed : mem 9 = bcnReq ∨ mem 9 = chLoadReq ∨ mem 9 = noiseHistoReq → 16 ≤ n
  bcn : mem 9 = bcnReq → 23 ≤ n
  subelems : mem 9 = bcnReq → 16 < (mem 6).toNat →
    SubelemsFit mem n alloc 23 (mem 11 = 255) 0 ((mem 6).toNat - 16) 0 0 0
  repConds : mem 9 = chLoadReq ∨ mem 9 = noiseHistoReq → 9 < (mem 6).toNat →
    RepCondsFit mem n 16 0 ((mem 6).toNat - 9)

section Subelem

variable {mem : ℕ → Byte} {n p : ℕ} {ok : Bool} {opt : BcnReqOpt}

theorem sizeT_le_iff {l : ℕ} (hl : l < 256) :
    sizeT (min ((l : ℤ) - 1) maxChNumInOpClass) ≤ maxChNumInOpClass ↔ 1 ≤ l := by
  unfold sizeT maxChNumInOpClass
  omega

theorem sizeT_of_pos {l : ℕ} (hl : l < 256) (hpos : 1 ≤ l) :
    sizeT (min ((l : ℤ) - 1) maxChNumInOpClass) = min (l - 1) 11 := by
  unfold sizeT maxChNumInOpClass
  omega

/-- A subelement is read inside the frame and stored without a fault just when it fits. -/
theorem inside_bcnReqSubelem_iff (hf : opt.fault = false)
    (hrpts : opt.apChRpt.length ≤ bcnReqOptApChRptMaxNum) :
    (bcnReqSubelem ok p opt).Inside mem 0 n ∧ p + 2 ≤ n ∧
      ((bcnReqSubelem ok p opt).value mem).fault = false ↔
      SubelemFits mem n ok p opt.apChRpt.length := by
  rw [subelemFits_iff, bcnReqSubelem, inside_bind, inside_cell, value_bind, value_cell]
  by_cases h0 : mem p = 0
  · rw [if_pos h0, inside_bind, inside_bind, inside_cell, inside_cells, value_cell, value_bind,
      value_bind, value_cell, value_pure]
    simp [h0, hf]
    omega
  by_cases h1 : mem p = 1
  · rw [if_neg h0, if_pos h1, inside_bind, inside_cells, value_bind, value_pure]
    simp [h1, hf]
    omega
  by_cases h2 : mem p = 2
  · rw [if_neg h0, if_neg h1, if_pos h2, inside_bind, inside_cell, value_bind, value_pure]
    simp [h2, hf]
    omega
  by_cases h10 : mem p = 10
  · rw [if_neg h0, if_neg h1, if_neg h2, if_pos h10, inside_bind, inside_cell, value_cell,
      value_bind, value_cell]
    cases ok
    · simp [h10, hf]
      omega
    · rw [if_pos rfl, inside_bind, inside_cells, value_bind, value_pure]
      simp [h10, hf]
      omega
  by_cases h51 : mem p = 51
  · have hl := (mem (p + 1)).isLt
    have hsize := sizeT_le_iff hl
    have hpos := @sizeT_of_pos _ hl
    rw [if_neg h0, if_neg h1, if_neg h2, if_neg h10, if_pos h51, if_neg (by omega), inside_bind,
      inside_bind, inside_bind, inside_cell, inside_cell, inside_cells, value_cell, value_cell,
      value_bind, value_bind, value_bind, value_cell, value_cell, value_pure]
    dsimp only
    generalize sizeT (min (((mem (p + 1)).toNat : ℤ) - 1) maxChNumInOpClass) = num at hsize hpos ⊢
    simp only [hf, Bool.false_or, Bool.or_eq_false_iff, Bool.not_eq_false',
      decide_eq_false_iff_not]
    simp only [maxChNumInOpClass] at hsize ⊢
    constructor
    · rintro ⟨⟨-, ⟨-, h2n⟩, -, hchs, -⟩, hp, ⟨⟨hok, hnum⟩, hlen⟩, hrpt⟩
      have hl1 := hsize.mp (by omega)
      have := hpos hl1
      exact ⟨hp, fun h => absurd h h0, fun h => absurd h h1, fun h => absurd h h2,
        fun h => absurd h h10, fun _ => ⟨hok, by omega, hl1, by omega, by omega⟩⟩
    · rintro ⟨hp, -, -, -, -, hrep⟩
      obtain ⟨hok, hrpt, hl1, hl12, hin⟩ := hrep h51
      have := hpos hl1
      exact ⟨⟨⟨by omega, by omega⟩, ⟨by omega, by omega⟩, ⟨by omega, by omega⟩,
        .inr ⟨by omega, by omega⟩, inside_pure _⟩, hp, ⟨⟨hok, by omega⟩, by omega⟩, by omega⟩
  · rw [if_neg h0, if_neg h1, if_neg h2, if_neg h10, if_neg h51]
    constructor
    · rintro ⟨-, hp, -⟩
      exact ⟨hp, fun h => absurd h h0, fun h => absurd h h1, fun h => absurd h h2,
        fun h => absurd h h10, fun h => absurd h h51⟩
    · rintro ⟨hp, -⟩
      exact ⟨⟨⟨Nat.zero_le p, by omega⟩, inside_pure opt⟩, hp, hf⟩

/-- The options hold what they are counted to hold, within their bounds. -/
structure Counted (opt : BcnReqOpt) (ids rpts chs : ℕ) : Prop where
  fault : opt.fault = false
  ssidLength : opt.ssidLength ≤ 32
  len : ∀ op ∈ opt.apChRpt, op.len ≤ maxChNumInOpClass
  optId : opt.optId.length = ids
  apChRpt : opt.apChRpt.length = rpts
  room : rpts ≤ bcnReqOptApChRptMaxNum
  chs : (rmGetChSetFromBcnReqOpt opt).length = chs

variable {ids rpts chs : ℕ}

theorem Counted.of_apChRpt_eq {opt' : BcnReqOpt} {ids' rpts' chs' : ℕ}
    (hq : Counted opt ids rpts chs) (hrpt : opt'.apChRpt = opt.apChRpt) (hf : opt'.fault = false)
    (hssid : opt'.ssidLength ≤ 32) (hids : opt'.optId.length = ids') (hrpts : rpts' = rpts)
    (hchs : chs' = chs) : Counted opt' ids' rpts' chs' := by
  subst hrpts hchs
  refine ⟨hf, hssid, ?_, hids, ?_, hq.room, ?_⟩
  · rw [hrpt]
    exact hq.len
  · rw [hrpt]
    exact hq.apChRpt
  · rw [← hq.chs, rmGetChSetFromBcnReqOpt, hrpt, rmGetChSetFromBcnReqOpt]

/-- What a subelement that fits does to the counts. -/
theorem counted_bcnReqSubelem (hq : Counted opt ids rpts chs)
    (hfits : SubelemFits mem n ok p rpts) :
    Counted ((bcnReqSubelem ok p opt).value mem) (ids + if recorded mem ok p then 1 else 0)
      (rpts + if mem p = 51 then 1 else 0) (chs + reportedChs mem p) := by
  have hrpts := hq.apChRpt
  have hids := hq.optId
  have hfault : ((bcnReqSubelem ok p opt).value mem).fault = false :=
    ((inside_bcnReqSubelem_iff hq.fault (hrpts ▸ hq.room)).mpr (hrpts.symm ▸ hfits)).2.2
  unfold recorded reportedChs
  rw [bcnReqSubelem, value_bind, value_cell] at hfault ⊢
  by_cases h0 : mem p = 0
  · rw [if_pos h0, value_bind, value_cell, value_bind, value_pure] at hfault ⊢
    exact hq.of_apChRpt_eq rfl hfault (hfits.ssid h0).1 (by simp [h0, hids]) (by simp [h0])
      (by simp [h0])
  by_cases h1 : mem p = 1
  · rw [if_neg h0, if_pos h1, value_bind, value_pure] at hfault ⊢
    exact hq.of_apChRpt_eq rfl hfault hq.ssidLength (by simp [h1, hids]) (by simp [h1])
      (by simp [h1])
  by_cases h2 : mem p = 2
  · rw [if_neg h0, if_neg h1, if_pos h2, value_bind, value_pure] at hfault ⊢
    exact hq.of_apChRpt_eq rfl hfault hq.ssidLength (by simp [h2, hids]) (by simp [h2])
      (by simp [h2])
  by_cases h10 : mem p = 10
  · rw [if_neg h0, if_neg h1, if_neg h2, if_pos h10, value_bind, value_cell] at hfault ⊢
    cases ok
    · rw [if_neg (by decide), value_pure] at hfault ⊢
      exact hq.of_apChRpt_eq rfl hfault hq.ssidLength (by simp [h10, hids]) (by simp [h10])
        (by simp [h10])
    · rw [if_pos rfl, value_bind, value_pure] at hfault ⊢
      exact hq.of_apChRpt_eq rfl hfault hq.ssidLength (by simp [h10, hids]) (by simp [h10])
        (by simp [h10])
  by_cases h51 : mem p = 51
  · obtain ⟨-, hroom, hl1, hl12, -⟩ := hfits.apChRep h51
    rw [if_neg h0, if_neg h1, if_neg h2, if_neg h10, if_pos h51, if_neg (by omega), value_bind,
      value_bind, value_bind, value_pure] at hfault ⊢
    refine ⟨hfault, hq.ssidLength, ?_, ?_, ?_, ?_, ?_⟩
    · intro op hop
      rcases List.mem_append.mp hop with hop | hop
      · exact hq.len op hop
      · rw [List.mem_singleton.mp hop]
        unfold maxChNumInOpClass
        simp only [value_cell]
        omega
    · simp [h51, hids]
    · simp [h51, hrpts]
    · rwa [if_pos h51]
    · rw [rmGetChSetFromBcnReqOpt, List.flatMap_append, List.length_append, if_pos h51, ← hq.chs,
        rmGetChSetFromBcnReqOpt]
      simp
  · rw [if_neg h0, if_neg h1, if_neg h2, if_neg h10, if_neg h51, value_pure] at hfault ⊢
    have hrec : (mem p == 0 || mem p == 2 || (mem p == 10 && ok) || mem p == 51) = false := by
      simp only [Bool.or_eq_false_iff, Bool.and_eq_false_iff, beq_eq_false_iff_ne]
      exact ⟨⟨⟨h0, h2⟩, .inl h10⟩, h51⟩
    rwa [hrec, if_neg (by decide), if_neg h51, if_neg h51]

/-- A fault is not undone. -/
theorem fault_of_bcnReqSubelem (h : ((bcnReqSubelem ok p opt).value mem).fault = false) :
    opt.fault = false := by
  rw [bcnReqSubelem, value_bind, value_cell] at h
  split_ifs at h
  · rw [value_bind, value_bind, value_pure] at h
    exact (Bool.or_eq_false_iff.mp h).1
  · rw [value_bind, value_pure] at h
    exact h
  · rw [value_bind, value_pure] at h
    exact h
  · rw [value_bind, value_bind, value_pure] at h
    exact h
  · exact h
  · exact h
  · rw [value_bind, value_bind, value_bind, value_pure] at h
    simp only [Bool.or_eq_false_iff] at h
    exact h.1.1.1.1
  · exact h

end Subelem

/-- What is called for of the options of a beacon request; `all` is whether their reports are
surveyed. -/
structure StoredOpt (all : Bool) (opt : BcnReqOpt) : Prop where
  fault : opt.fault = false
  optId : opt.optId.length ≤ bcnReqOptMaxNum
  ssidLength : opt.ssidLength ≤ 32
  len : ∀ op ∈ opt.apChRpt, op.len ≤ maxChNumInOpClass
  apChRpt : opt.apChRpt.length ≤ bcnReqOptApChRptMaxNum
  chSet : all = true → (rmGetChSetFromBcnReqOpt opt).length ≤ rtwChannelScanAmount

section Loop

variable {mem : ℕ → Byte} {n pbody p ids rpts chs turns : ℕ} {alloc : ℕ → Bool} {all : Bool}
  {len : ℤ} {opt : BcnReqOpt}

theorem Counted.storedOpt_iff (hq : Counted opt ids rpts chs) (hids : ids ≤ bcnReqOptMaxNum) :
    StoredOpt all opt ↔ (all = true → chs ≤ rtwChannelScanAmount) := by
  constructor
  · intro h
    rw [← hq.chs]
    exact h.chSet
  · intro h
    refine ⟨hq.fault, ?_, hq.ssidLength, hq.len, ?_, ?_⟩
    · rwa [hq.optId]
    · rw [hq.apChRpt]
      exact hq.room
    · rwa [hq.chs]

theorem fault_of_rmParseBcnReqSElem {r : BcnReqOpt}
    (h : (rmParseBcnReqSElem alloc pbody turns p len opt).value mem = some r)
    (hr : r.fault = false) : opt.fault = false := by
  induction turns generalizing p len opt with
  | zero => cases h
  | succ turns ih =>
    rw [rmParseBcnReqSElem] at h
    split_ifs at h
    · cases h
      exact hr
    · rw [value_bind, value_bind] at h
      exact fault_of_bcnReqSubelem (ih h)

theorem bounded_rmParseBcnReqSElem_step :
    Bounded (fun turns => rmParseBcnReqSElem alloc pbody turns p len opt) mem n (StoredOpt all) ↔
      (len = 0 ∨ bcnReqOptMaxNum ≤ opt.optId.length → StoredOpt all opt) ∧
        (¬(len = 0 ∨ bcnReqOptMaxNum ≤ opt.optId.length) →
          (bcnReqSubelem (alloc p) (pbody + p) opt).Inside mem 0 n ∧
            (cell (pbody + p + 1)).Inside mem 0 n ∧
            Bounded (fun turns => rmParseBcnReqSElem alloc pbody turns
              (p + (mem (pbody + p + 1)).toNat + 2) (len - (mem (pbody + p + 1)).toNat - 2)
              ((bcnReqSubelem (alloc p) (pbody + p) opt).value mem)) mem n (StoredOpt all)) := by
  rw [← bounded_succ (by rfl)]
  simp only [rmParseBcnReqSElem]
  rw [bounded_ite, bounded_pure, bounded_bind, bounded_bind, value_cell]

theorem subelemsFit_of_bounded (hq : Counted opt ids rpts chs) (hids : ids ≤ bcnReqOptMaxNum)
    (h : Bounded (fun turns => rmParseBcnReqSElem alloc pbody turns p len opt) mem n
      (StoredOpt all)) : SubelemsFit mem n alloc pbody all p len ids rpts chs := by
  obtain ⟨turns, hturns⟩ := h.halts
  induction turns generalizing p len opt ids rpts chs with
  | zero => exact absurd rfl hturns
  | succ turns ih =>
    obtain ⟨hstop, hmore⟩ := bounded_rmParseBcnReqSElem_step.mp h
    rw [hq.optId] at hstop hmore
    by_cases hend : len = 0 ∨ bcnReqOptMaxNum ≤ ids
    · exact .stop hend ((hq.storedOpt_iff hids).mp (hstop hend))
    · obtain ⟨hin, hlen, hrest⟩ := hmore hend
      rw [rmParseBcnReqSElem, hq.optId, if_neg hend, value_bind, value_bind, value_cell] at hturns
      obtain ⟨r, hr⟩ := Option.ne_none_iff_exists'.mp hturns
      have hfault := fault_of_rmParseBcnReqSElem hr (hrest.result _ r hr).fault
      have hp : pbody + p + 2 ≤ n := by
        rw [inside_cell] at hlen
        omega
      have hfits := (inside_bcnReqSubelem_iff hq.fault (hq.apChRpt ▸ hq.room)).mp ⟨hin, hp, hfault⟩
      rw [hq.apChRpt] at hfits
      refine .elem hend hfits (ih (counted_bcnReqSubelem hq hfits) ?_ hrest hturns)
      split_ifs <;> omega

theorem bounded_of_subelemsFit (h : SubelemsFit mem n alloc pbody all p len ids rpts chs)
    (hq : Counted opt ids rpts chs) (hids : ids ≤ bcnReqOptMaxNum) :
    Bounded (fun turns => rmParseBcnReqSElem alloc pbody turns p len opt) mem n
      (StoredOpt all) := by
  induction h generalizing opt with
  | stop hend hchs =>
    refine bounded_rmParseBcnReqSElem_step.mpr ⟨fun _ => (hq.storedOpt_iff hids).mpr hchs, ?_⟩
    rw [hq.optId]
    exact fun hmore => absurd hend hmore
  | elem hmore hfits _ ih =>
    refine bounded_rmParseBcnReqSElem_step.mpr ⟨?_, fun _ => ?_⟩
    · rw [hq.optId]
      exact fun hend => absurd hend hmore
    · obtain ⟨hin, hp, -⟩ :=
        (inside_bcnReqSubelem_iff hq.fault (hq.apChRpt ▸ hq.room)).mpr (hq.apChRpt.symm ▸ hfits)
      refine ⟨hin, ?_, ih (counted_bcnReqSubelem hq hfits) ?_⟩
      · rw [inside_cell]
        omega
      · split_ifs <;> omega

theorem bounded_parseRepCond_step {id : Byte} {cond : List Byte} :
    Bounded (fun turns => parseRepCond id pbody turns p len cond) mem n (fun _ => True) ↔
      (len ≠ 0 → (repCondSubelem id (pbody + p) cond).Inside mem 0 n ∧
        (cell (pbody + p + 1)).Inside mem 0 n ∧
        Bounded (fun turns => parseRepCond id pbody turns (p + (mem (pbody + p + 1)).toNat + 2)
          (len - (mem (pbody + p + 1)).toNat - 2)
          ((repCondSubelem id (pbody + p) cond).value mem)) mem n (fun _ => True)) := by
  rw [← bounded_succ (by rfl)]
  simp only [parseRepCond]
  rw [bounded_ite, bounded_pure, bounded_bind, bounded_bind, value_cell]
  simp

theorem inside_repCondSubelem_iff {id : Byte} {cond : List Byte} :
    (repCondSubelem id p cond).Inside mem 0 n ∧ p + 2 ≤ n ↔
      p + 2 ≤ n ∧ (mem p = id → p + 4 ≤ n) := by
  rw [repCondSubelem, inside_bind, inside_cell, value_cell]
  by_cases h : mem p = id
  · rw [if_pos h, inside_cells]
    simp only [h, forall_const]
    omega
  · rw [if_neg h]
    constructor
    · exact fun hin => ⟨hin.2, fun heq => absurd heq h⟩
    · exact fun hin => ⟨⟨⟨Nat.zero_le p, by omega⟩, inside_pure cond⟩, hin.1⟩

theorem bounded_parseRepCond_iff {cond : List Byte} :
    Bounded (fun turns => parseRepCond 1 pbody turns p len cond) mem n (fun _ => True) ↔
      RepCondsFit mem n pbody p len := by
  constructor
  · intro h
    obtain ⟨turns, hturns⟩ := h.halts
    induction turns generalizing p len cond with
    | zero => exact absurd rfl hturns
    | succ turns ih =>
      by_cases hlen : len = 0
      · subst hlen
        exact .stop
      · obtain ⟨hin, hcell, hrest⟩ := bounded_parseRepCond_step.mp h hlen
        rw [parseRepCond, if_neg hlen, value_bind, value_bind, value_cell] at hturns
        have hp : pbody + p + 2 ≤ n := by
          rw [inside_cell] at hcell
          omega
        have hfits := inside_repCondSubelem_iff.mp ⟨hin, hp⟩
        exact .elem hlen hp hfits.2 (ih hrest hturns)
  · intro h
    induction h generalizing cond with
    | stop => exact bounded_parseRepCond_step.mpr fun hne => absurd rfl hne
    | elem hlen hp hcond _ ih =>
      refine bounded_parseRepCond_step.mpr fun _ => ?_
      refine ⟨(inside_repCondSubelem_iff.mpr ⟨hp, hcond⟩).1, ?_, ih⟩
      rw [inside_cell]
      omega

end Loop

section Request

variable {mem : ℕ → Byte} {n reqLen : ℕ} {alloc : ℕ → Bool} {q : RmMeasReq} {s : RmPriv}

theorem length_rmGetChSet_le (opClass chNum : Byte) : (rmGetChSet opClass chNum).length ≤ 11 := by
  unfold rmGetChSet
  split_ifs
  · simp
  · cases hfind : rtwOpClassUs.find? fun op => op.1 == opClass with
    | none => simp
    | some op =>
      have hmem := List.mem_of_find?_eq_some hfind
      have hall : ∀ op ∈ rtwOpClassUs, op.2.length ≤ 11 := by decide
      exact hall op hmem

theorem stored_iff : Stored q ↔ StoredOpt (q.chNum = 255) q.bcn := by
  have hset (h : q.chNum ≠ 255) : (rmSitesurvey q).length ≤ rtwChannelScanAmount := by
    have hle := length_rmGetChSet_le q.opClass q.chNum
    unfold rmSitesurvey rtwChannelScanAmount
    split_ifs <;> omega
  have hall (h : q.chNum = 255) : rmSitesurvey q = rmGetChSetFromBcnReqOpt q.bcn := by
    rw [rmSitesurvey, h, if_neg (by decide), if_pos rfl]
  constructor
  · rintro ⟨hf, hid, hssid, hlen, hrpt, hch⟩
    refine ⟨hf, hid, hssid, hlen, hrpt, fun h => ?_⟩
    rwa [← hall (of_decide_eq_true h)]
  · rintro ⟨hf, hid, hssid, hlen, hrpt, hch⟩
    refine ⟨hf, hid, hssid, hlen, hrpt, ?_⟩
    by_cases h : q.chNum = 255
    · rw [hall h]
      exact hch (decide_eq_true h)
    · exact hset h

theorem counted_zeroReq {detail : Byte} : Counted { zeroReq.bcn with repDetail := detail } 0 0 0 :=
  ⟨rfl, Nat.zero_le 32, fun _ hop => absurd hop List.not_mem_nil, rfl, rfl, Nat.zero_le _, rfl⟩

theorem stored_of_bcn_eq_zeroReq (h : q.bcn = zeroReq.bcn) : Stored q := by
  rw [stored_iff, h]
  exact (counted_zeroReq.storedOpt_iff (Nat.zero_le _)).mpr fun _ => Nat.zero_le _

theorem bounded_parseBcnReq_iff (h : q.bcn = zeroReq.bcn) :
    Bounded (fun turns => parseBcnReq alloc 5 reqLen turns q) mem n Stored ↔
      23 ≤ n ∧ (16 < reqLen →
        SubelemsFit mem n alloc 23 (q.chNum = 255) 0 ((reqLen : ℤ) - 16) 0 0 0) := by
  simp only [parseBcnReq]
  rw [bounded_bind, bounded_bind, bounded_ite, bounded_pure, bounded_map, inside_cell, inside_cells]
  simp only [stored_iff, h]
  have hzero := @counted_zeroReq 2
  have hstored : StoredOpt (q.chNum = 255) { zeroReq.bcn with repDetail := 2 } :=
    (hzero.storedOpt_iff (Nat.zero_le _)).mpr fun _ => Nat.zero_le _
  constructor
  · rintro ⟨-, hbssid, -, hmore⟩
    exact ⟨by omega, fun hlen => subelemsFit_of_bounded hzero (Nat.zero_le _) (hmore (by omega))⟩
  · rintro ⟨hn, hfit⟩
    exact ⟨by omega, by omega, fun _ => hstored,
      fun hlen => bounded_of_subelemsFit (hfit (by omega)) hzero (Nat.zero_le _)⟩

theorem bounded_parseOther_iff (h : q.bcn = zeroReq.bcn) :
    Bounded (fun turns => parseOther 5 reqLen turns q) mem n Stored ↔
      (q.mType = chLoadReq ∨ q.mType = noiseHistoReq → 9 < reqLen →
        RepCondsFit mem n 16 0 ((reqLen : ℤ) - 9)) := by
  have hstored (q' : RmMeasReq) (h' : q'.bcn = q.bcn) : Stored q' ↔ True :=
    iff_true_intro (stored_of_bcn_eq_zeroReq (h'.trans h))
  simp only [parseOther, rmParseChLoadSElem, rmParseNoiseHistoSElem]
  rw [bounded_ite, bounded_pure, bounded_ite, bounded_map, bounded_ite, bounded_map, bounded_pure]
  simp only [hstored, bounded_parseRepCond_iff]
  constructor
  · rintro ⟨-, hmore⟩ htype hlen
    by_cases hload : q.mType = chLoadReq
    · exact (hmore (by omega)).1 hload
    · exact ((hmore (by omega)).2 hload).1 (htype.resolve_left hload)
  · intro hfit
    exact ⟨fun _ => trivial, fun hlen => ⟨fun hload => hfit (.inl hload) (by omega),
      fun _ => ⟨fun hhisto => hfit (.inr hhisto) (by omega), fun _ => trivial⟩⟩⟩

theorem inside_parseFixed_iff : (parseFixed 5 q).Inside mem 0 n ↔ 16 ≤ n := by
  unfold parseFixed
  simp only [inside_bind, inside_cell, inside_cells, inside_pure, and_true]
  omega

theorem inside_recvFixed_iff : recvFixed.Inside mem 0 n ↔ 10 ≤ n := by
  unfold recvFixed
  simp only [inside_bind, inside_cell, inside_cells, inside_pure, and_true]
  omega

theorem bounded_rmParseMeasReq_iff (h : q.bcn = zeroReq.bcn) :
    Bounded (fun turns => rmParseMeasReq alloc 5 turns q) mem n Stored ↔
      16 ≤ n ∧ (q.mType = bcnReq → 23 ≤ n ∧ (16 < (mem 6).toNat →
          SubelemsFit mem n alloc 23 (mem 11 = 255) 0 ((mem 6).toNat - 16) 0 0 0)) ∧
        (q.mType ≠ bcnReq → q.mType = chLoadReq ∨ q.mType = noiseHistoReq → 9 < (mem 6).toNat →
          RepCondsFit mem n 16 0 ((mem 6).toNat - 9)) := by
  simp only [rmParseMeasReq]
  rw [bounded_bind, bounded_bind, bounded_ite, inside_parseFixed_iff, inside_cell, value_cell,
    bounded_parseBcnReq_iff (q := (parseFixed 5 q).value mem) h,
    bounded_parseOther_iff (q := (parseFixed 5 q).value mem) h]
  constructor
  · rintro ⟨-, hn, hbcn, hother⟩
    exact ⟨hn, hbcn, hother⟩
  · rintro ⟨hn, hbcn, hother⟩
    exact ⟨by omega, hn, hbcn, hother⟩

theorem bounded_rmRecvRadioMensReq_iff :
    Bounded (rmRecvRadioMensReq alloc) mem n (fun r => r.2 = true ∧ Stored r.1) ↔
      ReqFits mem n alloc := by
  unfold rmRecvRadioMensReq
  rw [bounded_bind, bounded_ite, bounded_pure, bounded_ite, bounded_map, bounded_pure,
    inside_recvFixed_iff]
  simp only [Bool.false_eq_true, false_and, true_and,
    bounded_rmParseMeasReq_iff (q := recvFixed.value mem) rfl]
  have heId : (recvFixed.value mem).eId = mem 5 := rfl
  have hmType : (recvFixed.value mem).mType = mem 9 := rfl
  rw [heId, hmType]
  have hload : chLoadReq ≠ bcnReq := by decide
  have hhisto : noiseHistoReq ≠ bcnReq := by decide
  constructor
  · rintro ⟨hn, hid, hrest⟩
    have heq : mem 5 = measReqIe := by_contra hid
    obtain ⟨hparse, -⟩ := hrest (not_not_intro heq)
    refine ⟨hn, heq, fun htype => ?_, fun hbcn => ?_, fun hbcn => ?_, fun hother => ?_⟩
    · exact (hparse (by tauto)).1
    · exact ((hparse (.inl hbcn)).2.1 hbcn).1
    · exact ((hparse (.inl hbcn)).2.1 hbcn).2
    · refine (hparse (.inr hother)).2.2 ?_ hother
      rcases hother with h | h
      · rwa [h]
      · rwa [h]
  · rintro ⟨hn, heq, hfixed, hbcn, hsub, hcond⟩
    refine ⟨hn, fun hne => hne heq, fun _ => ⟨fun htype => ?_, fun _ => ?_⟩⟩
    · exact ⟨hfixed htype, fun h => ⟨hbcn h, hsub h⟩, fun _ => hcond⟩
    · exact stored_of_bcn_eq_zeroReq rfl

/-- A rejected request keeps its object. -/
theorem bounded_recvRequest_iff :
    Bounded (recvRequest s true alloc) mem n Handled ↔
      Bounded (rmRecvRadioMensReq alloc) mem n fun r => r.2 = true ∧ Stored r.1 := by
  unfold recvRequest
  simp only [rmAllocRmobj, Bool.not_true, Bool.false_eq_true, if_false]
  rw [bounded_map]
  suffices hsame : (fun r => Handled (received (rmAllocRmobj s true).1 s.next r)) =
      fun r => r.2 = true ∧ Stored r.1 by
    rw [← hsame]
    rfl
  funext r
  obtain ⟨q, ok⟩ := r
  cases ok
  · simp [received, Handled, rmAllocRmobj]
  · simp [received, Handled]

end Request

/-- A request is handled within all bounds just when it fits. -/
theorem recvRequest_bounded_iff (s : RmPriv) (frame : ℕ → Byte) (n : ℕ) (alloc : ℕ → Bool) :
    (∀ mem, Bounded (recvRequest s mem alloc) frame n Handled) ↔ ReqFits frame n alloc := by
  have hnone : Bounded (recvRequest s false alloc) frame n Handled := by
    unfold recvRequest
    exact bounded_pure.mpr trivial
  rw [Bool.forall_bool, and_iff_right hnone, bounded_recvRequest_iff,
    bounded_rmRecvRadioMensReq_iff]

/-- A beacon request with a single byte behind its BSSID. -/
def oddBcnReq : List Byte :=
  [5, 0, 1, 0, 0, 38, 17, 1, 1, 5, 81, 6, 0, 0, 20, 0, 1, 255, 255, 255, 255, 255, 255, 0]

theorem not_bounded_oddBcnReq :
    ¬Bounded (recvRequest Rm.rtwInitRm true fun _ => true) (fun i => oddBcnReq.getD i 0)
      oddBcnReq.length Handled := by
  intro h
  have hfits := bounded_rmRecvRadioMensReq_iff.mp (bounded_recvRequest_iff.mp h)
  cases hfits.subelems (by decide) (by decide) with
  | stop hend _ => exact absurd hend (by decide)
  | elem _ hfits' _ => exact absurd hfits'.header (by decide)

end Rtl8821cu.RmReq
