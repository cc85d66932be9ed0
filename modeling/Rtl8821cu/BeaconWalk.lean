import Rtl8821cu.IeSearch

/-! The elements of a beacon: the check of their lengths and what is taken from them
(`core/rtw_wlan_util.c`, `core/rtw_vht.c`). -/
namespace Rtl8821cu.BeaconWalk
open Store Reads Elements IeSearch
open Ies (wlanEidVendorSpecific)

def checkIelenLoop (pos : ℕ) (left : ℤ) : Reading (BitVec 8) Bool :=
  if 2 ≤ left then do
    let id ← cell pos
    let elen ← cell (pos + 1)
    let left := left - 2
    if left < elen.toNat then pure false
    else if id = wlanEidVendorSpecific ∧ elen.toNat < 3 then pure false
    else checkIelenLoop (pos + 2 + elen.toNat) (left - elen.toNat)
  else pure (left == 0)
termination_by left.toNat

/-- `check_ielen`; `left` is the length as an `int`. -/
def checkIelen (start : ℕ) (len : BitVec 32) : Reading (BitVec 8) Bool :=
  checkIelenLoop start len.toInt

/-- `_BEACON_IE_OFFSET_ + sizeof(struct rtw_ieee80211_hdr_3addr)`. -/
def ieOffset : ℕ := 36

def validateBeaconLen (pframe : ℕ) (len : BitVec 32) : Reading (BitVec 8) Bool :=
  if len.toNat < ieOffset then pure false else checkIelen (pframe + ieOffset) (len - 36)

/-- What is used of `struct sta_info`; the map has two bits for each spatial stream. -/
structure Sta where
  htOption : Bool
  bwMode : ℕ
  chOffset : ℕ
  vhtMcsMap : BitVec 8 × BitVec 8
  rtsen : Bool
  cts2self : Bool

/-- The commands that are queued. -/
inductive Cmd
  | wmmEdcaUpdate
  | raMask
  deriving DecidableEq

/-- What is used of `mlme_priv`, `mlme_ext_priv` and `mlme_ext_info`, the station that sent the
beacon, and the commands queued. -/
structure State where
  htOption : Bool
  vhtOption : Bool
  qosOption : Bool
  wmmEnable : Bool
  wmmParam : List (BitVec 8)
  htInfoEnable : Bool
  htInfo : List (BitVec 8)
  erpEnable : Bool
  erpIe : BitVec 8
  curBwmode : ℕ
  curChOffset : ℕ
  bwmodeUpdated : Bool
  sta : Sta
  cmds : List Cmd

/-- What the handlers look up besides; `netSta` tells that the station of the network's address is
the one that sent the beacon. -/
structure Env where
  bwCap40 : Bool
  bwSupport : ℕ → Bool
  bw2g : ℕ
  bw5g : ℕ
  curChannel : ℕ
  txNss : ℕ
  vrtlCarrierSense : ℕ
  vcsType : ℕ
  netSta : Bool

def wmmParaOui : List (BitVec 8) := [0x00, 0x50, 0xf2, 0x02, 0x01, 0x01]

/-- `WMM_param_handler`, and the report if it returns true. -/
def wmmParamHandler (pIE : ℕ) (st : State) : Reading (BitVec 8) State :=
  if st.qosOption then do
    let param ← cells (pIE + 2 + 6) 18
    if param = st.wmmParam then pure st
    else pure { st with
      wmmParam := param, wmmEnable := true, cmds := st.cmds ++ [.wmmEdcaUpdate] }
  else pure { st with wmmEnable := false }

/-- `HT_info_handler`; `struct HT_info_element` has 22 bytes. -/
def htInfoHandler (pIE : ℕ) (st : State) : Reading (BitVec 8) State :=
  if st.htOption then do
    let len ← cell (pIE + 1)
    if 22 < len.toNat then pure st
    else do
      let data ← cells (pIE + 2) len.toNat
      pure { st with htInfoEnable := true, htInfo := data ++ st.htInfo.drop len.toNat }
  else pure st

/-- The bandwidth and the channel offset that `infos[0]` tells. -/
def newBwmode (cbw40Enable : Bool) (info0 : BitVec 8) : ℕ × ℕ :=
  if info0.getLsbD 2 && cbw40Enable then
    match (info0 &&& 3).toNat with
    | 1 => (1, 1)
    | 3 => (1, 2)
    | _ => (0, 0)
  else (0, 0)

/-- The station of the network takes over the bandwidth. -/
def updateNetSta (env : Env) (st : State) : State :=
  if env.netSta then
    let sta := if st.sta.htOption
      then { st.sta with bwMode := st.curBwmode, chOffset := st.curChOffset }
      else { st.sta with bwMode := 0, chOffset := 0 }
    { st with sta := sta, cmds := st.cmds ++ [.raMask] }
  else st

def cbw40Enable (env : Env) : Bool :=
  env.bwCap40 && decide (1 ≤ if 14 < env.curChannel then env.bw5g else env.bw2g)

/-- The end of `bwmode_update_check`: a narrower bandwidth is taken over. -/
def applyBwmode (env : Env) (pIE : ℕ) (new : ℕ × ℕ) (st : State) : Reading (BitVec 8) State :=
  if (new.1 != st.curBwmode || new.2 != st.curChOffset) && new.1 < st.curBwmode then do
    let st ← htInfoHandler pIE
      { st with bwmodeUpdated := true, curBwmode := new.1, curChOffset := new.2 }
    pure (updateNetSta env st)
  else pure { st with bwmodeUpdated := false }

def bwmodeUpdateCheck (env : Env) (pIE : ℕ) (st : State) : Reading (BitVec 8) State :=
  if !st.htOption then pure st
  else if 2 ≤ st.curBwmode then pure st
  else do
    let len ← cell (pIE + 1)
    if 22 < len.toNat then pure st
    else do
      let info0 ← cell (pIE + 2 + 1)
      applyBwmode env pIE (newBwmode (cbw40Enable env) info0) st

/-- The streams that a byte of the map has rates for. -/
def mapByteNss (b : BitVec 8) : ℕ :=
  if b != 0xff then ((List.range 4).filter fun j => b >>> (2 * j) &&& 3 != 3).length else 0

def rtwVhtMcsmapToNss (map : BitVec 8 × BitVec 8) : ℕ := mapByteNss map.1 + mapByteNss map.2

/-- Byte `i` of the map, without the streams from `nss` on. -/
def targetMapByte (nss i : ℕ) (cur : BitVec 8) : BitVec 8 :=
  (List.range 4).foldl (fun target j =>
    let curRate := cur >>> (2 * j) &&& 3
    let targetRate := if curRate == 3 then 3 else if nss ≤ j + i * 4 then 3 else curRate
    target ||| targetRate <<< (2 * j)) 0

def rtwVhtNssToMcsmap (nss : ℕ) (cur : BitVec 8 × BitVec 8) : BitVec 8 × BitVec 8 :=
  (targetMapByte nss 0 cur.1, targetMapByte nss 1 cur.2)

/-- `rtw_process_vht_op_mode_notify`, with the data of the element. -/
def rtwProcessVhtOpModeNotify (env : Env) (pframe : ℕ) (st : State) : Reading (BitVec 8) State :=
  if !st.vhtOption then pure st
  else do
    let mode ← cell pframe
    let targetBw := (mode &&& 3).toNat
    let targetRxss := min env.txNss ((mode >>> 4 &&& 7).toNat + 1)
    let newBw := targetBw != st.sta.bwMode && env.bwSupport targetBw && targetBw ≤ env.bw5g
    let sta := if newBw then { st.sta with bwMode := targetBw } else st.sta
    let newRxss := targetRxss != rtwVhtMcsmapToNss sta.vhtMcsMap
    let sta := if newRxss
      then { sta with vhtMcsMap := rtwVhtNssToMcsmap targetRxss sta.vhtMcsMap } else sta
    let cmds := if newBw || newRxss then st.cmds ++ [.raMask] else st.cmds
    pure { st with sta := sta, cmds := cmds }

def erpIeHandler (pIE : ℕ) (st : State) : Reading (BitVec 8) State := do
  let len ← cell (pIE + 1)
  if 1 < len.toNat then pure st
  else do
    let data ← cells (pIE + 2) len.toNat
    pure { st with erpEnable := true, erpIe := data.headD st.erpIe }

def vcsUpdate (env : Env) (st : State) : State :=
  let protect := match env.vrtlCarrierSense with
    | 0 => false
    | 1 => true
    | _ => st.erpEnable && st.erpIe.getLsbD 1
  let rts := env.vcsType == 1
  { st with sta := { st.sta with rtsen := protect && rts, cts2self := protect && !rts } }

def htExtraInfoIe : BitVec 8 := 61

def eidOpModeNotification : BitVec 8 := 199

def erpinfoIe : BitVec 8 := 42

/-- The element at `pIE`, by its id. -/
def updateElement (env : Env) (pIE : ℕ) (id : BitVec 8) (st : State) :
    Reading (BitVec 8) State :=
  if id = wlanEidVendorSpecific then do
    let isWmm ← rtwMemcmp (pIE + 2) wmmParaOui
    if isWmm then do
      let len ← cell (pIE + 1)
      if len.toNat = 24 then wmmParamHandler pIE st else pure st
    else pure st
  else if id = htExtraInfoIe then bwmodeUpdateCheck env pIE st
  else if id = eidOpModeNotification then rtwProcessVhtOpModeNotify env (pIE + 2) st
  else if id = erpinfoIe then do
    let st ← erpIeHandler pIE st
    pure (vcsUpdate env st)
  else pure st

/-- The loop of `update_beacon_info`: the state and the places of the elements visited. -/
def updateLoop (env : Env) (ies len i : ℕ) (st : State) : Reading (BitVec 8) (State × List ℕ) :=
  if i < len then do
    let id ← cell (ies + i)
    let st ← updateElement env (ies + i) id st
    let elen ← cell (ies + i + 1)
    let r ← updateLoop env ies len (i + (elen.toNat + 2)) st
    pure (r.1, (ies + i) :: r.2)
  else pure (st, [])
termination_by len - i

def updateBeaconInfo (env : Env) (pframe : ℕ) (pktLen : BitVec 32) (st : State) :
    Reading (BitVec 8) (State × List ℕ) :=
  updateLoop env (pframe + ieOffset) (pktLen - 36).toNat 0 st

section Accepted

variable {mem : ℕ → BitVec 8}

/-- What `check_ielen` accepts is a list of elements. -/
theorem checkIelenLoop_accepts {pos : ℕ} {left : ℤ}
    (h : (checkIelenLoop pos left).value mem = true) :
    ∃ l, (encode l).length = left ∧ HoldsAt mem pos (encode l) := by
  fun_induction checkIelenLoop pos left with
  | case1 pos left hleft ih =>
    rw [value_cell_bind, value_cell_bind] at h
    dsimp only at h
    by_cases hshort : left - 2 < (mem (pos + 1)).toNat
    · rw [if_pos hshort, value_pure] at h
      cases h
    · rw [if_neg hshort] at h
      by_cases hvendor : mem pos = wlanEidVendorSpecific ∧ (mem (pos + 1)).toNat < 3
      · rw [if_pos hvendor, value_pure] at h
        cases h
      · rw [if_neg hvendor] at h
        obtain ⟨l, hlen, hl⟩ := ih (mem (pos + 1)) hshort h
        refine ⟨elementAt mem pos :: l, ?_, ?_⟩
        · rw [encode_cons, List.length_append, length_bytes, length_elementAt]
          omega
        · rw [holdsAt_encode_cons, length_elementAt]
          refine ⟨holdsAt_elementAt mem pos, ?_⟩
          rwa [show pos + ((mem (pos + 1)).toNat + 2) = pos + 2 + (mem (pos + 1)).toNat by omega]
  | case2 pos left hleft =>
    rw [value_pure, beq_iff_eq] at h
    exact ⟨[], by simp [h], holdsAt_nil mem pos⟩

/-- The elements of a beacon fill it from its header on. -/
structure BeaconList (mem : ℕ → BitVec 8) (pframe : ℕ) (len : BitVec 32)
    (l : List Element) : Prop where
  length_eq : ieOffset + (encode l).length = len.toNat
  holds : HoldsAt mem (pframe + ieOffset) (encode l)

theorem toNat_sub_ieOffset {len : BitVec 32} (h : ieOffset ≤ len.toNat) :
    (len - 36).toNat = len.toNat - ieOffset := by
  rw [ieOffset] at h ⊢
  bv_omega

theorem validateBeaconLen_accepts {pframe : ℕ} {len : BitVec 32}
    (h : (validateBeaconLen pframe len).value mem = true) : ∃ l, BeaconList mem pframe len l := by
  rw [validateBeaconLen] at h
  by_cases hlen : len.toNat < ieOffset
  · rw [if_pos hlen, value_pure] at h
    cases h
  · rw [if_neg hlen, checkIelen] at h
    obtain ⟨l, hl, hholds⟩ := checkIelenLoop_accepts h
    refine ⟨l, ?_, hholds⟩
    have hsub := toNat_sub_ieOffset (not_lt.mp hlen)
    have hnat : (len - 36).toInt = (len - 36).toNat := by
      have := BitVec.toInt_eq_toNat_cond (len - 36)
      split_ifs at this with hc
      · exact this
      · omega
    omega

end Accepted

/-- With `n` bytes from the body's start to the end of the frame the element's handler stays in
the frame. -/
structure Room (st : State) (e : Element) (n : ℕ) : Prop where
  vendor : e.id = wlanEidVendorSpecific → 6 ≤ n
  htInfo : e.id = htExtraInfoIe → st.htOption = true → st.curBwmode < 2 → e.body.length ≤ 22 →
    2 ≤ n
  opMode : e.id = eidOpModeNotification → st.vhtOption = true → 1 ≤ n

/-- The states agree on what decides which bytes are read. -/
structure SameGates (st st' : State) : Prop where
  htOption : st'.htOption = st.htOption
  vhtOption : st'.vhtOption = st.vhtOption
  narrow : st'.curBwmode < 2 ↔ st.curBwmode < 2

theorem SameGates.room_iff {st st' : State} (h : SameGates st st') {e : Element} {n : ℕ} :
    Room st' e n ↔ Room st e n := by
  constructor
  · rintro ⟨hv, hh, ho⟩
    rw [h.htOption, h.narrow] at hh
    rw [h.vhtOption] at ho
    exact ⟨hv, hh, ho⟩
  · rintro ⟨hv, hh, ho⟩
    refine ⟨hv, ?_, ?_⟩
    · rwa [h.htOption, h.narrow]
    · rwa [h.vhtOption]

section Handlers

variable {mem : ℕ → BitVec 8} {env : Env} {st : State} {a n p : ℕ}

theorem wmmParamHandler_spec (ha : a ≤ p) (hlen : p + 26 ≤ a + n) :
    (wmmParamHandler p st).Inside mem a n ∧
      SameGates st ((wmmParamHandler p st).value mem) := by
  rw [wmmParamHandler]
  split_ifs with hqos
  · rw [inside_bind, inside_cells, value_bind]
    refine ⟨⟨Or.inr ⟨by omega, by omega⟩, ?_⟩, ?_⟩
    · split_ifs
      · exact inside_pure _
      · exact inside_pure _
    · split_ifs
      · exact ⟨rfl, rfl, Iff.rfl⟩
      · exact ⟨rfl, rfl, Iff.rfl⟩
  · exact ⟨inside_pure _, rfl, rfl, Iff.rfl⟩

theorem htInfoHandler_spec (ha : a ≤ p) (hlen : p + ((mem (p + 1)).toNat + 2) ≤ a + n) :
    (htInfoHandler p st).Inside mem a n ∧ SameGates st ((htInfoHandler p st).value mem) := by
  rw [htInfoHandler]
  by_cases hht : st.htOption = true
  · rw [if_pos hht, inside_cell_bind, value_cell_bind]
    by_cases hlong : 22 < (mem (p + 1)).toNat
    · rw [if_pos hlong]
      exact ⟨⟨by omega, inside_pure _⟩, rfl, rfl, Iff.rfl⟩
    · rw [if_neg hlong, inside_bind, inside_cells, value_bind]
      exact ⟨⟨by omega, Or.inr ⟨by omega, by omega⟩, inside_pure _⟩, rfl, rfl, Iff.rfl⟩
  · rw [if_neg hht]
    exact ⟨inside_pure _, rfl, rfl, Iff.rfl⟩

theorem updateNetSta_gates : SameGates st (updateNetSta env st) := by
  unfold updateNetSta
  split
  · exact ⟨rfl, rfl, Iff.rfl⟩
  · exact ⟨rfl, rfl, Iff.rfl⟩

theorem newBwmode_lt (cbw40Enable : Bool) (info0 : BitVec 8) :
    (newBwmode cbw40Enable info0).1 < 2 := by
  rw [newBwmode]
  split_ifs
  · split <;> decide
  · decide

theorem SameGates.trans {st' st'' : State} (h : SameGates st st') (h' : SameGates st' st'') :
    SameGates st st'' :=
  ⟨h'.htOption.trans h.htOption, h'.vhtOption.trans h.vhtOption, h'.narrow.trans h.narrow⟩

theorem applyBwmode_spec {new : ℕ × ℕ} (hnew : new.1 < 2) (hst : st.curBwmode < 2) (ha : a ≤ p)
    (hlen : p + ((mem (p + 1)).toNat + 2) ≤ a + n) :
    (applyBwmode env p new st).Inside mem a n ∧
      SameGates st ((applyBwmode env p new st).value mem) := by
  unfold applyBwmode
  split
  · rw [inside_bind, value_bind]
    refine ⟨⟨(htInfoHandler_spec ha hlen).1, inside_pure _⟩, ?_⟩
    have hstart : SameGates st
        { st with bwmodeUpdated := true, curBwmode := new.1, curChOffset := new.2 } :=
      ⟨rfl, rfl, iff_of_true hnew hst⟩
    exact (hstart.trans (htInfoHandler_spec ha hlen).2).trans updateNetSta_gates
  · exact ⟨inside_pure _, rfl, rfl, Iff.rfl⟩

/-- The bandwidth check reads the second byte of the data, however long the element is. -/
theorem bwmodeUpdateCheck_spec (ha : a ≤ p) (hlen : p + ((mem (p + 1)).toNat + 2) ≤ a + n) :
    ((bwmodeUpdateCheck env p st).Inside mem a n ↔
      (st.htOption = true → st.curBwmode < 2 → (mem (p + 1)).toNat ≤ 22 → p + 4 ≤ a + n)) ∧
    SameGates st ((bwmodeUpdateCheck env p st).value mem) := by
  rw [bwmodeUpdateCheck]
  by_cases hht : st.htOption = true
  · rw [if_neg (by simp [hht])]
    by_cases hbw : 2 ≤ st.curBwmode
    · rw [if_pos hbw]
      exact ⟨⟨fun _ _ h => absurd h (by omega), fun _ => inside_pure _⟩, rfl, rfl, Iff.rfl⟩
    · rw [if_neg hbw, inside_cell_bind, value_cell_bind]
      by_cases hlong : 22 < (mem (p + 1)).toNat
      · rw [if_pos hlong]
        exact ⟨⟨fun _ _ _ h => absurd h (by omega), fun _ => ⟨by omega, inside_pure _⟩⟩,
          rfl, rfl, Iff.rfl⟩
      · rw [if_neg hlong, inside_cell_bind, value_cell_bind]
        have hnew := newBwmode_lt (cbw40Enable env) (mem (p + 2 + 1))
        refine ⟨⟨fun h _ _ _ => by omega, fun h => ?_⟩,
          (applyBwmode_spec hnew (not_le.mp hbw) ha hlen).2⟩
        have hroom := h hht (by omega) (by omega)
        exact ⟨by omega, by omega, (applyBwmode_spec hnew (not_le.mp hbw) ha hlen).1⟩
  · rw [if_pos (by simpa using hht)]
    exact ⟨⟨fun _ h => absurd h hht, fun _ => inside_pure _⟩, rfl, rfl, Iff.rfl⟩

theorem rtwProcessVhtOpModeNotify_spec (ha : a ≤ p) :
    ((rtwProcessVhtOpModeNotify env p st).Inside mem a n ↔
      (st.vhtOption = true → p < a + n)) ∧
    SameGates st ((rtwProcessVhtOpModeNotify env p st).value mem) := by
  rw [rtwProcessVhtOpModeNotify]
  by_cases hvht : st.vhtOption = true
  · rw [if_neg (by simp [hvht]), inside_cell_bind, value_cell_bind]
    exact ⟨⟨fun h _ => h.1.2, fun h => ⟨⟨ha, h hvht⟩, inside_pure _⟩⟩, rfl, rfl, Iff.rfl⟩
  · rw [if_pos (by simpa using hvht)]
    exact ⟨⟨fun _ h => absurd h hvht, fun _ => inside_pure _⟩, rfl, rfl, Iff.rfl⟩

theorem erpIeHandler_spec (ha : a ≤ p) (hlen : p + ((mem (p + 1)).toNat + 2) ≤ a + n) :
    (erpIeHandler p st).Inside mem a n ∧ SameGates st ((erpIeHandler p st).value mem) := by
  rw [erpIeHandler, inside_cell_bind, value_cell_bind]
  by_cases hlong : 1 < (mem (p + 1)).toNat
  · rw [if_pos hlong]
    exact ⟨⟨by omega, inside_pure _⟩, rfl, rfl, Iff.rfl⟩
  · rw [if_neg hlong, inside_bind, inside_cells, value_bind]
    exact ⟨⟨by omega, Or.inr ⟨by omega, by omega⟩, inside_pure _⟩, rfl, rfl, Iff.rfl⟩

/-- An element's handler stays in the frame exactly when there is room for what it reads; it
changes nothing that decides what the next one reads. -/
theorem updateElement_spec {e : Element} (ha : a ≤ p) (he : HoldsAt mem p e.bytes)
    (hlen : p + (e.body.length + 2) ≤ a + n) :
    ((updateElement env p e.id st).Inside mem a n ↔ Room st e (a + n - (p + 2))) ∧
      SameGates st ((updateElement env p e.id st).value mem) := by
  obtain ⟨hid, hbody, -⟩ := holdsAt_bytes he
  rw [← hbody] at hlen
  rw [updateElement]
  split_ifs with hvendor hht hop herp
  · have hmemcmp : (rtwMemcmp (p + 2) wmmParaOui).Inside mem a n ↔ p + 8 ≤ a + n := by
      simp only [rtwMemcmp, inside_bind, inside_cells, inside_pure, and_true]
      exact ⟨fun h => (h.resolve_left (by decide)).2, fun h => Or.inr ⟨by omega, h⟩⟩
    have hroom : Room st e (a + n - (p + 2)) ↔ p + 8 ≤ a + n := by
      constructor
      · intro h
        have := h.vendor hvendor
        omega
      · intro h
        exact ⟨fun _ => by omega, fun _ _ _ _ => by omega, fun _ _ => by omega⟩
    rw [inside_bind, value_bind, hmemcmp, hroom]
    split_ifs with hwmm
    · rw [inside_cell_bind, value_cell_bind]
      split_ifs with hwmmLen
      · obtain ⟨hin, hgates⟩ := wmmParamHandler_spec ha (show p + 26 ≤ a + n by omega)
        exact ⟨⟨fun h => h.1, fun h => ⟨h, ⟨by omega, by omega⟩, hin⟩⟩, hgates⟩
      · exact ⟨⟨fun h => h.1, fun h => ⟨h, ⟨by omega, by omega⟩, inside_pure _⟩⟩,
          rfl, rfl, Iff.rfl⟩
    · exact ⟨⟨fun h => h.1, fun h => ⟨h, inside_pure _⟩⟩, rfl, rfl, Iff.rfl⟩
  · obtain ⟨hin, hgates⟩ := bwmodeUpdateCheck_spec ha hlen
    refine ⟨hin.trans ⟨fun h => ⟨fun hid => absurd hid hvendor, ?_, ?_⟩, fun h hht' hbw hle => ?_⟩,
      hgates⟩
    · intro _ hht' hbw hle
      have := h hht' hbw (by omega)
      omega
    · intro hid
      rw [hht] at hid
      exact absurd hid (by decide)
    · have := h.htInfo hht hht' hbw (by omega)
      omega
  · obtain ⟨hin, hgates⟩ := rtwProcessVhtOpModeNotify_spec (show a ≤ p + 2 by omega)
    refine ⟨hin.trans ⟨fun h => ⟨fun hid => absurd hid hvendor, fun hid => absurd hid hht, ?_⟩,
      fun h hvht => ?_⟩, hgates⟩
    · intro _ hvht
      have := h hvht
      omega
    · have := h.opMode hop hvht
      omega
  · obtain ⟨hin, hgates⟩ := erpIeHandler_spec ha hlen
    rw [inside_bind, value_bind]
    refine ⟨⟨fun _ => ?_, fun _ => ⟨hin, inside_pure _⟩⟩, hgates.htOption, hgates.vhtOption,
      hgates.narrow⟩
    exact ⟨fun hid => absurd hid hvendor, fun hid => absurd hid hht, fun hid => absurd hid hop⟩
  · refine ⟨⟨fun _ => ?_, fun _ => inside_pure _⟩, rfl, rfl, Iff.rfl⟩
    exact ⟨fun hid => absurd hid hvendor, fun hid => absurd hid hht, fun hid => absurd hid hop⟩

end Handlers

/-- There is room for every element of the list up to its end. -/
def AllRoom (st : State) (l : List Element) : Prop :=
  ∀ e behind, (e :: behind) <:+ l → Room st e (e.body.length + (encode behind).length)

theorem allRoom_cons {st : State} {e : Element} {l : List Element} : AllRoom st (e :: l) ↔
    Room st e (e.body.length + (encode l).length) ∧ AllRoom st l := by
  constructor
  · intro h
    exact ⟨h e l (List.suffix_refl _), fun x behind hx => h x behind (hx.trans (List.suffix_cons ..))⟩
  · rintro ⟨he, hl⟩ x behind hx
    rcases List.suffix_cons_iff.mp hx with heq | hx
    · cases heq
      exact he
    · exact hl x behind hx

theorem SameGates.allRoom_iff {st st' : State} (h : SameGates st st') {l : List Element} :
    AllRoom st' l ↔ AllRoom st l :=
  forall_congr' fun _ => forall_congr' fun _ => imp_congr_right fun _ => h.room_iff

/-- Over a list the loop visits its elements in order, and stays in the frame exactly when there
is room for each. -/
theorem updateLoop_spec {mem : ℕ → BitVec 8} {env : Env} {st : State} {a n ies len i : ℕ}
    {l : List Element} (ha : a ≤ ies) (hn : ies + len = a + n)
    (hl : HoldsAt mem (ies + i) (encode l)) (hlen : i + (encode l).length = len) :
    ((updateLoop env ies len i st).value mem).2 = starts (ies + i) l ∧
      ((updateLoop env ies len i st).Inside mem a n ↔ AllRoom st l) := by
  induction l generalizing i st with
  | nil =>
    rw [encode_nil, List.length_nil, Nat.add_zero] at hlen
    rw [updateLoop, if_neg (by omega)]
    refine ⟨rfl, fun _ e behind h => ?_, fun _ => inside_pure _⟩
    cases List.suffix_nil.mp h
  | cons e l ih =>
    obtain ⟨he, hrest⟩ := holdsAt_encode_cons.mp hl
    obtain ⟨hid, hbody, -⟩ := holdsAt_bytes he
    rw [encode_cons, List.length_append, length_bytes] at hlen
    obtain ⟨hin, hgates⟩ : ((updateElement env (ies + i) e.id st).Inside mem a n ↔ _) ∧
        SameGates st ((updateElement env (ies + i) e.id st).value mem) :=
      updateElement_spec (by omega) he (by omega)
    rw [show a + n - (ies + i + 2) = e.body.length + (encode l).length by omega] at hin
    rw [Nat.add_assoc ies i] at hrest
    generalize hst' : (updateElement env (ies + i) e.id st).value mem = st' at hgates
    obtain ⟨hplaces, hinside⟩ : ((updateLoop env ies len (i + (e.body.length + 2)) st').value mem).2
          = starts (ies + (i + (e.body.length + 2))) l ∧
        ((updateLoop env ies len (i + (e.body.length + 2)) st').Inside mem a n ↔ AllRoom st' l) :=
      ih hrest (by omega)
    rw [hgates.allRoom_iff] at hinside
    rw [updateLoop, if_pos (by omega), allRoom_cons, starts, inside_cell_bind, value_cell_bind, hid,
      inside_bind, value_bind, hst', inside_cell_bind, value_cell_bind, hbody, inside_bind,
      value_bind, hin, hinside]
    constructor
    · rw [value_pure, hplaces, Nat.add_assoc]
    · constructor
      · rintro ⟨-, hroom, -, hrest, -⟩
        exact ⟨hroom, hrest⟩
      · rintro ⟨hroom, hrest⟩
        exact ⟨by omega, hroom, by omega, hrest, inside_pure _⟩

/-- What is asked of the walk over a beacon: it visits the elements of the frame in order, and
reads bytes of the frame only. -/
structure Walked (mem : ℕ → BitVec 8) (pframe : ℕ) (len : BitVec 32) (l : List Element)
    (walk : Reading (BitVec 8) (State × List ℕ)) : Prop where
  visits : (walk.value mem).2 = starts (pframe + ieOffset) l
  inside : walk.Inside mem pframe len.toNat

theorem updateBeaconInfo_spec {mem : ℕ → BitVec 8} {pframe : ℕ} {len : BitVec 32}
    {l : List Element} (h : BeaconList mem pframe len l) (env : Env) (st : State) :
    ((updateBeaconInfo env pframe len st).value mem).2 = starts (pframe + ieOffset) l ∧
      ((updateBeaconInfo env pframe len st).Inside mem pframe len.toNat ↔ AllRoom st l) := by
  have hlen := h.length_eq
  have hsub := toNat_sub_ieOffset (show ieOffset ≤ len.toNat by omega)
  rw [updateBeaconInfo]
  exact updateLoop_spec (by omega) (by omega) h.holds (by omega)

/-- An accepted beacon is a list of elements; the walk visits them in order, and it stays in the
frame exactly when the elements whose handlers read a fixed part of the body have that much of
the frame behind their headers. -/
theorem update_beacon_info_iff (mem : ℕ → BitVec 8) (env : Env) (st : State) (pframe : ℕ)
    (len : BitVec 32) (h : (validateBeaconLen pframe len).value mem = true) :
    ∃ l, BeaconList mem pframe len l ∧
      (Walked mem pframe len l (updateBeaconInfo env pframe len st) ↔ AllRoom st l) := by
  obtain ⟨l, hl⟩ := validateBeaconLen_accepts h
  obtain ⟨hvisits, hinside⟩ := updateBeaconInfo_spec hl env st
  refine ⟨l, hl, fun hw => hinside.mp hw.inside, fun hroom => ⟨hvisits, hinside.mpr hroom⟩⟩

/-- A beacon whose only element is of a vendor and has three bytes. -/
def shortVendor (i : ℕ) : BitVec 8 :=
  if i = 36 then 0xdd else if i = 37 then 0x03 else if i = 39 then 0x50
  else if i = 40 then 0xf2 else 0

theorem shortVendor_accepted : (validateBeaconLen 0 41).value shortVendor = true := by
  have hend : (checkIelenLoop 41 0).value shortVendor = true := by
    rw [checkIelenLoop, if_neg (by decide), value_pure]
    rfl
  rw [validateBeaconLen, if_neg (by decide), checkIelen, checkIelenLoop, if_pos (by decide),
    value_cell_bind, value_cell_bind]
  dsimp only
  rw [if_neg (by decide), if_neg (by decide)]
  exact hend

def quietState : State where
  htOption := true
  vhtOption := true
  qosOption := true
  wmmEnable := false
  wmmParam := []
  htInfoEnable := false
  htInfo := []
  erpEnable := false
  erpIe := 0
  curBwmode := 1
  curChOffset := 1
  bwmodeUpdated := false
  sta := ⟨true, 1, 1, (0xfa, 0xff), false, false⟩
  cmds := []

def quietEnv : Env := ⟨true, fun bw => decide (bw ≤ 2), 1, 2, 36, 2, 2, 1, true⟩

theorem update_beacon_info_shortVendor : ∃ l, BeaconList shortVendor 0 41 l ∧
    (Walked shortVendor 0 41 l (updateBeaconInfo quietEnv 0 41 quietState) ↔
      AllRoom quietState l) :=
  update_beacon_info_iff shortVendor quietEnv quietState 0 41 shortVendor_accepted

/-- The beacon is accepted, and the comparison with the OUI of WMM leaves it. -/
theorem update_beacon_info_leaves_frame :
    (validateBeaconLen 0 41).value shortVendor = true ∧
      ¬(updateBeaconInfo quietEnv 0 41 quietState).Inside shortVendor 0 41 := by
  refine ⟨shortVendor_accepted, fun h => ?_⟩
  have hl : BeaconList shortVendor 0 41 [⟨0xdd, [0x00, 0x50, 0xf2], by decide⟩] := by
    refine ⟨rfl, ?_⟩
    intro k x hx
    have hk : k < 5 := (List.getElem?_eq_some_iff.mp hx).1
    interval_cases k <;> cases hx <;> rfl
  have hroom := (updateBeaconInfo_spec hl quietEnv quietState).2.mp h
  exact absurd ((hroom _ _ (List.suffix_refl _)).vendor rfl) (by decide)

end Rtl8821cu.BeaconWalk
