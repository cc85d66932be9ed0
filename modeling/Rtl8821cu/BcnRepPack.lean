import Rtl8821cu.BcnRep

/-! The loop over the scan table packs the reports of the networks it selects. -/
namespace Rtl8821cu.BcnRep
open Pack
open RmReq (Byte)

/-- The bytes of reports that fit into a buffer, with the headers of the frame. -/
def packCap : ℕ := 1507

/-- The networks that the loop reports. -/
def selected (prm : RmObj) (net : Network) : Bool :=
  rtwValidateSsid net && bssidMatch prm.q net && (ssidMatch prm.q net && chMatch prm net)

/-- The buffers up to `buf_idx` hold the bins, given newest first. -/
structure Holds (r : Retrieved) (bs : List (List (List Byte))) : Prop where
  failed : r.failed = false
  bufIdx : r.bufIdx = bs.length - 1
  buf : ∀ i < bs.length, r.buf i = bs.reverse[i]?
  myLen : r.myLen = total List.length (bs.headD [])
  pos : ∀ b ∈ bs, 0 < total List.length b

variable {alloc : ℕ → Bool} {prm : RmObj} {r : Retrieved} {bs : List (List (List Byte))}
  {rep : List Byte}

theorem Holds.fault (h : Holds r bs) (f : Bool) : Holds { r with fault := f } bs :=
  ⟨h.failed, h.bufIdx, h.buf, h.myLen, h.pos⟩

theorem fits_iff : r.fits rep = true ↔ r.myLen + rep.length ≤ packCap := by
  unfold Retrieved.fits maxXmitExtbufSz packCap
  rw [decide_eq_true_eq]
  omega

/-- With no buffer open a new one is needed. -/
theorem newPacket_of_zero (h : r.myLen = 0) : newPacket alloc r rep =
    if alloc r.bufIdx ∧ rep.length ≤ packCap then r.opened.add rep
    else { (if alloc r.bufIdx then r.opened else r) with failed := true } := by
  have hfits : r.opened.fits rep = true ↔ rep.length ≤ packCap := by
    rw [fits_iff, Retrieved.opened, h, Nat.zero_add]
  rw [newPacket, dif_pos h]
  by_cases halloc : alloc r.bufIdx = true
  · by_cases hlen : rep.length ≤ packCap
    · rw [if_neg (by simp [halloc]), if_pos (hfits.mpr hlen), if_pos ⟨halloc, hlen⟩]
    · rw [if_neg (by simp [halloc]), if_neg (fun hf => hlen (hfits.mp hf)),
        if_neg (fun hf => hlen hf.2), if_pos halloc]
  · rw [if_pos (by simpa using halloc), if_neg (fun hf => halloc hf.1), if_neg halloc]

/-- A new bin behind those that are held. -/
theorem Holds.open (h : Holds r bs) (hpos : 0 < rep.length) {s : Retrieved}
    (hfailed : s.failed = false) (hidx : s.bufIdx = bs.length)
    (hbuf : s.buf = r.buf) (hlen : s.myLen = 0) : Holds (s.opened.add rep) ([rep] :: bs) := by
  refine ⟨hfailed, ?_, fun i hi => ?_, ?_, ?_⟩
  · rw [List.length_cons, Nat.add_sub_cancel]
    exact hidx
  · simp only [Retrieved.opened, Retrieved.add, hidx, hbuf]
    rw [List.reverse_cons]
    rcases Nat.lt_succ_iff_lt_or_eq.mp hi with hlt | rfl
    · rw [Function.update_of_ne (by omega), Function.update_of_ne (by omega), h.buf i hlt,
        List.getElem?_append_left (by simpa using hlt)]
    · rw [Function.update_self, Function.update_self, List.getElem?_append_right (by simp)]
      simp
  · simp only [Retrieved.opened, Retrieved.add, hlen]
    simp
  · refine List.forall_mem_cons.mpr ⟨?_, h.pos⟩
    rwa [total_singleton]

/-- The report goes into the bin that is open. -/
theorem Holds.add {b : List (List Byte)} (h : Holds r (b :: bs)) :
    Holds (r.add rep) ((b ++ [rep]) :: bs) := by
  obtain ⟨hb, hbs⟩ := List.forall_mem_cons.mp h.pos
  have hidx := h.bufIdx
  rw [List.length_cons, Nat.add_sub_cancel] at hidx
  refine ⟨h.failed, h.bufIdx, fun i hi => ?_, ?_, ?_⟩
  · simp only [Retrieved.add, hidx]
    have hcur := h.buf bs.length (by simp)
    rw [List.reverse_cons, List.getElem?_append_right (by simp)] at hcur
    rw [List.reverse_cons]
    rcases Nat.lt_succ_iff_lt_or_eq.mp hi with hlt | rfl
    · have := h.buf i (by simp; omega)
      rw [List.reverse_cons, List.getElem?_append_left (by simpa using hlt)] at this
      rw [Function.update_of_ne (by omega), this, List.getElem?_append_left (by simpa using hlt)]
    · rw [Function.update_self, hcur, List.getElem?_append_right (by simp)]
      simp
  · simp only [Retrieved.add, h.myLen]
    simp
  · refine List.forall_mem_cons.mpr ⟨?_, hbs⟩
    rw [total_append]
    omega

/-- A buffer is opened for the report when there is memory and it fits into one. -/
theorem newPacket_open (h : Holds r bs) (hpos : 0 < rep.length) {s : Retrieved}
    (hfailed : s.failed = false) (hidx : s.bufIdx = bs.length) (hbuf : s.buf = r.buf)
    (hlen : s.myLen = 0) :
    ((newPacket alloc s rep).failed = false ↔ rep.length ≤ packCap ∧ alloc bs.length = true) ∧
    ((newPacket alloc s rep).failed = false → Holds (newPacket alloc s rep) ([rep] :: bs) ∧
      (bs.length < maxBufNum → (newPacket alloc s rep).fault = s.fault)) := by
  rw [newPacket_of_zero hlen, hidx]
  by_cases hok : alloc bs.length = true ∧ rep.length ≤ packCap
  · rw [if_pos hok]
    refine ⟨iff_of_true hfailed hok.symm, fun _ => ⟨h.open hpos hfailed hidx hbuf hlen, ?_⟩⟩
    intro hlt
    simp only [Retrieved.opened, Retrieved.add, hidx]
    rw [decide_eq_false (by omega), Bool.or_false]
  · rw [if_neg hok]
    exact ⟨iff_of_false (by simp) fun hc => hok hc.symm, fun hc => absurd hc (by simp)⟩

/-- A report is pushed if it fits into a buffer and there is memory for the one that it needs, or
the loop is left. -/
theorem newPacket_push (h : Holds r bs) (hpos : 0 < rep.length) :
    ((newPacket alloc r rep).failed = false ↔ rep.length ≤ packCap ∧
      ∀ i, bs.length ≤ i → i < (push List.length packCap bs rep).length → alloc i = true) ∧
    ((newPacket alloc r rep).failed = false →
      Holds (newPacket alloc r rep) (push List.length packCap bs rep) ∧
      ((push List.length packCap bs rep).length ≤ maxBufNum →
        (newPacket alloc r rep).fault = r.fault)) := by
  have hone (P : ℕ → Prop) (n : ℕ) : (∀ i, n ≤ i → i < n + 1 → P i) ↔ P n := by
    constructor
    · exact fun hall => hall n le_rfl (Nat.lt_succ_self n)
    · intro hn i hi hlt
      rwa [show i = n by omega]
  cases bs with
  | nil =>
    rw [push, List.length_singleton, List.length_nil, hone fun i => alloc i = true]
    exact newPacket_open h hpos h.failed h.bufIdx rfl h.myLen
  | cons b bs =>
    have hidx := h.bufIdx
    have hlen := h.myLen
    have hb := h.pos b List.mem_cons_self
    rw [List.headD_cons] at hlen
    rw [newPacket, dif_neg (by omega), push]
    by_cases hfit : total List.length b + rep.length ≤ packCap
    · rw [if_pos hfit, if_pos (by rwa [fits_iff, hlen])]
      refine ⟨iff_of_true h.failed ⟨by omega, fun i hi hlt => ?_⟩, fun _ => ⟨h.add, fun _ => rfl⟩⟩
      simp only [List.length_cons] at hi hlt
      omega
    · rw [if_neg hfit, if_neg (by rwa [fits_iff, hlen]), List.length_cons (a := [rep]),
        hone fun i => alloc i = true]
      refine newPacket_open h hpos h.failed ?_ rfl rfl
      rw [List.length_cons] at hidx
      simp only [List.length_cons]
      omega

/-- The reports of the selected networks, in table order. -/
def reports (prm : RmObj) (nets : List Network) : List (List Byte) :=
  (nets.filter (selected prm)).map (rmGenBcnRepIe prm)

/-- The comparison and the report of a network stay inside of their arrays. -/
structure NetSafe (prm : RmObj) (net : Network) : Prop where
  ssid : rtwValidateSsid net = true → bssidMatch prm.q net = true → prm.q.bcn.ssidLength ≤ 32
  rep : selected prm net = true → repFault prm net = false

theorem rmGenBcnRepIe_pos (prm : RmObj) (net : Network) : 0 < (rmGenBcnRepIe prm net).length :=
  Nat.zero_lt_succ _

theorem reports_of_selected {net : Network} (h : selected prm net = true) (nets : List Network) :
    reports prm (net :: nets) = rmGenBcnRepIe prm net :: reports prm nets := by
  rw [reports, List.filter_cons_of_pos h, List.map_cons, reports]

theorem reports_of_not_selected {net : Network} (h : ¬selected prm net = true)
    (nets : List Network) : reports prm (net :: nets) = reports prm nets := by
  rw [reports, List.filter_cons_of_neg h, reports]

theorem or_decide_eq_false_iff {f : Bool} {m n : ℕ} :
    (f || decide (m < n)) = false ↔ f = false ∧ n ≤ m := by
  rw [Bool.or_eq_false_iff, decide_eq_false_iff_not, not_lt]

/-- What the loop makes of the bins it starts with: it is left early or ends with all reports
packed. -/
structure LoopSpec (alloc : ℕ → Bool) (prm : RmObj) (nets : List Network) (r r' : Retrieved)
    (bs bs' : List (List (List Byte))) : Prop where
  failed : r'.failed = false ↔ (∀ rep ∈ reports prm nets, rep.length ≤ packCap) ∧
    ∀ i, bs.length ≤ i → i < bs'.length → alloc i = true
  holds : r'.failed = false → Holds r' bs'
  fault : r'.failed = false → bs'.length ≤ maxBufNum →
    (r'.fault = false ↔ r.fault = false ∧ ∀ net ∈ nets, NetSafe prm net)

theorem retrieveLoop_spec (nets : List Network) (h : Holds r bs) :
    LoopSpec alloc prm nets r (retrieveLoop alloc prm nets r) bs
      ((reports prm nets).foldl (push List.length packCap) bs) := by
  induction nets generalizing r bs with
  | nil =>
    refine ⟨?_, fun _ => h, fun _ _ => ?_⟩
    · exact iff_of_true h.failed ⟨nofun, fun i hi hlt => absurd hlt (Nat.not_lt.mpr hi)⟩
    · simp [retrieveLoop]
  | cons net nets ih =>
    rw [retrieveLoop]
    by_cases hval : (rtwValidateSsid net && bssidMatch prm.q net) = true
    · obtain ⟨hv, hb⟩ := Bool.and_eq_true_iff.mp hval
      rw [if_pos hval]
      dsimp only
      by_cases hmatch : (ssidMatch prm.q net && chMatch prm net) = true
      · have hsel : selected prm net = true := by rw [selected, hval, hmatch, Bool.and_self]
        have hsafe : NetSafe prm net ↔
            prm.q.bcn.ssidLength ≤ 32 ∧ repFault prm net = false :=
          ⟨fun hs => ⟨hs.ssid hv hb, hs.rep hsel⟩, fun hs => ⟨fun _ _ => hs.1, fun _ => hs.2⟩⟩
        rw [if_pos hmatch, reports_of_selected hsel, List.foldl_cons]
        have hs := (h.fault (r.fault || decide (32 < prm.q.bcn.ssidLength))).fault
          (r.fault || decide (32 < prm.q.bcn.ssidLength) || repFault prm net)
        obtain ⟨hnew, hgo⟩ := @newPacket_push alloc _ _ _ hs (rmGenBcnRepIe_pos prm net)
        have hle := @length_le_foldl_push _ List.length packCap
          (push List.length packCap bs (rmGenBcnRepIe prm net)) (reports prm nets)
        have hpush := @length_push _ List.length packCap bs (rmGenBcnRepIe prm net)
        split_ifs with hf
        · have hne := ne_false_of_eq_true hf
          refine ⟨iff_of_false hne ?_, fun hc => absurd hc hne, fun hc => absurd hc hne⟩
          rintro ⟨hall, halloc⟩
          rw [reports_of_selected hsel] at hall
          exact hne (hnew.mpr ⟨hall _ List.mem_cons_self, fun i hi hlt => halloc i hi (by omega)⟩)
        · rw [Bool.not_eq_true] at hf
          obtain ⟨hlen, halloc⟩ := hnew.mp hf
          obtain ⟨hheld, hsame⟩ := hgo hf
          obtain ⟨hfailed, hholds, hfault⟩ := ih hheld
          refine ⟨?_, hholds, fun hc hmax => ?_⟩
          · rw [hfailed, reports_of_selected hsel, List.forall_mem_cons, and_iff_right hlen]
            refine and_congr_right fun _ => ⟨fun hall i hi hlt => ?_, fun hall i hi => hall i ?_⟩
            · by_cases hopen : i < (push List.length packCap bs (rmGenBcnRepIe prm net)).length
              · exact halloc i hi hopen
              · exact hall i (by omega) hlt
            · omega
          · rw [hfault hc hmax, hsame (by omega), Bool.or_eq_false_iff, or_decide_eq_false_iff,
              List.forall_mem_cons, hsafe, and_assoc, and_assoc, and_assoc]
      · have hsel : ¬selected prm net = true := fun hs => hmatch (Bool.and_eq_true_iff.mp hs).2
        rw [if_neg hmatch, reports_of_not_selected hsel]
        obtain ⟨hfailed, hholds, hfault⟩ := ih (h.fault _)
        refine ⟨?_, hholds, fun hf hlen => ?_⟩
        · rw [hfailed, reports_of_not_selected hsel]
        · have hsafe : NetSafe prm net ↔ prm.q.bcn.ssidLength ≤ 32 :=
            ⟨fun hs => hs.ssid hv hb, fun hle => ⟨fun _ _ => hle, fun hs => absurd hs hsel⟩⟩
          rw [hfault hf hlen, or_decide_eq_false_iff, List.forall_mem_cons, hsafe, and_assoc]
    · have hsel : ¬selected prm net = true := fun hs => hval (Bool.and_eq_true_iff.mp hs).1
      rw [if_neg hval, reports_of_not_selected hsel]
      obtain ⟨hfailed, hholds, hfault⟩ := ih h
      refine ⟨?_, hholds, fun hf hlen => ?_⟩
      · rw [hfailed, reports_of_not_selected hsel]
      · have hsafe : NetSafe prm net :=
          ⟨fun hv hb => absurd (Bool.and_eq_true_iff.mpr ⟨hv, hb⟩) hval, fun hs => absurd hs hsel⟩
        rw [hfault hf hlen, List.forall_mem_cons, and_iff_right hsafe]

/-- The number that `retrieve_scan_result` returns. -/
theorem count_of_holds (h : Holds r bs) (hne : bs ≠ []) :
    (if (r.buf r.bufIdx).isSome then r.bufIdx + 1 else 0) = bs.length := by
  have hpos := List.length_pos_iff.mpr hne
  have hidx := h.bufIdx
  have hlt : r.bufIdx < bs.reverse.length := by
    rw [List.length_reverse]
    omega
  rw [h.buf r.bufIdx (by omega), List.getElem?_eq_getElem hlt, Option.isSome_some, if_pos rfl]
  omega

theorem packets_of_holds (h : Holds r bs) : packets (r, bs.length) = bs.reverse := by
  refine List.ext_getElem ?_ fun i hi hi' => ?_
  · simp [packets]
  · have hlt : i < bs.length := by simpa using hi'
    simp [packets, h.buf i hlt, hlt]

/-- Without a network to report the buffers are left as they are. -/
theorem retrieveLoop_buf_of_nil {nets : List Network} (h : reports prm nets = []) :
    (retrieveLoop alloc prm nets r).buf = r.buf ∧
      (retrieveLoop alloc prm nets r).bufIdx = r.bufIdx := by
  induction nets generalizing r with
  | nil => exact ⟨rfl, rfl⟩
  | cons net nets ih =>
    have hsel : ¬selected prm net = true := fun hs => by
      rw [reports_of_selected hs] at h
      cases h
    rw [reports_of_not_selected hsel] at h
    rw [retrieveLoop]
    by_cases hval : (rtwValidateSsid net && bssidMatch prm.q net) = true
    · have hmatch : ¬(ssidMatch prm.q net && chMatch prm net) = true := fun hm =>
        hsel (by rw [selected, hval, hm, Bool.and_self])
      rw [if_pos hval]
      dsimp only
      rw [if_neg hmatch]
      exact ih h
    · rw [if_neg hval]
      exact ih h

theorem holds_nil {f : Bool} : Holds ⟨prm.buf, 0, 0, false, f⟩ [] :=
  ⟨rfl, rfl, nofun, rfl, nofun⟩

section Retrieve

variable {table : ScanTable}

theorem length_pack_reports_le :
    (pack List.length packCap (reports prm table.nets)).length ≤ maxBufNum := by
  have hpack := @length_foldl_push_le _ List.length packCap [] (reports prm table.nets)
  have hfilter := List.length_filter_le (selected prm) table.nets
  have htable := table.length_le
  have hmap : (reports prm table.nets).length = (table.nets.filter (selected prm)).length :=
    List.length_map _
  unfold maxBssCnt at htable
  unfold maxBufNum pack
  rw [List.length_nil] at hpack
  omega

theorem retrieveScanResult_loop :
    LoopSpec alloc prm table.nets ⟨prm.buf, 0, 0, false, false⟩
      (retrieveScanResult true alloc prm table).1 []
      (pack List.length packCap (reports prm table.nets)) :=
  retrieveLoop_spec table.nets holds_nil

theorem retrieveScanResult_failed_iff :
    (retrieveScanResult true alloc prm table).1.failed = false ↔
      (∀ rep ∈ reports prm table.nets, rep.length ≤ packCap) ∧
        ∀ i < (pack List.length packCap (reports prm table.nets)).length, alloc i = true := by
  rw [retrieveScanResult_loop.failed]
  simp only [List.length_nil, Nat.zero_le, forall_const]

theorem retrieveScanResult_fault_iff
    (h : (retrieveScanResult true alloc prm table).1.failed = false) :
    (retrieveScanResult true alloc prm table).1.fault = false ↔
      ∀ net ∈ table.nets, NetSafe prm net := by
  rw [retrieveScanResult_loop.fault h length_pack_reports_le, and_iff_right rfl]

theorem pack_eq_nil_iff (l : List (List Byte)) : pack List.length packCap l = [] ↔ l = [] := by
  have hflatten := @flatten_foldl_push _ List.length packCap [] l
  rw [List.reverse_nil, List.flatten_nil, List.nil_append] at hflatten
  constructor
  · intro h
    rw [← hflatten]
    unfold pack at h
    rw [h]
    rfl
  · rintro rfl
    rfl

/-- The buffers that are sent when the loop came to its end. -/
theorem packets_retrieveScanResult
    (h : (retrieveScanResult true alloc prm table).1.failed = false) :
    packets (retrieveScanResult true alloc prm table) =
      if reports prm table.nets = [] then (prm.buf 0).toList
      else (pack List.length packCap (reports prm table.nets)).reverse := by
  have hholds := retrieveScanResult_loop.holds h
  split_ifs with hnil
  · obtain ⟨hbuf, hidx⟩ :=
      @retrieveLoop_buf_of_nil alloc prm ⟨prm.buf, 0, 0, false, false⟩ _ hnil
    unfold retrieveScanResult packets
    simp only [Bool.not_true, Bool.false_eq_true, if_false, hbuf, hidx]
    cases hold : prm.buf 0 with
    | none => simp
    | some b => simp [hold]
  · rw [← packets_of_holds hholds, ← count_of_holds hholds ((pack_eq_nil_iff _).not.mpr hnil)]
    rfl

end Retrieve

end Rtl8821cu.BcnRep
