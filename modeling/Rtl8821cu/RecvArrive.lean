import Rtl8821cu.RecvExact

/-! One complete run of `recv_func`: the frames that wait for their key, the frame that arrives,
and the exact condition under which every frame of the pool stays in one place. -/
namespace Rtl8821cu.Recv
open Pool Reorder RecvPriv

variable {σ κ : Type*}

section Queue
variable {w : RecvPriv σ κ} {f g : FragFrame} {rest : List FragFrame}

variable [DecidableEq σ] [DecidableEq κ]

theorem places_enqueueUcSwdec (w : RecvPriv σ κ) (f : FragFrame) :
    (w.enqueueUcSwdec f).places =
      Function.update (fun p => (w.places p).filter (· ≠ f.id)) .ucSwdec
        ((w.places .ucSwdec).filter (· ≠ f.id) + {f.id}) := by
  have hdel := places_listDelete w f.id
  funext p
  have hp := congrFun hdel p
  cases p with
  | ucSwdec =>
    rw [Function.update_self]
    have : (w.enqueueUcSwdec f).places .ucSwdec = (w.listDelete f.id).places .ucSwdec + {f.id} := by
      simp [places, enqueueUcSwdec]
    rw [this, hp]
  | free => rw [Function.update_of_ne (by simp)]; exact hp
  | defrag s => rw [Function.update_of_ne (by simp)]; exact hp
  | pending k => rw [Function.update_of_ne (by simp)]; exact hp

variable [Fintype σ] [Fintype κ] {nr : ℕ} {hands : Multiset ℕ}

theorem RecvPriv.Conserved.enqueueUcSwdec (h : Conserved nr w (f.id ::ₘ hands)) :
    Conserved nr (w.enqueueUcSwdec f) hands := by
  have hnot := h.notMem_places
  have hfree : (w.listDelete f.id).freeRecvQueue = w.freeRecvQueue :=
    List.filter_eq_self.mpr fun a ha => by
      simpa using fun hfa : a = f.id => notMem_free hnot (hfa ▸ ha)
  refine ⟨?_, ?_, h.once, h.unused⟩
  · rw [places_enqueueUcSwdec, total_put, filter_ne_of_notMem hnot, ← h.partition, add_assoc,
      Multiset.singleton_add]
  · change w.freeRecvframeCnt = (w.listDelete f.id).freeRecvQueue.length
    rw [hfree, h.cnt]

/-- The oldest frame that waits is taken into the hands. -/
theorem RecvPriv.Conserved.dequeue (h : Conserved nr w hands)
    (hq : w.ucSwdecPendingQueue = g :: rest) :
    Conserved nr { w with ucSwdecPendingQueue := rest } (g.id ::ₘ hands) := by
  have hplaces : places { w with ucSwdecPendingQueue := rest } =
      Function.update w.places .ucSwdec (ids rest) := by
    funext p
    cases p <;> simp [places]
  refine h.move hplaces ?_ rfl rfl rfl rfl
  simp [places, hq]

end Queue

section Length
variable {env : RecvEnv σ κ}

theorem foldl_free_ucSwdec (w : RecvPriv σ κ) (l : List FragFrame) :
    (l.foldl rtwFreeRecvframe w).ucSwdecPendingQueue.Sublist w.ucSwdecPendingQueue := by
  induction l generalizing w with
  | nil => exact List.Sublist.refl _
  | cons f l ih => exact (ih _).trans List.filter_sublist

theorem recvframeChkDefrag_ucSwdec [DecidableEq σ] (w : RecvPriv σ κ) (i : FrameInfo σ κ)
    (f : FragFrame) :
    (w.recvframeChkDefrag i f).2.ucSwdecPendingQueue.Sublist w.ucSwdecPendingQueue := by
  unfold RecvPriv.recvframeChkDefrag
  cases i.defragSta with
  | none => exact foldl_free_ucSwdec _ _
  | some s =>
    exact foldl_free_ucSwdec
      { w with defragQ := Function.update w.defragQ s (chkDefrag w i f).queue } _

variable [DecidableEq κ]

theorem setIseq_ucSwdec (w : RecvPriv σ κ) (k : Option κ) (iseq : ℕ → ℕ) :
    (w.setIseq k iseq).ucSwdecPendingQueue = w.ucSwdecPendingQueue := by
  cases k <;> rfl

theorem recvIndicatepktReorder_ucSwdec (env : RecvEnv σ κ) (w : RecvPriv σ κ) (p : FragFrame) :
    (w.recvIndicatepktReorder env p).2.ucSwdecPendingQueue.Sublist w.ucSwdecPendingQueue := by
  cases hk : (env.info p.id).preorderCtrl with
  | none =>
    simp only [RecvPriv.recvIndicatepktReorder, hk]
    exact List.Sublist.refl _
  | some k =>
    rw [recvIndicatepktReorder_eq w hk]
    exact foldl_free_ucSwdec
      { w with
        reorderCtrl := Function.update w.reorderCtrl k (Reorder.recvIndicatepktReorder
          (w.reorderCtrl k) (p.toReorder (env.info p.id).qos)).ctrl } _

theorem reorderAndProcess_ucSwdec (w : RecvPriv σ κ) (f p : FragFrame) :
    (w.reorderAndProcess env f p).ucSwdecPendingQueue.Sublist w.ucSwdecPendingQueue := by
  have hr := recvIndicatepktReorder_ucSwdec env w p
  unfold RecvPriv.reorderAndProcess
  generalize w.recvIndicatepktReorder env p = r at hr
  obtain ⟨r, w'⟩ := r
  cases r with
  | fail => exact List.filter_sublist.trans hr
  | handled => exact hr
  | success =>
    dsimp only
    rw [setIseq_ucSwdec, recvProcessMpdu_snd]
    refine List.filter_sublist.trans ?_
    rw [setIseq_ucSwdec]
    exact hr

variable [DecidableEq σ]

/-- Handling a frame puts none into the queue of those that wait for their key. -/
theorem recvFuncPosthandle_ucSwdec (w : RecvPriv σ κ) (f : FragFrame) :
    (w.recvFuncPosthandle env f).ucSwdecPendingQueue.Sublist w.ucSwdecPendingQueue := by
  have hc := recvframeChkDefrag_ucSwdec w (env.info f.id) f
  unfold RecvPriv.recvFuncPosthandle
  dsimp only
  split
  · exact List.filter_sublist
  · generalize w.recvframeChkDefrag (env.info f.id) f = r at hc
    obtain ⟨_ | p, w'⟩ := r
    · exact hc
    · dsimp only at hc ⊢
      split
      · exact List.filter_sublist.trans hc
      · exact (reorderAndProcess_ucSwdec w' f p).trans hc

theorem dequeueUcSwdec_empties (n : ℕ) (w : RecvPriv σ κ) (h : w.ucSwdecPendingQueue.length ≤ n) :
    (w.dequeueUcSwdec env n).ucSwdecPendingQueue = [] := by
  induction n generalizing w with
  | zero => exact List.length_eq_zero_iff.mp (Nat.le_zero.mp h)
  | succ n ih =>
    unfold RecvPriv.dequeueUcSwdec
    split
    · rename_i hq
      exact hq
    · rename_i g rest hq
      refine ih _ ((recvFuncPosthandle_ucSwdec _ g).length_le.trans ?_)
      rw [hq] at h
      simpa using h

/-- Once the key is there, no frame waits for it any more: the turns of the loop are enough. -/
theorem handleUcSwdec_empties (w : RecvPriv σ κ) (hsta : env.stationState = true)
    (hkey : env.busetkipkey = true) : (w.handleUcSwdec env).ucSwdecPendingQueue = [] := by
  rw [RecvPriv.handleUcSwdec, hsta, hkey]
  exact dequeueUcSwdec_empties _ w le_rfl

end Length

theorem RecvPriv.Bad.validateRecvMgntFrame [DecidableEq σ] {w : RecvPriv σ κ} (h : w.Bad)
    (i : FrameInfo σ κ) (f : FragFrame) :
    (w.validateRecvMgntFrame i f).Bad := by
  unfold RecvPriv.validateRecvMgntFrame RecvPriv.validateMgmtProtect
  cases i.mgmtProtect with
  | pass => exact h.recvframeChkDefrag i f
  | refuse => exact h
  | decrypt encrypt raMcast =>
    dsimp only
    by_cases hd : i.decryptor encrypt false = true
    · rw [if_pos hd]
      exact h.recvframeChkDefrag i _
    · rw [if_neg hd]
      exact (h.rtwFreeRecvframe f).use f

section Run
variable [DecidableEq σ] [DecidableEq κ]

/-- Every frame that waited for its key may be handled when its turn comes. -/
def DrainOk (env : RecvEnv σ κ) : ℕ → RecvPriv σ κ → Prop
  | 0, _ => True
  | n + 1, w =>
      match w.ucSwdecPendingQueue with
      | [] => True
      | g :: rest =>
          PostOk env { w with ucSwdecPendingQueue := rest } g ∧
            DrainOk env n
              (RecvPriv.recvFuncPosthandle env { w with ucSwdecPendingQueue := rest } g)

/-- A validated data frame may be handled; one that waits for its key only makes the oldest
frame that waits be handled when frames run short. -/
def ValidatedOk (env : RecvEnv σ κ) (nr : ℕ) (w : RecvPriv σ κ) (f : FragFrame) : Prop :=
  if enqueuesUcSwdec env f then
    (w.enqueueUcSwdec f).freeRecvframeCnt < nr / 4 →
      ∀ g rest, (w.enqueueUcSwdec f).ucSwdecPendingQueue = g :: rest →
        PostOk env { w.enqueueUcSwdec f with ucSwdecPendingQueue := rest } g
  else PostOk env w f

/-- The frame that arrives may be handled. -/
def ArriveOk (env : RecvEnv σ κ) (nr : ℕ) (w : RecvPriv σ κ) (f : FragFrame) : Prop :=
  (env.info f.id).verOk = true →
    match (env.info f.id).type with
    | .mgt => MgmtOk (env.info f.id) f
    | .data => (env.info f.id).dataRet = .success → ValidatedOk env nr w f
    | .ctrl => True
    | .unknown => True

/-- The frames that waited for their key, when there is one, and the frame that arrives may be
handled. -/
def RecvOk (env : RecvEnv σ κ) (nr : ℕ) (w : RecvPriv σ κ) (f : FragFrame) : Prop :=
  env.monitorState = true ∨
    ((env.stationState && env.busetkipkey) = true → DrainOk env w.ucSwdecPendingQueue.length w) ∧
      ArriveOk env nr (w.handleUcSwdec env) f

variable {env : RecvEnv σ κ} {nr : ℕ} {w : RecvPriv σ κ} {f : FragFrame}

theorem RecvPriv.Bad.dequeueUcSwdec (h : w.Bad) (n : ℕ) : (w.dequeueUcSwdec env n).Bad := by
  induction n generalizing w with
  | zero => exact h
  | succ n ih =>
    unfold RecvPriv.dequeueUcSwdec
    split
    · exact h
    · rename_i g rest hq
      have hrest : Bad { w with ucSwdecPendingQueue := rest } := h
      exact ih (hrest.recvFuncPosthandle g)

theorem RecvPriv.Bad.recvFuncValidated (h : w.Bad) : (w.recvFuncValidated env nr f).Bad := by
  have henq : (w.enqueueUcSwdec f).Bad := h
  unfold RecvPriv.recvFuncValidated
  dsimp only
  split
  · split
    · split
      · exact henq
      · rename_i g rest hq
        have hrest : Bad { w.enqueueUcSwdec f with ucSwdecPendingQueue := rest } := henq
        exact hrest.recvFuncPosthandle g
    · exact henq
  · exact h.recvFuncPosthandle f

/-- The part of `recv_func` behind the frames that waited. -/
def RecvPriv.recvFuncArrive (env : RecvEnv σ κ) (nr : ℕ) (w : RecvPriv σ κ) (f : FragFrame) :
    RecvPriv σ κ :=
  match w.recvFuncPrehandle env f with
  | (.success, w) => w.recvFuncValidated env nr f
  | (_, w) => w

theorem recvFuncArrive_eq (env : RecvEnv σ κ) (nr : ℕ) (w : RecvPriv σ κ) (f : FragFrame) :
    w.recvFuncArrive env nr f =
      if (env.info f.id).verOk = true then
        match (env.info f.id).type with
        | .mgt => (w.validateRecvMgntFrame (env.info f.id) f).rtwFreeRecvframe f
        | .data =>
            if (env.info f.id).dataRet = .success then w.recvFuncValidated env nr f
            else w.rtwFreeRecvframe f
        | .ctrl => w.rtwFreeRecvframe f
        | .unknown => w.rtwFreeRecvframe f
      else w.rtwFreeRecvframe f := by
  unfold RecvPriv.recvFuncArrive RecvPriv.recvFuncPrehandle RecvPriv.validateRecvFrame
  cases (env.info f.id).verOk with
  | false => rfl
  | true =>
    cases (env.info f.id).type with
    | mgt => rfl
    | ctrl => rfl
    | unknown => rfl
    | data => cases (env.info f.id).dataRet <;> rfl

theorem RecvPriv.Bad.recvFuncArrive (h : w.Bad) : (w.recvFuncArrive env nr f).Bad := by
  rw [recvFuncArrive_eq]
  have hfree := h.rtwFreeRecvframe f
  by_cases hver : (env.info f.id).verOk = true
  · rw [if_pos hver]
    cases (env.info f.id).type with
    | mgt => exact (h.validateRecvMgntFrame _ f).rtwFreeRecvframe f
    | ctrl => exact hfree
    | unknown => exact hfree
    | data =>
      dsimp only
      split_ifs
      · exact h.recvFuncValidated
      · exact hfree
  · rw [if_neg hver]
    exact hfree

variable [Fintype σ] [Fintype κ] {hands : Multiset ℕ}

theorem dequeueUcSwdec_exact (n : ℕ) (h : Conserved nr w hands) :
    (DrainOk env n w ∧ Conserved nr (w.dequeueUcSwdec env n) hands) ∨
      (¬ DrainOk env n w ∧ (w.dequeueUcSwdec env n).Bad) := by
  induction n generalizing w with
  | zero => exact Or.inl ⟨trivial, h⟩
  | succ n ih =>
    unfold RecvPriv.dequeueUcSwdec DrainOk
    cases hq : w.ucSwdecPendingQueue with
    | nil => exact Or.inl ⟨trivial, h⟩
    | cons g rest =>
      dsimp only
      rcases posthandle_exact env (h.dequeue hq) with ⟨hok, hc⟩ | ⟨hok, hb⟩
      · rcases ih hc with ⟨hdr, hc'⟩ | ⟨hdr, hb'⟩
        · exact Or.inl ⟨⟨hok, hdr⟩, hc'⟩
        · exact Or.inr ⟨fun hd => hdr hd.2, hb'⟩
      · exact Or.inr ⟨fun hd => hok hd.1, hb.dequeueUcSwdec n⟩

theorem recvFuncValidated_exact (h : Conserved nr w (f.id ::ₘ hands)) :
    (ValidatedOk env nr w f ∧ Conserved nr (w.recvFuncValidated env nr f) hands) ∨
      (¬ ValidatedOk env nr w f ∧ (w.recvFuncValidated env nr f).Bad) := by
  unfold RecvPriv.recvFuncValidated ValidatedOk
  dsimp only
  by_cases henq : enqueuesUcSwdec env f = true
  · rw [if_pos henq, if_pos henq]
    have hc := h.enqueueUcSwdec
    by_cases hcnt : (w.enqueueUcSwdec f).freeRecvframeCnt < nr / 4
    · rw [if_pos hcnt]
      split
      · rename_i hq
        exact Or.inl ⟨fun _ g rest hgr => by simp [hq] at hgr, hc⟩
      · rename_i g rest hq
        rcases posthandle_exact env (hc.dequeue hq) with ⟨hok, hc'⟩ | ⟨hok, hb⟩
        · refine Or.inl ⟨fun _ g' rest' hgr => ?_, hc'⟩
          obtain ⟨rfl, rfl⟩ := List.cons.inj (hq.symm.trans hgr)
          exact hok
        · exact Or.inr ⟨fun hall => hok (hall hcnt g rest hq), hb⟩
    · rw [if_neg hcnt]
      exact Or.inl ⟨fun hlt => absurd hlt hcnt, hc⟩
  · rw [if_neg henq, if_neg henq]
    exact posthandle_exact env h

theorem recvFuncArrive_exact (env : RecvEnv σ κ) (h : Conserved nr w (f.id ::ₘ hands)) :
    (ArriveOk env nr w f ∧ Conserved nr (w.recvFuncArrive env nr f) hands) ∨
      (¬ ArriveOk env nr w f ∧ (w.recvFuncArrive env nr f).Bad) := by
  rw [recvFuncArrive_eq]
  unfold ArriveOk
  by_cases hver : (env.info f.id).verOk = true
  · simp only [hver, if_true, true_imp_iff]
    cases (env.info f.id).type with
    | mgt => exact mgmt_exact h
    | ctrl => exact Or.inl ⟨trivial, h.free⟩
    | unknown => exact Or.inl ⟨trivial, h.free⟩
    | data =>
      dsimp only
      by_cases hret : (env.info f.id).dataRet = .success
      · simp only [hret, if_true, true_imp_iff]
        exact recvFuncValidated_exact h
      · rw [if_neg hret]
        exact Or.inl ⟨fun hs => absurd hs hret, h.free⟩
  · rw [if_neg hver]
    exact Or.inl ⟨fun hs => absurd hs hver, h.free⟩

theorem handleUcSwdec_exact (env : RecvEnv σ κ) (h : Conserved nr w hands) :
    (((env.stationState && env.busetkipkey) = true →
        DrainOk env w.ucSwdecPendingQueue.length w) ∧
        Conserved nr (w.handleUcSwdec env) hands) ∨
      (¬ ((env.stationState && env.busetkipkey) = true →
        DrainOk env w.ucSwdecPendingQueue.length w) ∧ (w.handleUcSwdec env).Bad) := by
  unfold RecvPriv.handleUcSwdec
  by_cases hkey : (env.stationState && env.busetkipkey) = true
  · simp only [hkey, if_true, true_imp_iff]
    exact dequeueUcSwdec_exact _ h
  · rw [if_neg hkey]
    exact Or.inl ⟨fun hk => absurd hk hkey, h⟩

/-- One run of `recv_func` leaves every frame of the pool in exactly one place, returned at most
once and not used after its return, exactly when the frames it handles go one of the ways on
which the callees agree who returns the frame. -/
theorem recv_func_conserves_iff (h : Conserved nr w {f.id}) :
    Conserved nr (w.recvFunc env nr f) 0 ↔ RecvOk env nr w f := by
  replace h : Conserved nr w (f.id ::ₘ 0) := h
  unfold RecvPriv.recvFunc RecvOk
  by_cases hmon : env.monitorState = true
  · rw [if_pos hmon]
    exact iff_of_true h.free (Or.inl hmon)
  rw [if_neg hmon]
  simp only [hmon, Bool.false_eq_true, false_or]
  change Conserved nr ((w.handleUcSwdec env).recvFuncArrive env nr f) 0 ↔ _
  rcases handleUcSwdec_exact env h with ⟨hdr, hc⟩ | ⟨hdr, hb⟩
  · rcases recvFuncArrive_exact env hc with ⟨harr, hc'⟩ | ⟨harr, hb'⟩
    · exact iff_of_true hc' ⟨hdr, harr⟩
    · exact iff_of_false (fun hcons => hcons.not_bad hb') fun hok => harr hok.2
  · exact iff_of_false (fun hcons => hcons.not_bad hb.recvFuncArrive) fun hok => hdr hok.1

end Run

section Witness

/-- All frames of the pool but one are free. -/
def idle (n : ℕ) : RecvPriv Unit Unit where
  freeRecvQueue := List.range n
  freeRecvframeCnt := n
  ucSwdecPendingQueue := []
  defragQ := fun _ => []
  reorderCtrl := fun _ => ⟨true, 7, 64, [], false, false, false⟩
  returnedTwice := false
  usedAfterReturn := false

theorem idle_conserved (n : ℕ) : Conserved (n + 1) (idle n) {n} := by
  have hplaces : (idle n).places = Function.update (fun _ => 0) .free (Multiset.range n) := by
    funext p
    cases p <;> rfl
  have htotal : total (idle n).places = Multiset.range n := by
    have := total_update (fun _ : Place Unit Unit => (0 : Multiset ℕ)) .free (Multiset.range n)
    rw [← hplaces, add_zero] at this
    simpa [total] using this
  refine ⟨?_, by simp [idle], rfl, rfl⟩
  rw [htotal, Multiset.range_succ, add_comm, Multiset.singleton_add]

/-- A whole frame that is not encrypted, in frame `255` of the pool. -/
def plainFrame : FragFrame where
  id := 255
  seqNum := 7
  fragNum := 0
  mfrag := false
  priority := 0
  encrypt := .noPrivacy
  privacy := false
  raMcast := false
  keytrack := 0
  hdrlen := 26
  ivLen := 0
  icvLen := 0
  buf := fun _ => 0
  len := 100
  room := 1000

/-- Findings for a frame of the type, for which the software decryption would fail. -/
def plainInfo (type : FrameType) : FrameInfo Unit Unit where
  verOk := true
  type := type
  qos := true
  bdecrypted := false
  dataRet := .success
  mgmtProtect := .decrypt .aes false
  decrypts := false
  defragSta := none
  keytrack := 0
  mic := fun _ => true
  portctrl := fun _ => true
  preorderCtrl := some ()
  mpdu := ⟨false, true, true, false, false, true, true⟩

def plainEnv (type : FrameType) : RecvEnv Unit Unit where
  monitorState := false
  stationState := true
  busetkipkey := false
  swDecrypt := false
  authModeWPAPSK := false
  info := fun _ => plainInfo type

theorem recv_func_conserves_iff_qos_data :
    Conserved 256 ((idle 255).recvFunc (plainEnv .data) 256 plainFrame) 0 := by
  refine (recv_func_conserves_iff (idle_conserved 255)).mpr (Or.inr ⟨?_, ?_⟩)
  · intro hkey
    exact absurd hkey (by decide)
  · intro _ _
    change PostOk _ _ _
    intro _ p hp _
    obtain rfl : plainFrame = p := Option.some.inj hp
    exact ⟨(), rfl, rfl, rfl, fun hne => absurd rfl hne⟩

/-- A protected management frame whose decryption fails is returned by `decryptor`, read, and
returned again. -/
theorem recv_func_returns_mgmt_frame_twice :
    ¬ ∀ (nr : ℕ) (env : RecvEnv Unit Unit) (w : RecvPriv Unit Unit) (f : FragFrame),
      Conserved nr w {f.id} → Conserved nr (w.recvFunc env nr f) 0 := by
  intro h
  let f := { plainFrame with privacy := true }
  have hcons := h 256 (plainEnv .mgt) (idle 255) f (idle_conserved 255)
  have hrun : (idle 255).recvFunc (plainEnv .mgt) 256 f =
      (((idle 255).rtwFreeRecvframe f).use f).rtwFreeRecvframe f := rfl
  rw [hrun] at hcons
  exact hcons.not_bad ((bad_of_use self_mem_free).rtwFreeRecvframe f)

end Witness

end Rtl8821cu.Recv
