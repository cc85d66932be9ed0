import Rtl8821cu.RecvConserve

/-! The exact condition under which one run of `recv_func` keeps the frames of the pool. -/
namespace Rtl8821cu.Recv
open Pool Reorder RecvPriv

variable {σ κ : Type*}

section Bad
variable {env : RecvEnv σ κ} {w : RecvPriv σ κ}

theorem RecvPriv.Bad.recvframeChkDefrag [DecidableEq σ] (h : w.Bad) (i : FrameInfo σ κ) (f : FragFrame) :
    (w.recvframeChkDefrag i f).2.Bad := by
  unfold RecvPriv.recvframeChkDefrag
  cases i.defragSta with
  | none => exact h.foldl_free _
  | some s =>
    have hq : Bad { w with defragQ := Function.update w.defragQ s (chkDefrag w i f).queue } := h
    exact hq.foldl_free _

variable [DecidableEq κ]

theorem RecvPriv.Bad.setIseq (h : w.Bad) (k : Option κ) (iseq : ℕ → ℕ) : (w.setIseq k iseq).Bad := by
  cases k <;> exact h

theorem RecvPriv.Bad.recvIndicatepktReorder (h : w.Bad) (p : FragFrame) :
    (w.recvIndicatepktReorder env p).2.Bad := by
  cases hk : (env.info p.id).preorderCtrl with
  | none =>
    simp only [RecvPriv.recvIndicatepktReorder, hk]
    exact h
  | some k =>
    rw [recvIndicatepktReorder_eq w hk]
    have hq : Bad { w with
        reorderCtrl := Function.update w.reorderCtrl k (Reorder.recvIndicatepktReorder
          (w.reorderCtrl k) (p.toReorder (env.info p.id).qos)).ctrl } := h
    exact hq.foldl_free _

/-- The last branch of `recv_func_posthandle` reads the frame after `recv_process_mpdu`
returned it. -/
theorem bad_of_handed_on (w : RecvPriv σ κ) (f p : FragFrame) (k : Option κ) (a b : ℕ → ℕ) :
    (((((((w.use f).use p).setIseq k a).recvProcessMpdu env p).2.use f).use p).setIseq k b).Bad := by
  rw [recvProcessMpdu_snd]
  exact (bad_of_use (by exact self_mem_free)).setIseq k b

theorem RecvPriv.Bad.reorderAndProcess (h : w.Bad) (f p : FragFrame) :
    (w.reorderAndProcess env f p).Bad := by
  have hr : (w.recvIndicatepktReorder env p).2.Bad := h.recvIndicatepktReorder p
  unfold RecvPriv.reorderAndProcess
  generalize w.recvIndicatepktReorder env p = r at hr
  obtain ⟨r, w'⟩ := r
  cases r with
  | fail => exact hr.rtwFreeRecvframe f
  | handled => exact hr
  | success => exact bad_of_handed_on _ _ _ _ _ _

theorem RecvPriv.Bad.recvFuncPosthandle [DecidableEq σ] (h : w.Bad) (f : FragFrame) :
    (w.recvFuncPosthandle env f).Bad := by
  have hc := h.recvframeChkDefrag (env.info f.id) f
  unfold RecvPriv.recvFuncPosthandle
  dsimp only
  split
  · exact h.rtwFreeRecvframe f
  · generalize w.recvframeChkDefrag (env.info f.id) f = r at hc
    obtain ⟨_ | p, w'⟩ := r
    · exact hc
    · dsimp only at hc ⊢
      split
      · exact hc.rtwFreeRecvframe p
      · exact hc.reorderAndProcess f p

end Bad

section Outcome
variable {w : RecvPriv σ κ} {i : FrameInfo σ κ} {f : FragFrame}

theorem chkmic_freed_subset {mic : FragFrame → Bool} {o : ChkDefragOut} {g : FragFrame}
    (h : g ∈ o.freed) : g ∈ (o.chkmic mic).freed := by
  unfold ChkDefragOut.chkmic
  split
  · exact h
  · split
    · split
      · exact List.mem_append_left _ h
      · exact h
    · exact h

/-- The last fragment is returned with the queue, whether or not the reassembly succeeds. -/
theorem last_fragment_freed {mic : FragFrame → Bool} {keytrack : ℕ} {q : Option (List FragFrame)}
    (hm : f.mfrag = false) (hn : f.fragNum ≠ 0) :
    ∃ g ∈ (recvframeChkDefrag mic keytrack q f).freed, g.id = f.id := by
  unfold recvframeChkDefrag
  rw [if_neg (fun h => hn h.2)]
  split_ifs
  · exact ⟨f, by simp, rfl⟩
  · cases q with
    | none => exact ⟨f, by simp, rfl⟩
    | some q =>
      dsimp only
      rw [if_neg (by simp [hm])]
      refine ⟨{ f with keytrack := keytrack }, ?_, rfl⟩
      split
      · simp
      · rename_i p hp
        refine chkmic_freed_subset ?_
        cases q with
        | nil =>
          simp only [recvframeDefrag, List.nil_append] at hp
          rw [if_pos hn] at hp
          cases hp
        | cons x q => simp

/-- A frame other than the one that came in is its reassembled MSDU. -/
theorem freed_of_reassembled {mic : FragFrame → Bool} {keytrack : ℕ}
    {q : Option (List FragFrame)} {p : FragFrame}
    (h : (recvframeChkDefrag mic keytrack q f).ret = some p) (hne : p.id ≠ f.id) :
    ∃ g ∈ (recvframeChkDefrag mic keytrack q f).freed, g.id = f.id := by
  by_cases hm : f.mfrag = false
  · by_cases hn : f.fragNum = 0
    · exfalso
      have hids := recvframeChkDefrag_ids mic keytrack q f
      have hq : (recvframeChkDefrag mic keytrack q f).queue = q.getD [] := by
        unfold recvframeChkDefrag
        rw [if_pos ⟨hm, hn⟩, chkmic_queue]
      rw [ChkDefragOut.ids, hq, h, add_assoc] at hids
      have hsub := add_left_cancel hids
      have : p.id ∈ ({f.id} : Multiset ℕ) := by
        rw [← hsub]
        simp
      exact hne (by simpa using this)
    · exact last_fragment_freed hm hn
  · exfalso
    unfold recvframeChkDefrag at h
    rw [if_neg (fun h => hm h.1)] at h
    split_ifs at h
    cases q with
    | none => simp at h
    | some q =>
      dsimp only at h
      rw [if_pos (by simpa using hm)] at h
      split_ifs at h

/-- The frame is whole and passes the MIC check, or it is a fragment other than the last that is
queued. -/
def FragOk (i : FrameInfo σ κ) (f : FragFrame) : Prop :=
  (f.mfrag = false ∧ f.fragNum = 0 ∧ (f.privacy = true → recvframeChkmic i.mic f ≠ none)) ∨
    (f.mfrag = true ∧ f.raMcast = false ∧ i.defragSta ≠ none)

theorem freed_of_not_fragOk (h : ¬ FragOk i f) (w : RecvPriv σ κ) :
    ∃ g ∈ (chkDefrag w i f).freed, g.id = f.id := by
  unfold FragOk at h
  push Not at h
  obtain ⟨h1, h2⟩ := h
  by_cases hm : f.mfrag = false
  · by_cases hn : f.fragNum = 0
    · obtain ⟨hpriv, hmic⟩ := h1 hm hn
      refine ⟨f, ?_, rfl⟩
      simp [chkDefrag, recvframeChkDefrag, hm, hn, ChkDefragOut.chkmic, hpriv, hmic]
    · exact last_fragment_freed hm hn
  · have hm' : f.mfrag = true := by simpa using hm
    refine ⟨f, ?_, rfl⟩
    by_cases hr : f.raMcast = false
    · simp [chkDefrag, recvframeChkDefrag, hm', hr, h2 hm' hr]
    · simp [chkDefrag, recvframeChkDefrag, hm', hr]

theorem ret_of_whole (hm : f.mfrag = false) (hn : f.fragNum = 0)
    (hmic : f.privacy = true → recvframeChkmic i.mic f ≠ none) (w : RecvPriv σ κ) :
    ∃ p, (chkDefrag w i f).ret = some p ∧ p.id = f.id := by
  simp only [chkDefrag, recvframeChkDefrag, hm, hn, and_self, if_true, ChkDefragOut.chkmic]
  by_cases hpriv : f.privacy = true
  · obtain ⟨p, hp⟩ := Option.ne_none_iff_exists'.mp (hmic hpriv)
    exact ⟨p, by simp [hpriv, hp], recvframeChkmic_id hp⟩
  · exact ⟨f, by simp [hpriv], rfl⟩

theorem queued_of_fragment {s : σ} (hm : f.mfrag = true) (hr : f.raMcast = false)
    (hs : i.defragSta = some s) (w : RecvPriv σ κ) :
    (chkDefrag w i f).ret = none ∧ ∀ x ∈ (chkDefrag w i f).freed, x ∈ w.defragQ s := by
  simp only [chkDefrag, recvframeChkDefrag, hm, hr, hs, Option.map_some, Bool.true_eq_false,
    Bool.false_eq_true, false_and, if_false, if_true]
  by_cases hn : f.fragNum = 0
  · rw [if_pos hn]
    simp
  · rw [if_neg hn]
    simp

theorem mem_free_foldl_cases {l : List FragFrame} {n : ℕ}
    (h : n ∈ (l.foldl rtwFreeRecvframe w).freeRecvQueue) :
    n ∈ w.freeRecvQueue ∨ ∃ x ∈ l, x.id = n := by
  induction l generalizing w with
  | nil => exact Or.inl h
  | cons x l ih =>
    rcases ih h with h | ⟨y, hy, he⟩
    · by_cases hx : n = x.id
      · exact Or.inr ⟨x, by simp, hx.symm⟩
      · refine Or.inl ?_
        simpa [rtwFreeRecvframe, listDelete, hx] using h
    · exact Or.inr ⟨y, by simp [hy], he⟩

variable [DecidableEq σ]

theorem freed_mem_free {i : FrameInfo σ κ} (h : ∃ g ∈ (chkDefrag w i f).freed, g.id = f.id) :
    f.id ∈ (w.recvframeChkDefrag i f).2.freeRecvQueue := by
  obtain ⟨g, hg, he⟩ := h
  rw [← he]
  exact mem_free_of_mem hg

theorem recvframeChkDefrag_freeRecvQueue {n : ℕ}
    (h : n ∈ (w.recvframeChkDefrag i f).2.freeRecvQueue) :
    n ∈ w.freeRecvQueue ∨ ∃ x ∈ (chkDefrag w i f).freed, x.id = n := by
  unfold RecvPriv.recvframeChkDefrag at h
  cases hs : i.defragSta with
  | none =>
    rw [hs] at h
    exact mem_free_foldl_cases h
  | some s =>
    rw [hs] at h
    have h' : n ∈ ((chkDefrag w i f).freed.foldl rtwFreeRecvframe { w with
        defragQ := Function.update w.defragQ s (chkDefrag w i f).queue }).freeRecvQueue := h
    have := mem_free_foldl_cases h'
    exact this

end Outcome

section Post
variable {env : RecvEnv σ κ} {nr : ℕ} {w : RecvPriv σ κ} {hands : Multiset ℕ} {f : FragFrame}

/-- The frame `p` that came of `f` goes to an enabled reordering controller, and one that was
reassembled is not refused there. -/
def DeliverOk (env : RecvEnv σ κ) (w : RecvPriv σ κ) (f p : FragFrame) : Prop :=
  ∃ k, (env.info p.id).preorderCtrl = some k ∧ (env.info p.id).qos = true ∧
    (w.reorderCtrl k).enable = true ∧
    (p.id ≠ f.id → (Reorder.recvIndicatepktReorder (w.reorderCtrl k)
      (p.toReorder (env.info p.id).qos)).ret ≠ .fail)

/-- The frame ends before the reordering, or what leaves the reassembly and the port control
may be delivered. -/
def PostOk (env : RecvEnv σ κ) (w : RecvPriv σ κ) (f : FragFrame) : Prop :=
  (env.info f.id).decryptor f.encrypt (env.info f.id).bdecrypted = true →
    ∀ p ∈ (chkDefrag w (env.info f.id) f).ret, (env.info f.id).portctrl p = true →
      DeliverOk env w f p

variable [Fintype σ] [Fintype κ] [DecidableEq σ] [DecidableEq κ]

theorem reorderAndProcess_exact {p : FragFrame} (h : Conserved nr w (p.id ::ₘ hands))
    (hf : p.id ≠ f.id → f.id ∈ w.freeRecvQueue) :
    (DeliverOk env w f p ∧ Conserved nr (w.reorderAndProcess env f p) hands) ∨
      (¬ DeliverOk env w f p ∧ (w.reorderAndProcess env f p).Bad) := by
  cases hk : (env.info p.id).preorderCtrl with
  | none =>
    right
    refine ⟨by simp [DeliverOk, hk], ?_⟩
    unfold RecvPriv.reorderAndProcess
    simp only [RecvPriv.recvIndicatepktReorder, hk]
    exact bad_of_handed_on _ _ _ _ _ _
  | some k =>
    have hdel : DeliverOk env w f p ↔ (env.info p.id).qos = true ∧
        (w.reorderCtrl k).enable = true ∧
        (p.id ≠ f.id → (w.recvIndicatepktReorder env p).1 ≠ .fail) := by
      rw [recvIndicatepktReorder_eq w hk]
      simp [DeliverOk, hk]
    have hcases := recvIndicatepktReorder_cases (w.reorderCtrl k)
      (p.toReorder (env.info p.id).qos)
    have hfst := congrArg Prod.fst (recvIndicatepktReorder_eq w hk)
    have hdone := h.reorder_handled env
    have hleft := h.reorder_not_handled env
    unfold RecvPriv.reorderAndProcess
    generalize w.recvIndicatepktReorder env p = r at hdel hfst hdone hleft
    obtain ⟨r, w'⟩ := r
    dsimp only at hfst hdone hleft hdel ⊢
    obtain ⟨hoff, hout⟩ | ⟨hqos, hen, ⟨hout, -⟩ | ⟨hout, -⟩⟩ := hcases
    · obtain rfl : r = .success := by rw [hfst, hout]
      right
      refine ⟨?_, bad_of_handed_on _ _ _ _ _ _⟩
      rw [hdel]
      rintro ⟨hq, he, -⟩
      rcases hoff with hoff | hoff
      · exact absurd (hoff.symm.trans hq) (by simp)
      · exact absurd (hoff.symm.trans he) (by simp)
    · obtain rfl : r = .fail := by rw [hfst, hout]
      obtain ⟨hc, hfree⟩ := hleft (by simp)
      by_cases hid : p.id = f.id
      · left
        refine ⟨hdel.mpr ⟨hqos, hen, fun hne => absurd hid hne⟩, Conserved.free ?_⟩
        rwa [← hid]
      · right
        refine ⟨fun hd => (hdel.mp hd).2.2 hid rfl, bad_of_free_again ?_⟩
        rw [hfree]
        exact hf hid
    · obtain rfl : r = .handled := by rw [hfst, hout]
      exact Or.inl ⟨hdel.mpr ⟨hqos, hen, fun _ => by simp⟩, hdone rfl⟩

/-- `recv_func_posthandle` conserves the frames exactly under `PostOk`. -/
theorem posthandle_exact (env : RecvEnv σ κ) (h : Conserved nr w (f.id ::ₘ hands)) :
    (PostOk env w f ∧ Conserved nr (w.recvFuncPosthandle env f) hands) ∨
      (¬ PostOk env w f ∧ (w.recvFuncPosthandle env f).Bad) := by
  unfold RecvPriv.recvFuncPosthandle PostOk
  dsimp only
  by_cases hd : (env.info f.id).decryptor f.encrypt (env.info f.id).bdecrypted = true
  swap
  · rw [if_pos (by simpa using hd)]
    exact Or.inl ⟨fun hd' => absurd hd' hd, h.free⟩
  rw [if_neg (by simpa using hd)]
  have hc := h.chkDefrag (i := env.info f.id)
  have hctrl := h.chkDefrag_reorderCtrl (i := env.info f.id)
  have hfree := freed_mem_free (w := w) (f := f) (i := env.info f.id)
  have hre : ∀ p, (chkDefrag w (env.info f.id) f).ret = some p → p.id ≠ f.id →
      ∃ g ∈ (chkDefrag w (env.info f.id) f).freed, g.id = f.id := fun p => freed_of_reassembled
  have hret : (w.recvframeChkDefrag (env.info f.id) f).1 = (chkDefrag w (env.info f.id) f).ret :=
    rfl
  generalize w.recvframeChkDefrag (env.info f.id) f = r at hc hctrl hfree hret
  obtain ⟨_ | p, w'⟩ := r
  · rw [← hret] at hc
    exact Or.inl ⟨fun _ p hp => by simp [← hret] at hp, by simpa using hc⟩
  rw [← hret] at hc hre ⊢
  replace hc : Conserved nr w' (p.id ::ₘ hands) := by simpa [Multiset.cons_add] using hc
  dsimp only at hctrl hfree ⊢
  by_cases hport : (env.info f.id).portctrl p = true
  swap
  · rw [if_pos (by simpa using hport)]
    exact Or.inl ⟨by simp [hport], hc.free⟩
  rw [if_neg (by simpa using hport)]
  have hdel : DeliverOk env w' f p ↔ DeliverOk env w f p := by
    unfold DeliverOk
    rw [hctrl]
  have hpost : (∀ p' ∈ some p, (env.info f.id).portctrl p' = true → DeliverOk env w f p') ↔
      DeliverOk env w' f p := by
    simp [hport, hdel]
  simp only [hd, true_imp_iff, hpost]
  exact reorderAndProcess_exact hc fun hne => hfree (hre p rfl hne)

end Post

section Mgmt
variable {nr : ℕ} {w : RecvPriv σ κ} {hands : Multiset ℕ} {f g : FragFrame} {i : FrameInfo σ κ}

/-- A management frame ends in one place: it is refused without being decrypted, or it is passed,
decrypted where that is needed, and neither returned nor replaced by the reassembly. -/
def MgmtOk (i : FrameInfo σ κ) (f : FragFrame) : Prop :=
  match i.mgmtProtect with
  | .pass => FragOk i f
  | .refuse => True
  | .decrypt encrypt raMcast =>
      i.decryptor encrypt false = true ∧ FragOk i (f.mgmtAttrib encrypt raMcast)

variable [Fintype σ] [Fintype κ] [DecidableEq σ] [DecidableEq κ]

/-- A passed management frame is returned once more by the caller. -/
theorem mgmtDefrag_exact (h : Conserved nr w (g.id ::ₘ hands)) (hid : f.id = g.id) :
    (FragOk i g ∧ Conserved nr ((w.recvframeChkDefrag i g).2.rtwFreeRecvframe f) hands) ∨
      (¬ FragOk i g ∧ ((w.recvframeChkDefrag i g).2.rtwFreeRecvframe f).Bad) := by
  have hc := h.chkDefrag (i := i)
  by_cases hok : FragOk i g
  · refine Or.inl ⟨hok, ?_⟩
    rcases hok with ⟨hm, hn, hmic⟩ | ⟨hm, hr, hs⟩
    · obtain ⟨p, hp, hpid⟩ := ret_of_whole hm hn hmic w
      rw [hp] at hc
      refine Conserved.free ?_
      rw [hid, ← hpid]
      simpa [Multiset.cons_add] using hc
    · obtain ⟨s, hs⟩ := Option.ne_none_iff_exists'.mp hs
      obtain ⟨hnone, hfreed⟩ := queued_of_fragment hm hr hs w
      rw [hnone] at hc
      replace hc : Conserved nr (w.recvframeChkDefrag i g).2 hands := by simpa using hc
      have hnot := h.notMem_places
      refine hc.free_queued ?_ ?_
      · have hin : g.id ∈ total (w.recvframeChkDefrag i g).2.places + hands := by
          rw [hc.partition, ← h.partition]
          simp
        have hout : g.id ∉ hands := by
          have := (Multiset.nodup_add.mp h.nodup).2.1
          exact (Multiset.nodup_cons.mp this).1
        rw [hid]
        exact (Multiset.mem_add.mp hin).resolve_right hout
      · rw [hid]
        intro hmem
        rcases recvframeChkDefrag_freeRecvQueue hmem with hmem | ⟨x, hx, he⟩
        · exact notMem_free hnot hmem
        · refine hnot (mem_total.mpr ⟨.defrag s, ?_⟩)
          simpa [places, ids] using ⟨x, hfreed x hx, he⟩
  · refine Or.inr ⟨hok, bad_of_free_again ?_⟩
    rw [hid]
    exact freed_mem_free (freed_of_not_fragOk hok w)

theorem mgmt_exact (h : Conserved nr w (f.id ::ₘ hands)) :
    (MgmtOk i f ∧ Conserved nr ((w.validateRecvMgntFrame i f).rtwFreeRecvframe f) hands) ∨
      (¬ MgmtOk i f ∧ ((w.validateRecvMgntFrame i f).rtwFreeRecvframe f).Bad) := by
  unfold RecvPriv.validateRecvMgntFrame RecvPriv.validateMgmtProtect MgmtOk
  cases i.mgmtProtect with
  | pass => exact mgmtDefrag_exact h rfl
  | refuse => exact Or.inl ⟨trivial, h.free⟩
  | decrypt encrypt raMcast =>
    dsimp only
    by_cases hd : i.decryptor encrypt false = true
    · rw [if_pos hd]
      simp only [hd, true_and]
      exact mgmtDefrag_exact (g := f.mgmtAttrib encrypt raMcast) h rfl
    · rw [if_neg hd]
      refine Or.inr ⟨fun hok => hd hok.1, ?_⟩
      exact (bad_of_use self_mem_free).rtwFreeRecvframe f

end Mgmt

end Rtl8821cu.Recv
