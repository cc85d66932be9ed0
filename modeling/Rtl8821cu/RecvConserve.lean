import Rtl8821cu.RecvFunc

/-! When one run of `recv_func` keeps every receive frame in exactly one place. -/
namespace Rtl8821cu.Recv
open Pool Reorder RecvPriv

variable {σ κ : Type*}

section Defrag

@[simp] theorem recvframePull_id (f : FragFrame) (n : ℕ) : (f.recvframePull n).id = f.id := by
  unfold FragFrame.recvframePull
  split <;> rfl

@[simp] theorem recvframePullTail_id (f : FragFrame) (n : ℕ) :
    (f.recvframePullTail n).id = f.id := by
  unfold FragFrame.recvframePullTail
  split <;> rfl

@[simp] theorem recvframePut_id (f : FragFrame) (n : ℕ) : (f.recvframePut n).id = f.id := by
  unfold FragFrame.recvframePut
  split <;> rfl

@[simp] theorem append_id (f next : FragFrame) : (f.append next).id = f.id := by
  simp [FragFrame.append, FragFrame.copyToTail]

theorem defragLoop_id {p r : FragFrame} {pn : BitVec 64} {n : ℕ} {l : List FragFrame}
    (h : defragLoop p pn n l = some r) : r.id = p.id := by
  induction l generalizing p pn n with
  | nil =>
    obtain rfl : p = r := by simpa [defragLoop] using h
    rfl
  | cons next rest ih =>
    simp only [defragLoop, ite_eq_iff] at h
    obtain ⟨-, h⟩ | ⟨-, ⟨-, h⟩ | ⟨-, ⟨-, h⟩ | ⟨-, ⟨-, h⟩ | ⟨-, h⟩⟩⟩⟩ := h
    · cases h
    · cases h
    · cases h
    · cases h
    · rw [ih h, append_id]

/-- Reassembly keeps the first frame of the queue and frees the others. -/
theorem recvframeDefrag_ids {l : List FragFrame} {r : FragFrame} (h : recvframeDefrag l = some r) :
    ids l.tail + {r.id} = ids l := by
  cases l with
  | nil => simp [recvframeDefrag] at h
  | cons p rest =>
    obtain ⟨-, h⟩ : p.fragNum = 0 ∧ defragLoop p _ 1 rest = some r := by
      simpa [recvframeDefrag] using h
    rw [defragLoop_id h, List.tail_cons, ids_cons, ← Multiset.singleton_add, add_comm]

/-- The frames an outcome accounts for. -/
def ChkDefragOut.ids (o : ChkDefragOut) : Multiset ℕ :=
  Recv.ids o.queue + Recv.ids o.freed + Recv.ids o.ret.toList

theorem recvframeChkmic_id {mic : FragFrame → Bool} {p p' : FragFrame}
    (h : recvframeChkmic mic p = some p') : p'.id = p.id := by
  unfold recvframeChkmic at h
  split_ifs at h
  · obtain rfl := Option.some.inj h
    simp
  · obtain rfl := Option.some.inj h
    rfl

theorem chkmic_ids (mic : FragFrame → Bool) (o : ChkDefragOut) : (o.chkmic mic).ids = o.ids := by
  unfold ChkDefragOut.chkmic
  split
  · rfl
  · rename_i p hp
    split
    · split
      · simp [ChkDefragOut.ids, hp, add_assoc]
      · rename_i p' hmic
        simp [ChkDefragOut.ids, hp, recvframeChkmic_id hmic]
    · rfl

/-- `recvframe_chk_defrag` loses and duplicates no frame. -/
theorem recvframeChkDefrag_ids (mic : FragFrame → Bool) (keytrack : ℕ)
    (defragQ : Option (List FragFrame)) (f : FragFrame) :
    (recvframeChkDefrag mic keytrack defragQ f).ids = ids (defragQ.getD []) + {f.id} := by
  unfold recvframeChkDefrag
  split_ifs with h1 h2
  · rw [chkmic_ids]
    simp [ChkDefragOut.ids]
  · simp [ChkDefragOut.ids]
  · cases defragQ with
    | none => simp [ChkDefragOut.ids]
    | some q =>
      dsimp only
      split_ifs with h3 h4
      · simp [ChkDefragOut.ids, add_comm]
      · simp [ChkDefragOut.ids]
      · split
        · simp [ChkDefragOut.ids]
        · rename_i p hp
          have hq := recvframeDefrag_ids hp
          rw [chkmic_ids]
          change 0 + ids (q ++ [_]).tail + {p.id} = ids q + {f.id}
          rw [zero_add, hq, ids_append]
          rfl

end Defrag

section Free
variable [Fintype σ] [Fintype κ] {nr : ℕ} {w : RecvPriv σ κ} {hands : Multiset ℕ}
  {f : FragFrame} {i : FrameInfo σ κ}

theorem RecvPriv.Conserved.free_reorderCtrl (h : Conserved nr w (f.id ::ₘ hands)) :
    (w.rtwFreeRecvframe f).reorderCtrl = w.reorderCtrl := by
  have hnot := h.notMem_places
  funext k
  have hq : (w.reorderCtrl k).pendingRecvframeQueue.filter (·.body.id ≠ f.id) =
      (w.reorderCtrl k).pendingRecvframeQueue := by
    refine List.filter_eq_self.mpr fun g hg => ?_
    have : g.body.id ≠ f.id := fun he =>
      hnot (mem_total.mpr ⟨.pending k, by simpa [places, ids] using ⟨g, hg, he⟩⟩)
    simpa using this
  simp only [rtwFreeRecvframe, listDelete, hq]

variable [DecidableEq σ] [DecidableEq κ]

theorem RecvPriv.Conserved.free_list_reorderCtrl {l : List FragFrame}
    (h : Conserved nr w (ids l + hands)) :
    (l.foldl rtwFreeRecvframe w).reorderCtrl = w.reorderCtrl := by
  induction l generalizing w with
  | nil => rfl
  | cons f l ih =>
    rw [ids_cons, Multiset.cons_add] at h
    rw [List.foldl_cons, ih h.free, h.free_reorderCtrl]

/-- The world before the frames of the outcome are returned. -/
theorem RecvPriv.Conserved.chkDefrag_queue (h : Conserved nr w (f.id ::ₘ hands)) :
    ∃ w' : RecvPriv σ κ,
      w.recvframeChkDefrag i f =
        ((chkDefrag w i f).ret, (chkDefrag w i f).freed.foldl rtwFreeRecvframe w') ∧
      w'.reorderCtrl = w.reorderCtrl ∧
      Conserved nr w' (ids (chkDefrag w i f).freed +
        (ids (chkDefrag w i f).ret.toList + hands)) := by
  have hids := recvframeChkDefrag_ids i.mic i.keytrack (i.defragSta.map w.defragQ) f
  cases hs : i.defragSta with
  | none =>
    refine ⟨w, by simp [RecvPriv.recvframeChkDefrag, hs], rfl, ?_⟩
    have hq : (chkDefrag w i f).queue = [] := by
      simp only [chkDefrag, hs, Option.map_none, Recv.recvframeChkDefrag]
      split_ifs <;> simp
    have : ids (chkDefrag w i f).freed + ids (chkDefrag w i f).ret.toList = {f.id} := by
      change (chkDefrag w i f).ids = _ at hids
      simpa [ChkDefragOut.ids, hq, hs] using hids
    rwa [← add_assoc, this, Multiset.singleton_add]
  | some s =>
    refine ⟨{ w with defragQ := Function.update w.defragQ s (chkDefrag w i f).queue },
      by simp [RecvPriv.recvframeChkDefrag, hs], rfl, ?_⟩
    have hplaces : places { w with
        defragQ := Function.update w.defragQ s (chkDefrag w i f).queue } =
        Function.update w.places (.defrag s) (ids (chkDefrag w i f).queue) := by
      funext p
      cases p with
      | free => rfl
      | ucSwdec => rfl
      | pending k => rfl
      | defrag t =>
        by_cases hts : t = s
        · subst hts
          simp [places]
        · rw [Function.update_of_ne (by simpa using hts)]
          simp [places, Function.update_of_ne hts]
    refine h.move hplaces ?_ rfl rfl rfl rfl
    have : ids (chkDefrag w i f).queue + ids (chkDefrag w i f).freed +
        ids (chkDefrag w i f).ret.toList = w.places (.defrag s) + {f.id} := by
      change (chkDefrag w i f).ids = _ at hids
      rw [hs] at hids
      exact hids
    rw [← add_assoc, ← add_assoc, this, add_assoc, Multiset.singleton_add]

theorem RecvPriv.Conserved.chkDefrag (h : Conserved nr w (f.id ::ₘ hands)) :
    Conserved nr (w.recvframeChkDefrag i f).2
      (ids (Recv.chkDefrag w i f).ret.toList + hands) := by
  obtain ⟨w', heq, -, hc⟩ := h.chkDefrag_queue (i := i)
  rw [heq]
  exact hc.free_list

theorem RecvPriv.Conserved.chkDefrag_reorderCtrl (h : Conserved nr w (f.id ::ₘ hands)) :
    (w.recvframeChkDefrag i f).2.reorderCtrl = w.reorderCtrl := by
  obtain ⟨w', heq, hctrl, hc⟩ := h.chkDefrag_queue (i := i)
  rw [heq, ← hctrl]
  exact hc.free_list_reorderCtrl

end Free

section Reorder
variable {α : Type*}

theorem enqueueReorderRecvframe_perm {f : RecvFrame α} {q q' : List (RecvFrame α)}
    (h : enqueueReorderRecvframe f q = some q') : q'.Perm (f :: q) := by
  induction q generalizing q' with
  | nil =>
    obtain rfl : [f] = q' := by simpa [enqueueReorderRecvframe] using h
    exact List.Perm.refl _
  | cons next rest ih =>
    unfold enqueueReorderRecvframe at h
    split_ifs at h
    · obtain ⟨r, hr, rfl⟩ := Option.map_eq_some_iff.mp h
      exact ((ih hr).cons next).trans (List.Perm.swap f next rest)
    · obtain rfl := Option.some.inj h
      exact List.Perm.refl _

theorem indicateLoop_append (iseq : ℕ) (q : List (RecvFrame α)) :
    (indicateLoop iseq q).2.1 ++ (indicateLoop iseq q).2.2 = q := by
  induction q generalizing iseq with
  | nil => rfl
  | cons f rest ih =>
    unfold indicateLoop
    split
    · simp [ih]
    · rfl

theorem recvIndicatepktsInOrder_append (c : RecvReorderCtrl α) :
    (recvIndicatepktsInOrder c false).indicated ++
      (recvIndicatepktsInOrder c false).ctrl.pendingRecvframeQueue = c.pendingRecvframeQueue := by
  simp [recvIndicatepktsInOrder, indicateLoop_append]

theorem checkIndicateSeq_pending (c : RecvReorderCtrl α) (seqNum : ℕ) :
    (checkIndicateSeq c seqNum).1.pendingRecvframeQueue = c.pendingRecvframeQueue := by
  simp only [checkIndicateSeq]
  split_ifs <;> rfl

/-- The frame is handed on, refused, or taken into the queue, from which frames are indicated. -/
theorem recvIndicatepktReorder_cases (c : RecvReorderCtrl α) (f : RecvFrame α) :
    ((f.qos = false ∨ c.enable = false) ∧ Reorder.recvIndicatepktReorder c f = ⟨c, [], .success⟩) ∨
    (f.qos = true ∧ c.enable = true ∧
      (((Reorder.recvIndicatepktReorder c f).ret = .fail ∧
        (Reorder.recvIndicatepktReorder c f).ctrl.pendingRecvframeQueue =
          c.pendingRecvframeQueue ∧
        (Reorder.recvIndicatepktReorder c f).indicated = []) ∨
      ((Reorder.recvIndicatepktReorder c f).ret = .handled ∧
        ((Reorder.recvIndicatepktReorder c f).indicated ++
          (Reorder.recvIndicatepktReorder c f).ctrl.pendingRecvframeQueue).Perm
            (f :: c.pendingRecvframeQueue)))) := by
  unfold Reorder.recvIndicatepktReorder
  by_cases h1 : (!f.qos || !c.enable) = true
  · rw [if_pos h1]
    exact Or.inl ⟨by simpa using h1, rfl⟩
  rw [if_neg h1]
  have hon : f.qos = true ∧ c.enable = true := by simpa using h1
  refine Or.inr ⟨hon.1, hon.2, ?_⟩
  dsimp only
  generalize hc₁ : (if c.recAbbaRspAck = true then
    { c with recAbbaRspAck := false, indicateSeq := 0xFFFF } else c) = c₁
  have hq : (checkIndicateSeq c₁ f.seqNum).1.pendingRecvframeQueue = c.pendingRecvframeQueue := by
    rw [checkIndicateSeq_pending, ← hc₁]
    split <;> rfl
  by_cases h2 : (!(checkIndicateSeq c₁ f.seqNum).2) = true
  · rw [if_pos h2]
    exact Or.inl ⟨rfl, hq, rfl⟩
  · rw [if_neg h2]
    split
    · exact Or.inl ⟨rfl, hq, rfl⟩
    · rename_i q hen
      rw [hq] at hen
      have hperm := enqueueReorderRecvframe_perm hen
      have happ := recvIndicatepktsInOrder_append
        { (checkIndicateSeq c₁ f.seqNum).1 with pendingRecvframeQueue := q }
      dsimp only at happ
      rw [← happ] at hperm
      right
      split
      · exact ⟨rfl, hperm⟩
      · exact ⟨rfl, hperm⟩

end Reorder

section Post
variable {env : RecvEnv σ κ} {nr : ℕ} {w : RecvPriv σ κ} {hands : Multiset ℕ} {f p : FragFrame}

theorem recvProcessMpdu_snd (w : RecvPriv σ κ) (f : FragFrame) :
    (w.recvProcessMpdu env f).2 = w.rtwFreeRecvframe f := by
  simp only [RecvPriv.recvProcessMpdu]
  split_ifs <;> rfl

variable [DecidableEq κ]

theorem recvIndicatepktReorder_eq (w : RecvPriv σ κ) {k : κ}
    (hk : (env.info p.id).preorderCtrl = some k) :
    w.recvIndicatepktReorder env p =
      ((Reorder.recvIndicatepktReorder (w.reorderCtrl k) (p.toReorder (env.info p.id).qos)).ret,
        ((Reorder.recvIndicatepktReorder (w.reorderCtrl k)
          (p.toReorder (env.info p.id).qos)).indicated.map RecvFrame.body).foldl rtwFreeRecvframe
          { w with
            reorderCtrl := Function.update w.reorderCtrl k (Reorder.recvIndicatepktReorder
              (w.reorderCtrl k) (p.toReorder (env.info p.id).qos)).ctrl }) := by
  simp only [RecvPriv.recvIndicatepktReorder, hk, recvProcessMpdu_snd]

variable [DecidableEq σ]

theorem places_reorderCtrl (w : RecvPriv σ κ) (k : κ) (c : RecvReorderCtrl FragFrame) :
    places { w with reorderCtrl := Function.update w.reorderCtrl k c } =
      Function.update w.places (.pending k)
        (ids (c.pendingRecvframeQueue.map RecvFrame.body)) := by
  funext q
  cases q with
  | free => rfl
  | ucSwdec => rfl
  | defrag s => rfl
  | pending l =>
    by_cases hl : l = k
    · subst hl
      simp [places]
    · rw [Function.update_of_ne (by simpa using hl)]
      simp [places, Function.update_of_ne hl]

variable [Fintype σ] [Fintype κ]

/-- A frame that the reordering takes is in its queue or has been returned. -/
theorem RecvPriv.Conserved.reorder_handled (h : Conserved nr w (p.id ::ₘ hands))
    (env : RecvEnv σ κ)
    (hret : (w.recvIndicatepktReorder env p).1 = .handled) :
    Conserved nr (w.recvIndicatepktReorder env p).2 hands := by
  cases hk : (env.info p.id).preorderCtrl with
  | none => simp [RecvPriv.recvIndicatepktReorder, hk] at hret
  | some k =>
    rw [recvIndicatepktReorder_eq w hk] at hret ⊢
    obtain ⟨-, heq⟩ | ⟨-, -, ⟨heq, -⟩ | ⟨-, hperm⟩⟩ := recvIndicatepktReorder_cases
      (w.reorderCtrl k) (p.toReorder (env.info p.id).qos)
    · simp [heq] at hret
    · simp [heq] at hret
    · refine (h.move (places_reorderCtrl w k _) ?_ rfl rfl rfl rfl).free_list
      have hids := ids_perm (hperm.map RecvFrame.body)
      rw [List.map_append, List.map_cons, ids_append, ids_cons] at hids
      rw [← add_assoc, add_comm (ids _), hids, Multiset.cons_add, places, Multiset.add_cons]
      rfl

/-- A frame that the reordering does not take stays with its holder. -/
theorem RecvPriv.Conserved.reorder_not_handled (h : Conserved nr w (p.id ::ₘ hands))
    (env : RecvEnv σ κ)
    (hret : (w.recvIndicatepktReorder env p).1 ≠ .handled) :
    Conserved nr (w.recvIndicatepktReorder env p).2 (p.id ::ₘ hands) ∧
      (w.recvIndicatepktReorder env p).2.freeRecvQueue = w.freeRecvQueue := by
  cases hk : (env.info p.id).preorderCtrl with
  | none =>
    simp only [RecvPriv.recvIndicatepktReorder, hk]
    exact ⟨h, trivial⟩
  | some k =>
    rw [recvIndicatepktReorder_eq w hk] at hret ⊢
    obtain ⟨hq, hnil⟩ : (Reorder.recvIndicatepktReorder (w.reorderCtrl k)
          (p.toReorder (env.info p.id).qos)).ctrl.pendingRecvframeQueue =
          (w.reorderCtrl k).pendingRecvframeQueue ∧
        (Reorder.recvIndicatepktReorder (w.reorderCtrl k)
          (p.toReorder (env.info p.id).qos)).indicated = [] := by
      obtain ⟨-, heq⟩ | ⟨-, -, ⟨-, hq, hnil⟩ | ⟨heq, -⟩⟩ := recvIndicatepktReorder_cases
        (w.reorderCtrl k) (p.toReorder (env.info p.id).qos)
      · simp [heq]
      · exact ⟨hq, hnil⟩
      · exact absurd heq hret
    rw [hnil]
    refine ⟨h.move (places_reorderCtrl w k _) ?_ rfl rfl rfl rfl, rfl⟩
    rw [hq]
    rfl

end Post

end Rtl8821cu.Recv
