import Rtl8821cu.LibPool
import Rtl8821cu.XmitSched

/-! What the queues, lists and counters of transmit scheduling have to do with each other, and how
the single updates keep it. -/
namespace Rtl8821cu.XmitSched
open PowerSave

variable {n : ℕ}

instance : Fintype Hwq where
  elems := {.ac .vo, .ac .vi, .ac .be, .ac .bk, .mgmt}
  complete := by
    rintro (a | _)
    · cases a <;> decide
    · decide

/-- The frames of a queue. -/
def ids (l : List Frame) : Multiset ℕ := (l.map Frame.id : List ℕ)

@[simp] theorem ids_nil : ids [] = 0 := rfl

@[simp] theorem ids_cons (f : Frame) (l : List Frame) : ids (f :: l) = {f.id} + ids l := rfl

@[simp] theorem ids_append (l l' : List Frame) : ids (l ++ l') = ids l + ids l' := by
  simp [ids]

/-- The frames in the sleep queues of a station. -/
def sleeping (s : Sta) : Multiset ℕ := ids s.sleepQ + ids s.mgmtSleepQ

namespace Xmit

variable (x : Xmit n) (p : Fin n × Hwq)

/-- Every frame, in the place where it is: free, held, pending or sleeping. -/
def everywhere : Multiset ℕ :=
  (x.freeXmitQueue : Multiset ℕ) + ids x.held +
    Pool.total (fun p => ids (x.servq p).staPending) + Pool.total fun i => sleeping (x.ps i)

/-- The counters are exact, a queue with frames is linked, and the frames are `M`. -/
structure Core (M : Multiset ℕ) : Prop where
  qcnt : ∀ p, (x.servq p).qcnt = (x.servq p).staPending.length
  accnt : ∀ a, x.accnt a = ∑ i, (x.servq (i, a)).qcnt
  linked : ∀ p, (x.servq p).staPending ≠ [] → p.1 ∈ x.staQueue p.2
  conserved : x.everywhere = M

section Update

variable (l : List Frame) (d : ℤ)

@[simp] theorem setPending_pending_self : ((x.setPending p l).servq p).staPending = l := by
  simp [setPending]

theorem setPending_servq_of_ne {q : Fin n × Hwq} (h : q ≠ p) :
    (x.setPending p l).servq q = x.servq q := Function.update_of_ne h _ _

@[simp] theorem setPending_qcnt (q : Fin n × Hwq) :
    ((x.setPending p l).servq q).qcnt = (x.servq q).qcnt := by
  by_cases h : q = p
  · subst h
    simp [setPending]
  · rw [setPending_servq_of_ne x p l h]

@[simp] theorem addCnt_pending (q : Fin n × Hwq) :
    ((x.addCnt p d).servq q).staPending = (x.servq q).staPending := by
  by_cases h : q = p
  · subst h
    simp [addCnt]
  · simp [addCnt, h]

@[simp] theorem addCnt_qcnt_self : ((x.addCnt p d).servq p).qcnt = (x.servq p).qcnt + d := by
  simp [addCnt]

theorem addCnt_servq_of_ne {q : Fin n × Hwq} (h : q ≠ p) :
    (x.addCnt p d).servq q = x.servq q := Function.update_of_ne h _ _

theorem setPending_setPending (l' : List Frame) :
    (x.setPending p l).setPending p l' = x.setPending p l' := by
  simp [setPending]

theorem setPending_self : x.setPending p (x.servq p).staPending = x := by
  simp [setPending]

theorem addCnt_setPending : (x.addCnt p d).setPending p l = (x.setPending p l).addCnt p d := by
  simp [addCnt, setPending]

theorem setPs_setPending (i : Fin n) (s : Sta) :
    (x.setPs i s).setPending p l = (x.setPending p l).setPs i s := rfl

/-- The two counters of a queue move together. -/
theorem accnt_addCnt (h : ∀ a, x.accnt a = ∑ i, (x.servq (i, a)).qcnt) (a : Hwq) :
    (x.addCnt p d).accnt a = ∑ i, ((x.addCnt p d).servq (i, a)).qcnt := by
  by_cases ha : a = p.2
  · subst ha
    have hrest : ∑ i ∈ Finset.univ.erase p.1, ((x.addCnt p d).servq (i, p.2)).qcnt =
        ∑ i ∈ Finset.univ.erase p.1, (x.servq (i, p.2)).qcnt := by
      refine Finset.sum_congr rfl fun i hi => ?_
      rw [addCnt_servq_of_ne]
      intro he
      exact (Finset.ne_of_mem_erase hi) (by rw [← he])
    rw [← Finset.add_sum_erase _ _ (Finset.mem_univ p.1), hrest, Prod.mk.eta, addCnt_qcnt_self,
      add_right_comm]
    have hsum := h p.2
    rw [← Finset.add_sum_erase _ _ (Finset.mem_univ p.1), Prod.mk.eta] at hsum
    rw [← hsum]
    simp [addCnt]
  · have hne : ∀ i, (i, a) ≠ p := by
      rintro i rfl
      exact ha rfl
    simp_rw [addCnt_servq_of_ne x p d (hne _)]
    rw [← h a]
    simp [addCnt, ha]

theorem everywhere_setPending :
    (x.setPending p l).everywhere + ids (x.servq p).staPending = x.everywhere + ids l := by
  have hp : (fun q => ids ((x.setPending p l).servq q).staPending) =
      Function.update (fun q => ids (x.servq q).staPending) p (ids l) := by
    funext q
    by_cases h : q = p
    · subst h
      simp
    · rw [setPending_servq_of_ne x p l h, Function.update_of_ne h]
  have ht := Pool.total_update (fun q => ids (x.servq q).staPending) p (ids l)
  rw [← hp] at ht
  unfold everywhere
  calc _ = (x.freeXmitQueue : Multiset ℕ) + ids x.held +
        (Pool.total (fun q => ids ((x.setPending p l).servq q).staPending) +
          ids (x.servq p).staPending) + Pool.total fun i => sleeping (x.ps i) := by
        simp only [setPending]
        abel
    _ = _ := by
        rw [ht]
        abel

theorem everywhere_setPs (i : Fin n) (s : Sta) :
    (x.setPs i s).everywhere + sleeping (x.ps i) = x.everywhere + sleeping s := by
  have hp : (fun j => sleeping ((x.setPs i s).ps j)) =
      Function.update (fun j => sleeping (x.ps j)) i (sleeping s) := by
    funext j
    by_cases h : j = i
    · subst h
      simp [setPs]
    · simp [setPs, h]
  have ht := Pool.total_update (fun j => sleeping (x.ps j)) i (sleeping s)
  rw [← hp] at ht
  unfold everywhere
  rw [add_assoc, ht]
  simp only [setPs]
  abel

theorem everywhere_addCnt : (x.addCnt p d).everywhere = x.everywhere := by
  simp only [everywhere, addCnt_pending]
  rfl

end Update

section Core

variable {x p} {M : Multiset ℕ} {f : Frame}

theorem Core.setPs (h : x.Core M) {i : Fin n} {s : Sta} {M' : Multiset ℕ}
    (hM : M' + sleeping (x.ps i) = M + sleeping s) : (x.setPs i s).Core M' := by
  refine ⟨h.qcnt, h.accnt, h.linked, ?_⟩
  have he := everywhere_setPs x i s
  rw [h.conserved, ← hM] at he
  exact add_right_cancel he

/-- The pending frames and their counters change by the same amount, and what stays is linked. -/
theorem Core.replace (h : x.Core M) {l : List Frame} {d : ℤ} {M' : Multiset ℕ}
    (hd : (l.length : ℤ) = (x.servq p).staPending.length + d)
    (hl : l ≠ [] → p.1 ∈ x.staQueue p.2)
    (hM : M' + ids (x.servq p).staPending = M + ids l) :
    ((x.setPending p l).addCnt p d).Core M' := by
  refine ⟨?_, ?_, ?_, ?_⟩
  · intro q
    by_cases hq : q = p
    · subst hq
      rw [addCnt_qcnt_self, addCnt_pending, setPending_pending_self, setPending_qcnt, h.qcnt, hd]
    · rw [addCnt_servq_of_ne _ _ _ hq, setPending_servq_of_ne _ _ _ hq, h.qcnt]
  · apply accnt_addCnt
    intro a
    simp only [setPending_qcnt]
    exact h.accnt a
  · intro q hne
    rw [addCnt_pending] at hne
    by_cases hq : q = p
    · subst hq
      rw [setPending_pending_self] at hne
      exact hl hne
    · rw [setPending_servq_of_ne _ _ _ hq] at hne
      exact h.linked q hne
  · have he := everywhere_setPending x p l
    rw [h.conserved, ← hM] at he
    rw [everywhere_addCnt]
    exact add_right_cancel he

theorem Core.link (h : x.Core M) (p : Fin n × Hwq) : (x.link p).Core M := by
  unfold Xmit.link
  split_ifs with hp
  · exact h
  · refine ⟨h.qcnt, h.accnt, ?_, h.conserved⟩
    intro q hq
    have hmem := h.linked q hq
    by_cases ha : q.2 = p.2
    · simp only [ha, Function.update_self]
      rw [ha] at hmem
      exact List.mem_append_left _ hmem
    · simpa [ha] using hmem

theorem Core.unlink (h : x.Core M) (hp : (x.servq p).staPending = []) : (x.unlink p).Core M := by
  refine ⟨h.qcnt, h.accnt, ?_, h.conserved⟩
  intro q hq
  have hmem := h.linked q hq
  have hqp : q ≠ p := by
    rintro rfl
    exact hq hp
  by_cases ha : q.2 = p.2
  · have hi : q.1 ≠ p.1 := fun hi => hqp (Prod.ext hi ha)
    simp only [Xmit.unlink, ha, Function.update_self]
    rw [ha] at hmem
    exact (List.mem_erase_of_ne hi).mpr hmem
  · simpa [Xmit.unlink, ha] using hmem

theorem Core.rearrange (h : x.Core M) (p : Fin n × Hwq) : (x.rearrange p).Core M := by
  refine ⟨h.qcnt, h.accnt, ?_, h.conserved⟩
  intro q hq
  have hmem := h.linked q hq
  by_cases ha : q.2 = p.2
  · simp only [Xmit.rearrange, ha, Function.update_self, List.mem_append, List.mem_singleton]
    rw [ha] at hmem
    by_cases hi : q.1 = p.1
    · exact .inr hi
    · exact .inl ((List.mem_erase_of_ne hi).mpr hmem)
  · simpa [Xmit.rearrange, ha] using hmem

theorem Core.freeFrames (h : x.Core M) (l : List Frame) : (x.freeFrames l).Core (M + ids l) := by
  refine ⟨h.qcnt, h.accnt, h.linked, ?_⟩
  rw [← h.conserved]
  simp only [everywhere, Xmit.freeFrames, ids, ← Multiset.coe_add]
  abel

theorem Core.hold (h : x.Core M) (f : Frame) :
    Core { x with held := f :: x.held } (M + {f.id}) := by
  refine ⟨h.qcnt, h.accnt, h.linked, ?_⟩
  rw [← h.conserved]
  simp only [everywhere, ids_cons]
  abel

theorem Core.release (h : x.Core (M + {f.id})) {k : ℕ} (hk : x.held[k]? = some f) :
    (x.release k).Core M := by
  refine ⟨h.qcnt, h.accnt, h.linked, ?_⟩
  obtain ⟨hlt, hget⟩ := List.getElem?_eq_some_iff.mp hk
  have hids : ids x.held = ids (x.held.eraseIdx k) + {f.id} := by
    have hperm := List.getElem_cons_eraseIdx_perm hlt
    rw [hget] at hperm
    have := Multiset.coe_eq_coe.mpr (hperm.map Frame.id)
    simp only [ids, ← this]
    simp [add_comm]
  have hc := h.conserved
  simp only [everywhere, hids] at hc
  apply add_right_cancel (b := ({f.id} : Multiset ℕ))
  rw [← hc]
  simp only [everywhere, Xmit.release]
  abel

end Core

end Xmit

end Rtl8821cu.XmitSched
