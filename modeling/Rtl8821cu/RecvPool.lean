import Rtl8821cu.LibPool
import Rtl8821cu.Reorder
import Rtl8821cu.RecvDefrag

/-! The pool of receive frames: the queues a frame can stand in, `rtw_free_recvframe`, and the
partition of the frames over the queues and the function that holds one. -/
namespace Rtl8821cu.Recv
open Pool Reorder

variable {σ κ : Type*}

/-- The identities of a list of frames. -/
def ids (l : List FragFrame) : Multiset ℕ := (l.map FragFrame.id : List ℕ)

@[simp] theorem ids_nil : ids [] = 0 := rfl

@[simp] theorem ids_cons (f : FragFrame) (l : List FragFrame) : ids (f :: l) = f.id ::ₘ ids l := rfl

@[simp] theorem ids_append (l₁ l₂ : List FragFrame) : ids (l₁ ++ l₂) = ids l₁ + ids l₂ := by
  simp [ids, ← Multiset.coe_add]

theorem ids_perm {l₁ l₂ : List FragFrame} (h : l₁.Perm l₂) : ids l₁ = ids l₂ :=
  Multiset.coe_eq_coe.mpr (h.map _)

/-- A frame in the reordering queue of its TID. -/
def FragFrame.toReorder (f : FragFrame) (qos : Bool) : RecvFrame FragFrame :=
  ⟨f.seqNum.toNat, f.seqNum.isLt, qos, f⟩

/-- The queues of `recv_priv`, of the stations `σ` and of the reordering controllers `κ`, with
what was done to frames after their return: one returned again, one used. -/
structure RecvPriv (σ κ : Type*) where
  freeRecvQueue : List ℕ
  freeRecvframeCnt : ℕ
  ucSwdecPendingQueue : List FragFrame
  defragQ : σ → List FragFrame
  reorderCtrl : κ → RecvReorderCtrl FragFrame
  returnedTwice : Bool
  usedAfterReturn : Bool

/-- Where a frame can stand. -/
inductive Place (σ κ : Type*)
  | free
  | ucSwdec
  | defrag (s : σ)
  | pending (k : κ)
  deriving DecidableEq, Fintype

namespace RecvPriv

def places (w : RecvPriv σ κ) : Place σ κ → Multiset ℕ
  | .free => w.freeRecvQueue
  | .ucSwdec => ids w.ucSwdecPendingQueue
  | .defrag s => ids (w.defragQ s)
  | .pending k => ids ((w.reorderCtrl k).pendingRecvframeQueue.map RecvFrame.body)

/-- `rtw_list_delete`: the frame leaves whatever queue it stands in. -/
def listDelete (w : RecvPriv σ κ) (id : ℕ) : RecvPriv σ κ :=
  { w with
    freeRecvQueue := w.freeRecvQueue.filter (· ≠ id)
    ucSwdecPendingQueue := w.ucSwdecPendingQueue.filter (·.id ≠ id)
    defragQ := fun s => (w.defragQ s).filter (·.id ≠ id)
    reorderCtrl := fun k =>
      { w.reorderCtrl k with
        pendingRecvframeQueue :=
          (w.reorderCtrl k).pendingRecvframeQueue.filter (·.body.id ≠ id) } }

def rtwFreeRecvframe (w : RecvPriv σ κ) (f : FragFrame) : RecvPriv σ κ :=
  { w.listDelete f.id with
    freeRecvQueue := (w.listDelete f.id).freeRecvQueue ++ [f.id]
    freeRecvframeCnt := w.freeRecvframeCnt + 1
    returnedTwice := w.returnedTwice || decide (f.id ∈ w.freeRecvQueue) }

/-- The code reads the frame or its buffer. -/
def use (w : RecvPriv σ κ) (f : FragFrame) : RecvPriv σ κ :=
  { w with usedAfterReturn := w.usedAfterReturn || decide (f.id ∈ w.freeRecvQueue) }

/-- Some frame was returned twice or used after its return. -/
def Bad (w : RecvPriv σ κ) : Prop := w.returnedTwice = true ∨ w.usedAfterReturn = true

section Frame
variable {w : RecvPriv σ κ} {f g : FragFrame}

theorem mem_free_rtwFreeRecvframe (h : g.id ∈ w.freeRecvQueue) :
    g.id ∈ (w.rtwFreeRecvframe f).freeRecvQueue := by
  by_cases hfg : g.id = f.id
  · simp [rtwFreeRecvframe, hfg]
  · simp [rtwFreeRecvframe, listDelete, h, hfg]

theorem self_mem_free : f.id ∈ (w.rtwFreeRecvframe f).freeRecvQueue := by
  simp [rtwFreeRecvframe]

theorem Bad.rtwFreeRecvframe (h : w.Bad) (f : FragFrame) : (w.rtwFreeRecvframe f).Bad := by
  rcases h with h | h
  · exact Or.inl (by simp [RecvPriv.rtwFreeRecvframe, h])
  · exact Or.inr h

theorem Bad.foldl_free (h : w.Bad) (l : List FragFrame) :
    (l.foldl RecvPriv.rtwFreeRecvframe w).Bad := by
  induction l generalizing w with
  | nil => exact h
  | cons f l ih => exact ih (h.rtwFreeRecvframe f)

theorem Bad.use (h : w.Bad) (f : FragFrame) : (w.use f).Bad := by
  rcases h with h | h
  · exact Or.inl h
  · exact Or.inr (by simp [RecvPriv.use, h])

/-- A second return of a frame is noticed. -/
theorem bad_of_free_again (h : f.id ∈ w.freeRecvQueue) : (w.rtwFreeRecvframe f).Bad :=
  Or.inl (by simp [rtwFreeRecvframe, h])

theorem bad_of_use (h : f.id ∈ w.freeRecvQueue) : (w.use f).Bad := Or.inr (by simp [use, h])

theorem mem_free_foldl (h : g.id ∈ w.freeRecvQueue) (l : List FragFrame) :
    g.id ∈ (l.foldl rtwFreeRecvframe w).freeRecvQueue := by
  induction l generalizing w with
  | nil => exact h
  | cons f l ih => exact ih (mem_free_rtwFreeRecvframe h)

theorem mem_free_of_mem {l : List FragFrame} (h : g ∈ l) :
    g.id ∈ (l.foldl rtwFreeRecvframe w).freeRecvQueue := by
  induction l generalizing w with
  | nil => simp at h
  | cons f l ih =>
    rcases List.mem_cons.mp h with rfl | h
    · exact mem_free_foldl self_mem_free l
    · exact ih h

theorem length_free (h : f.id ∉ w.freeRecvQueue) :
    (w.rtwFreeRecvframe f).freeRecvQueue.length = w.freeRecvQueue.length + 1 := by
  have : w.freeRecvQueue.filter (· ≠ f.id) = w.freeRecvQueue :=
    List.filter_eq_self.mpr fun a ha => by
      simpa using fun hfa : a = f.id => h (hfa ▸ ha)
  rw [rtwFreeRecvframe, listDelete, this, List.length_append, List.length_singleton]

theorem places_listDelete (w : RecvPriv σ κ) (id : ℕ) :
    (w.listDelete id).places = fun p => (w.places p).filter (· ≠ id) := by
  funext p
  cases p <;> simp [places, ids, listDelete, List.filter_map, Function.comp_def]

end Frame

section Partition
variable [Fintype σ] [Fintype κ]

/-- Every frame of the pool is in exactly one place, the counter is right, and no frame was
returned twice or used after its return; `hands` are the frames some function holds. -/
structure Conserved (nr : ℕ) (w : RecvPriv σ κ) (hands : Multiset ℕ) : Prop where
  partition : total w.places + hands = Multiset.range nr
  cnt : w.freeRecvframeCnt = w.freeRecvQueue.length
  once : w.returnedTwice = false
  unused : w.usedAfterReturn = false

variable {nr : ℕ} {w : RecvPriv σ κ} {hands : Multiset ℕ} {f : FragFrame}

theorem Conserved.not_bad (h : Conserved nr w hands) : ¬ w.Bad := by
  rintro (hb | hb)
  · simp [h.once] at hb
  · simp [h.unused] at hb

theorem Conserved.nodup (h : Conserved nr w hands) : (total w.places + hands).Nodup := by
  rw [h.partition]
  exact Multiset.nodup_range nr

theorem Conserved.notMem_places (h : Conserved nr w (f.id ::ₘ hands)) : f.id ∉ total w.places := by
  have hdisj := (Multiset.nodup_add.mp h.nodup).2.2
  intro hmem
  exact Multiset.disjoint_left.mp hdisj hmem (Multiset.mem_cons_self _ _)

theorem notMem_free (h : f.id ∉ total w.places) : f.id ∉ w.freeRecvQueue := fun hf =>
  h (mem_total.mpr ⟨.free, by simpa [places] using hf⟩)

variable [DecidableEq σ] [DecidableEq κ]

omit [Fintype σ] [Fintype κ] in
theorem places_rtwFreeRecvframe (w : RecvPriv σ κ) (f : FragFrame) :
    (w.rtwFreeRecvframe f).places = Function.update (fun p => (w.places p).filter (· ≠ f.id)) .free
      ((w.places .free).filter (· ≠ f.id) + {f.id}) := by
  have hdel := places_listDelete w f.id
  funext p
  have hp := congrFun hdel p
  cases p with
  | free =>
    rw [Function.update_self]
    have : (w.rtwFreeRecvframe f).places .free =
        (w.listDelete f.id).places .free + {f.id} := by
      simp [places, rtwFreeRecvframe, ← Multiset.coe_add]
    rw [this, hp]
  | ucSwdec => rw [Function.update_of_ne (by simp)]; exact hp
  | defrag s => rw [Function.update_of_ne (by simp)]; exact hp
  | pending k => rw [Function.update_of_ne (by simp)]; exact hp

theorem total_rtwFreeRecvframe (w : RecvPriv σ κ) (f : FragFrame) :
    total (w.rtwFreeRecvframe f).places = (total w.places).filter (· ≠ f.id) + {f.id} := by
  rw [places_rtwFreeRecvframe, total_put]

/-- Returning the frame a function holds. -/
theorem Conserved.free (h : Conserved nr w (f.id ::ₘ hands)) :
    Conserved nr (w.rtwFreeRecvframe f) hands := by
  have hnot := h.notMem_places
  refine ⟨?_, ?_, ?_, h.unused⟩
  · rw [total_rtwFreeRecvframe, filter_ne_of_notMem hnot, ← h.partition, add_assoc,
      Multiset.singleton_add]
  · rw [length_free (notMem_free hnot), ← h.cnt]
    rfl
  · simp [rtwFreeRecvframe, h.once, notMem_free hnot]

/-- Returning a frame that still stands in a queue. -/
theorem Conserved.free_queued (h : Conserved nr w hands) (hmem : f.id ∈ total w.places)
    (hfree : f.id ∉ w.freeRecvQueue) : Conserved nr (w.rtwFreeRecvframe f) hands := by
  have hnodup := (Multiset.nodup_add.mp h.nodup).1
  refine ⟨?_, ?_, ?_, h.unused⟩
  · rw [total_rtwFreeRecvframe, filter_ne_add_of_mem hnodup hmem, h.partition]
  · rw [length_free hfree, ← h.cnt]
    rfl
  · simp [rtwFreeRecvframe, h.once, hfree]

theorem Conserved.free_list {l : List FragFrame}
    (h : Conserved nr w (ids l + hands)) : Conserved nr (l.foldl rtwFreeRecvframe w) hands := by
  induction l generalizing w with
  | nil => simpa using h
  | cons f l ih =>
    rw [ids_cons, Multiset.cons_add] at h
    exact ih h.free

/-- Replacing one queue by another moves the difference into the hands. -/
theorem Conserved.move {w' : RecvPriv σ κ} {p : Place σ κ} {q hands' : Multiset ℕ}
    (h : Conserved nr w hands) (hplaces : w'.places = Function.update w.places p q)
    (hq : q + hands' = w.places p + hands) (hfree : w'.freeRecvQueue = w.freeRecvQueue)
    (hcnt : w'.freeRecvframeCnt = w.freeRecvframeCnt) (honce : w'.returnedTwice = w.returnedTwice)
    (hunused : w'.usedAfterReturn = w.usedAfterReturn) : Conserved nr w' hands' := by
  refine ⟨?_, by rw [hcnt, hfree, h.cnt], by rw [honce, h.once], by rw [hunused, h.unused]⟩
  have hup := total_update w.places p q
  rw [← h.partition, hplaces]
  apply add_right_cancel (b := w.places p)
  calc total (Function.update w.places p q) + hands' + w.places p
      = total (Function.update w.places p q) + w.places p + hands' := add_right_comm _ _ _
    _ = total w.places + (q + hands') := by rw [hup, add_assoc]
    _ = total w.places + hands + w.places p := by rw [hq, add_comm (w.places p), add_assoc]

end Partition

end RecvPriv

end Rtl8821cu.Recv
