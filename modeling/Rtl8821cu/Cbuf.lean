import Rtl8821cu.LibRing
import Rtl8821cu.LibRun

/-! The pointer ring `rtw_cbuf` of `os_dep/osdep_service.c`. -/
namespace Rtl8821cu.Cbuf
open RingBuf Run

variable {α : Type*}

/-- `struct rtw_cbuf`; `α` are the pointers that are not `NULL`. -/
structure RtwCbuf (α : Type*) where
  write : BitVec 32
  read : BitVec 32
  size : BitVec 32
  bufs : ℕ → α

/-- `rtw_cbuf_alloc`; the pointers are whatever the memory held. -/
def rtwCbufAlloc (size : BitVec 32) (mem : ℕ → α) : RtwCbuf α := ⟨0, 0, size, mem⟩

def rtwCbufFull (c : RtwCbuf α) : Bool := c.write == c.read - 1

def rtwCbufEmpty (c : RtwCbuf α) : Bool := c.write == c.read

/-- `rtw_cbuf_push`; `none` is `_FAIL`. -/
def rtwCbufPush (c : RtwCbuf α) (buf : α) : Option (RtwCbuf α) :=
  if rtwCbufFull c then none
  else some { c with
    bufs := Function.update c.bufs c.write.toNat buf
    write := (c.write + 1) % c.size }

/-- `rtw_cbuf_pop`; `none` is `NULL`. -/
def rtwCbufPop (c : RtwCbuf α) : Option (α × RtwCbuf α) :=
  if rtwCbufEmpty c then none
  else some (c.bufs c.read.toNat, { c with read := (c.read + 1) % c.size })

inductive Op (α : Type*)
  | push (buf : α)
  | pop

/-- A ring with the pointers successfully pushed and popped so far, oldest first. -/
structure History (α : Type*) where
  cbuf : RtwCbuf α
  pushed : List α
  popped : List α

namespace History

def init (size : BitVec 32) (mem : ℕ → α) : History α := ⟨rtwCbufAlloc size mem, [], []⟩

def step (h : History α) : Op α → History α
  | .push buf =>
    match rtwCbufPush h.cbuf buf with
    | none => h
    | some c => { h with cbuf := c, pushed := h.pushed ++ [buf] }
  | .pop =>
    match rtwCbufPop h.cbuf with
    | none => h
    | some (buf, c) => { h with cbuf := c, popped := h.popped ++ [buf] }

/-- How many pointers were pushed and not popped. -/
def stored (h : History α) : ℕ := h.pushed.length - h.popped.length

/-- The pops so far are a prefix of the pushes, and at most `size - 1` pointers are stored. -/
def Bounded (h : History α) : Prop :=
  h.popped <+: h.pushed ∧ h.stored ≤ h.cbuf.size.toNat - 1

/-- An operation does what it does to a queue of at most `size - 1` pointers. -/
def FifoStep (h : History α) (op : Op α) : Prop :=
  (match op with
    | .push buf => rtwCbufPush h.cbuf buf = none ↔ h.stored = h.cbuf.size.toNat - 1
    | .pop => rtwCbufPop h.cbuf = none ↔ h.stored = 0) ∧
  (h.step op).Bounded

/-- A push with the reading index at the first place and the writing index at the last. -/
def PushesAtLast (h : History α) : Op α → Prop
  | .push _ => h.cbuf.read = 0 ∧ h.cbuf.write = h.cbuf.size - 1
  | .pop => False

/-- The ring holds what was pushed and not popped. -/
structure Inv (h : History α) : Prop where
  size : 2 ≤ h.cbuf.size.toNat
  holds : Holds h.cbuf.size.toNat h.cbuf.bufs h.pushed h.popped.length
  write : h.cbuf.write.toNat = h.pushed.length % h.cbuf.size.toNat
  read : h.cbuf.read.toNat = h.popped.length % h.cbuf.size.toNat
  popped : h.popped <+: h.pushed

variable {h : History α}

theorem step_push (hfull : rtwCbufFull h.cbuf = false) (buf : α) :
    h.step (.push buf) =
      { h with
        cbuf := { h.cbuf with
          bufs := Function.update h.cbuf.bufs h.cbuf.write.toNat buf
          write := (h.cbuf.write + 1) % h.cbuf.size }
        pushed := h.pushed ++ [buf] } := by
  simp [step, rtwCbufPush, hfull]

theorem step_push_full (hfull : rtwCbufFull h.cbuf = true) (buf : α) :
    h.step (.push buf) = h := by
  simp [step, rtwCbufPush, hfull]

theorem step_pop (hempty : rtwCbufEmpty h.cbuf = false) :
    h.step .pop =
      { h with
        cbuf := { h.cbuf with read := (h.cbuf.read + 1) % h.cbuf.size }
        popped := h.popped ++ [h.cbuf.bufs h.cbuf.read.toNat] } := by
  simp [step, rtwCbufPop, hempty]

theorem step_pop_empty (hempty : rtwCbufEmpty h.cbuf = true) : h.step .pop = h := by
  simp [step, rtwCbufPop, hempty]

theorem inv_init {size : BitVec 32} (hs : 2 ≤ size.toNat) (mem : ℕ → α) : (init size mem).Inv := by
  refine ⟨hs, ⟨le_rfl, ?_, ?_⟩, by simp [init, rtwCbufAlloc], by simp [init, rtwCbufAlloc],
    List.nil_prefix⟩
  · simp only [init, rtwCbufAlloc, List.length_nil]
    omega
  · intro j _ a ha
    simp [init] at ha

section Index

variable (hi : h.Inv)
include hi

theorem Inv.stored_lt : h.stored + 1 ≤ h.cbuf.size.toNat := by
  have h1 := hi.holds.le
  have h2 := hi.holds.lt
  unfold stored
  omega

/-- An index after one more turn of its end. -/
theorem Inv.next {i : BitVec 32} {c : ℕ} (hc : i.toNat = c % h.cbuf.size.toNat) :
    ((i + 1) % h.cbuf.size).toNat = (c + 1) % h.cbuf.size.toNat := by
  have hs := hi.size
  have hlt := Nat.mod_lt c (show 0 < h.cbuf.size.toNat by omega)
  have hmax := h.cbuf.size.isLt
  have hone : (1 : BitVec 32).toNat = 1 := rfl
  rw [BitVec.toNat_umod, BitVec.toNat_add, hc, hone,
    Nat.mod_eq_of_lt (show c % h.cbuf.size.toNat + 1 < 2 ^ 32 by omega), Nat.mod_add_mod]

theorem Inv.empty_iff : rtwCbufEmpty h.cbuf = true ↔ h.stored = 0 := by
  have hle := hi.holds.le
  rw [rtwCbufEmpty, beq_iff_eq, ← BitVec.toNat_inj, hi.write, hi.read, mod_eq_iff hle hi.holds.lt]
  unfold stored
  omega

theorem Inv.stored_iff : h.stored = h.cbuf.size.toNat - 1 ↔
    h.pushed.length + 1 = h.popped.length + h.cbuf.size.toNat := by
  have hle := hi.holds.le
  have hs := hi.size
  unfold stored
  omega

/-- The test for a full ring is exact unless the reading index is zero, when it fails. -/
theorem Inv.full_iff :
    rtwCbufFull h.cbuf = true ↔ h.stored = h.cbuf.size.toNat - 1 ∧ h.cbuf.read ≠ 0 := by
  have hs := hi.size
  have hw := Nat.mod_lt h.pushed.length (show 0 < h.cbuf.size.toNat by omega)
  have hr := Nat.mod_lt h.popped.length (show 0 < h.cbuf.size.toNat by omega)
  have hmax := h.cbuf.size.isLt
  have hone : (1 : BitVec 32).toNat = 1 := rfl
  have hzero : h.cbuf.read = 0 ↔ h.popped.length % h.cbuf.size.toNat = 0 := by
    rw [← BitVec.toNat_inj, hi.read]
    rfl
  rw [rtwCbufFull, beq_iff_eq, ← BitVec.toNat_inj, BitVec.toNat_sub, hi.write, hi.read, hone,
    ne_eq, hzero, hi.stored_iff]
  by_cases h0 : h.popped.length % h.cbuf.size.toNat = 0
  · simp only [h0, not_true, and_false, iff_false]
    omega
  · rw [← mod_pred_iff hi.holds.le hi.holds.lt h0]
    omega

theorem Inv.pushesAtLast_iff (buf : α) : h.PushesAtLast (.push buf) ↔
    h.stored = h.cbuf.size.toNat - 1 ∧ h.cbuf.read = 0 := by
  have hs := hi.size
  have hone : (1 : BitVec 32).toNat = 1 := rfl
  have hmax := h.cbuf.size.isLt
  have hlast : (h.cbuf.size - 1).toNat = h.cbuf.size.toNat - 1 := by
    rw [BitVec.toNat_sub, hone]
    omega
  unfold PushesAtLast
  rw [and_comm, and_congr_left_iff]
  intro h0
  have hr : h.popped.length % h.cbuf.size.toNat = 0 := by
    rw [← hi.read, h0]
    rfl
  rw [← BitVec.toNat_inj, hlast, hi.write, mod_last_iff hi.holds.le hi.holds.lt hr, hi.stored_iff]

end Index

theorem Inv.bounded (hi : h.Inv) : h.Bounded :=
  ⟨hi.popped, by have := hi.stored_lt; omega⟩

/-- A push into a ring that is not full. -/
theorem Inv.push (hi : h.Inv) (buf : α) (hlt : h.stored + 1 < h.cbuf.size.toNat) :
    (h.step (.push buf)).Inv := by
  have hfull : rtwCbufFull h.cbuf = false := by
    rw [← Bool.not_eq_true, hi.full_iff]
    omega
  have hle := hi.holds.le
  have hroom : h.pushed.length + 1 < h.popped.length + h.cbuf.size.toNat := by
    unfold stored at hlt
    omega
  rw [step_push hfull]
  refine ⟨hi.size, ?_, ?_, hi.read, hi.popped.trans (List.prefix_append _ _)⟩
  · simpa only [hi.write] using hi.holds.push hroom buf
  · simpa using hi.next hi.write

theorem Inv.pop (hi : h.Inv) (hpos : h.stored ≠ 0) : (h.step .pop).Inv := by
  have hempty : rtwCbufEmpty h.cbuf = false := by
    rw [← Bool.not_eq_true, hi.empty_iff]
    exact hpos
  have hlt : h.popped.length < h.pushed.length := by
    unfold stored at hpos
    omega
  obtain ⟨hget, hholds⟩ := hi.holds.pop hlt
  rw [step_pop hempty]
  refine ⟨hi.size, ?_, hi.write, ?_, ?_⟩
  · simpa using hholds
  · simpa using hi.next hi.read
  · obtain ⟨rest, hrest⟩ := hi.popped
    rw [← hi.read, ← hrest, List.getElem?_append_right le_rfl, Nat.sub_self] at hget
    cases rest with
    | nil => simp at hget
    | cons a rest =>
      obtain rfl : a = h.cbuf.bufs h.cbuf.read.toNat := by simpa using hget
      exact ⟨rest, by simpa using hrest⟩

/-- The invariant is kept by all operations but a push with the indices at the ends. -/
theorem Inv.step (hi : h.Inv) (op : Op α) (hop : ¬h.PushesAtLast op) : (h.step op).Inv := by
  cases op with
  | push buf =>
    rw [hi.pushesAtLast_iff] at hop
    have hlt := hi.stored_lt
    by_cases hlast : h.stored = h.cbuf.size.toNat - 1
    · have hfull : rtwCbufFull h.cbuf = true := hi.full_iff.mpr ⟨hlast, fun h0 => hop ⟨hlast, h0⟩⟩
      rw [step_push_full hfull]
      exact hi
    · exact hi.push buf (by omega)
  | pop =>
    by_cases hzero : h.stored = 0
    · rw [step_pop_empty (hi.empty_iff.mpr hzero)]
      exact hi
    · exact hi.pop hzero

/-- An operation behaves as one on a queue exactly if it is not such a push. -/
theorem Inv.fifoStep_iff (hi : h.Inv) (op : Op α) : h.FifoStep op ↔ ¬h.PushesAtLast op := by
  constructor
  · rintro ⟨hexact, -⟩ hbad
    cases op with
    | push buf =>
      obtain ⟨hlast, h0⟩ := (hi.pushesAtLast_iff buf).mp hbad
      have hfull : rtwCbufFull h.cbuf = true := by
        simpa [rtwCbufPush] using hexact.mpr hlast
      exact (hi.full_iff.mp hfull).2 h0
    | pop => exact hbad
  · intro hop
    refine ⟨?_, (hi.step op hop).bounded⟩
    cases op with
    | push buf =>
      rw [hi.pushesAtLast_iff] at hop
      simp only [rtwCbufPush, ite_eq_left_iff, reduceCtorEq, imp_false, not_not, hi.full_iff]
      exact ⟨fun hf => hf.1, fun hl => ⟨hl, fun h0 => hop ⟨hl, h0⟩⟩⟩
    | pop =>
      simp only [rtwCbufPop, ite_eq_left_iff, reduceCtorEq, imp_false, not_not, hi.empty_iff]

/-- A run of the ring is one of a queue of at most `size - 1` pointers exactly if it never pushes
with the reading index at the first place and the writing index at the last. -/
theorem cbuf_fifo_iff (size : BitVec 32) (hs : 2 ≤ size.toNat) (mem : ℕ → α) (ops : List (Op α)) :
    Along step FifoStep (init size mem) ops ↔
      Along step (fun h op => ¬h.PushesAtLast op) (init size mem) ops := by
  have hstep : ∀ (h : History α) op, h.Inv → ¬h.PushesAtLast op → (h.step op).Inv :=
    fun h op hi hop => hi.step op hop
  constructor
  · exact along_mono (fun h op hi hf => hstep h op hi ((hi.fifoStep_iff op).mp hf))
      (fun h op hi hf => (hi.fifoStep_iff op).mp hf) (inv_init hs mem)
  · exact along_mono hstep (fun h op hi hop => (hi.fifoStep_iff op).mpr hop) (inv_init hs mem)

theorem cbuf_fifo_iff_three :
    Along step FifoStep (init 3 fun _ => 0) [.push 1, .push 2, .pop, .push 3, .push 4] ↔
      Along step (fun h op => ¬h.PushesAtLast op) (init 3 fun _ => 0)
        [.push 1, .push 2, .pop, .push 3, .push 4] :=
  cbuf_fifo_iff 3 (by decide) _ _

/-- Two pointers pushed into a new ring of two are both lost. -/
theorem second_push_empties :
    ¬∀ (size : BitVec 32), 2 ≤ size.toNat → ∀ (mem : ℕ → ℕ) (ops : List (Op ℕ)),
      Along step FifoStep (init size mem) ops := by
  intro h
  have hrun := h 2 (by decide) (fun _ => 0) [.push 1, .push 2]
  have hexact := hrun.2.1.1
  have hnone : rtwCbufPush (run step (init 2 fun _ => 0) [.push 1]).cbuf 2 = none :=
    hexact.mpr (by decide)
  exact absurd hnone (by decide)

end History

end Rtl8821cu.Cbuf
