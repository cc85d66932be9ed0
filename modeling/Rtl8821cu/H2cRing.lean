import Rtl8821cu.LibRing
import Rtl8821cu.LibRun

/-! The ring of H2C commands (`send_h2c_pkt_88xx`): the driver's cached free space, the hardware's
write pointer and the firmware's read pointer, over every interleaving of the driver's register
reads and sends with the firmware. -/
namespace Rtl8821cu.H2cRing
open RingBuf Run

/-- `H2C_PKT_SIZE_88XX`. -/
def pktSize : ℕ := 32

/-- Where the ring is: `slots` commands from the address `base` on. The pointers are fields of 18
bits. -/
structure Ring where
  base : ℕ
  slots : ℕ
  two_le : 2 ≤ slots
  fits : base + pktSize * slots ≤ 2 ^ 18

/-- `h2c_info.buf_size`. -/
def Ring.bufSize (g : Ring) : ℕ := pktSize * g.slots

/-- The address of a slot. -/
def Ring.addr (g : Ring) (i : ℕ) : ℕ := g.base + pktSize * i

/-- A pointer after one more command. -/
def Ring.advance (g : Ring) (ptr : ℕ) : ℕ :=
  if ptr + pktSize == g.base + g.bufSize then g.base else ptr + pktSize

/-- What `send_h2c_pkt_88xx` returns. -/
inductive Ret
  | success
  | spaceFull
  | sendFail
  deriving DecidableEq

/-- Where the driver stands in `send_h2c_pkt_88xx`: before the test of the first loop, after the
read of the write pointer in `get_h2c_buf_free_space_88xx`, and before an attempt to send. -/
inductive Pc (P : Type)
  | idle
  | space (pkt : P) (cnt : ℕ)
  | readR (pkt : P) (cnt hwWptr : ℕ)
  | sending (pkt : P) (cnt : ℕ)

/-- The driver, the two pointers and the memory of the ring, with the commands that were accepted
and those that the firmware has read. -/
structure State (P : Type) where
  bufFs : ℕ
  pc : Pc P
  ret : Ret
  wptr : ℕ
  rptr : ℕ
  mem : ℕ → P
  accepted : List P
  read : List P

variable {P : Type}

/-- What happens next: a call, one step of the driver in it, or a read of the firmware. A register
is read with `high` in the bits above the pointer, and `sent` is the platform's answer. -/
inductive Ev (P : Type)
  | call (pkt : P)
  | driver (high : ℕ) (sent : Bool)
  | firmware

/-- `HALMAC_REG_R32(...) & 0x3FFFF` of a pointer. -/
def regPtr (high ptr : ℕ) : ℕ := (2 ^ 18 * high + ptr) &&& 0x3FFFF

/-- The free space that `get_h2c_buf_free_space_88xx` computes. -/
def freeSpace (g : Ring) (hwWptr fwRptr : ℕ) : ℕ :=
  if hwWptr ≥ fwRptr then g.bufSize - (hwWptr - fwRptr) else fwRptr - hwWptr

/-- One step of the driver in `send_h2c_pkt_88xx`. -/
def driver (g : Ring) (s : State P) (high : ℕ) (sent : Bool) : State P :=
  match s.pc with
  | .idle => s
  | .space pkt cnt =>
    if s.bufFs ≤ pktSize then { s with pc := .readR pkt cnt (regPtr high s.wptr) }
    else { s with pc := .sending pkt 100 }
  | .readR pkt cnt hwWptr =>
    let s := { s with bufFs := freeSpace g hwWptr (regPtr high s.rptr) }
    if cnt - 1 == 0 then { s with pc := .idle, ret := .spaceFull }
    else { s with pc := .space pkt (cnt - 1) }
  | .sending pkt cnt =>
    if sent then
      { s with
        mem := Function.update s.mem s.wptr pkt
        wptr := g.advance s.wptr
        accepted := s.accepted ++ [pkt]
        bufFs := s.bufFs - pktSize
        pc := .idle
        ret := .success }
    else if cnt - 1 == 0 then { s with pc := .idle, ret := .sendFail }
    else { s with pc := .sending pkt (cnt - 1) }

/-- The firmware takes the next command, if the pointers differ. -/
def firmware (g : Ring) (s : State P) : State P :=
  if s.rptr == s.wptr then s
  else { s with read := s.read ++ [s.mem s.rptr], rptr := g.advance s.rptr }

def step (g : Ring) (s : State P) : Ev P → State P
  | .call pkt =>
    match s.pc with
    | .idle => { s with pc := .space pkt 100 }
    | _ => s
  | .driver high sent => driver g s high sent
  | .firmware => firmware g s

/-- An empty ring with its pointers at slot `k`. -/
def start (g : Ring) (k : ℕ) (mem : ℕ → P) : State P where
  bufFs := g.bufSize
  pc := .idle
  ret := .success
  wptr := g.addr k
  rptr := g.addr k
  mem := mem
  accepted := []
  read := []

/-- The commands in the ring. -/
def State.pending (s : State P) : ℕ := s.accepted.length - s.read.length

/-- The bytes of the ring that are free. -/
def State.free (g : Ring) (s : State P) : ℕ := g.bufSize - pktSize * s.pending

section Pointers

variable {g : Ring} {c : ℕ}

theorem Ring.addr_injective (g : Ring) : Function.Injective g.addr := by
  intro i j h
  simp only [Ring.addr, pktSize] at h
  omega

theorem Ring.addr_lt (g : Ring) (c : ℕ) : g.addr (c % g.slots) < 2 ^ 18 := by
  have htwo := g.two_le
  have hfits := g.fits
  have hlt := Nat.mod_lt c (show 0 < g.slots by omega)
  simp only [Ring.addr, pktSize] at *
  omega

/-- The mask leaves the pointer. -/
theorem regPtr_eq (high : ℕ) {ptr : ℕ} (h : ptr < 2 ^ 18) : regPtr high ptr = ptr := by
  have hmask : (0x3FFFF : ℕ) = 2 ^ 18 - 1 := rfl
  rw [regPtr, hmask, Nat.and_two_pow_sub_one_eq_mod, Nat.mul_add_mod, Nat.mod_eq_of_lt h]

theorem Ring.advance_addr (g : Ring) (c : ℕ) :
    g.advance (g.addr (c % g.slots)) = g.addr ((c + 1) % g.slots) := by
  have htwo := g.two_le
  have hlt := Nat.mod_lt c (show 0 < g.slots by omega)
  have hsucc : (c + 1) % g.slots = if c % g.slots + 1 = g.slots then 0 else c % g.slots + 1 := by
    rw [Nat.add_mod, Nat.mod_eq_of_lt (show 1 < g.slots by omega)]
    split
    · rename_i heq
      rw [heq, Nat.mod_self]
    · exact Nat.mod_eq_of_lt (by omega)
  rw [hsucc]
  unfold Ring.advance
  split
  · rename_i heq
    simp only [Ring.addr, Ring.bufSize, pktSize, beq_iff_eq] at heq
    rw [if_pos (by omega)]
    simp [Ring.addr]
  · rename_i hne
    simp only [Ring.addr, Ring.bufSize, pktSize, beq_iff_eq] at hne
    rw [if_neg (by omega)]
    simp only [Ring.addr, pktSize]
    omega

/-- The formula for the free space, for ends less than a turn apart. -/
theorem freeSpace_eq (g : Ring) {r w : ℕ} (hle : r ≤ w) (hlt : w < r + g.slots) :
    freeSpace g (g.addr (w % g.slots)) (g.addr (r % g.slots)) =
      g.bufSize - pktSize * (w - r) := by
  have htwo := g.two_le
  have hr := Nat.mod_lt r (show 0 < g.slots by omega)
  have hw := Nat.mod_lt w (show 0 < g.slots by omega)
  have hmod : w % g.slots = if r % g.slots + (w - r) < g.slots then r % g.slots + (w - r)
      else r % g.slots + (w - r) - g.slots := by
    have hsum : w % g.slots = (r % g.slots + (w - r)) % g.slots := by
      rw [Nat.mod_add_mod, Nat.add_sub_cancel' hle]
    rw [hsum]
    split
    · exact Nat.mod_eq_of_lt (by assumption)
    · rw [Nat.mod_eq_sub_mod (by omega), Nat.mod_eq_of_lt (by omega)]
  have haddr : ∀ i, g.addr i = g.base + 32 * i := fun _ => rfl
  have hsize : g.bufSize = 32 * g.slots := rfl
  have hpkt : pktSize = 32 := rfl
  rw [haddr, haddr, freeSpace, hsize, hpkt]
  split at hmod
  · rw [if_pos (by omega)]
    omega
  · rw [if_neg (by omega)]
    omega

end Pointers

/-- The ring holds what was accepted and not read, after commands `pre` of an earlier time, and the
driver does not take it for emptier than it is. -/
structure Inv (g : Ring) (pre : List P) (s : State P) : Prop where
  holds : Holds g.slots (fun i => s.mem (g.addr i)) (pre ++ s.accepted)
    (pre.length + s.read.length)
  wptr : s.wptr = g.addr ((pre.length + s.accepted.length) % g.slots)
  rptr : s.rptr = g.addr ((pre.length + s.read.length) % g.slots)
  order : s.read <+: s.accepted
  space : s.bufFs + pktSize * s.pending ≤ g.bufSize
  reading : ∀ pkt cnt w, s.pc = .readR pkt cnt w → w = s.wptr
  sending : ∀ pkt cnt, s.pc = .sending pkt cnt → pktSize < s.bufFs

section Step

variable {g : Ring} {pre : List P} {s : State P}

theorem Inv.read_le (h : Inv g pre s) : s.read.length ≤ s.accepted.length := h.order.length_le

theorem Inv.lt_slots (h : Inv g pre s) : s.accepted.length < s.read.length + g.slots := by
  have hlt := h.holds.lt
  simp only [List.length_append] at hlt
  omega

theorem Inv.wptr_eq_rptr (h : Inv g pre s) : s.wptr = s.rptr ↔ s.pending = 0 := by
  have hle := h.read_le
  have hlt := h.lt_slots
  rw [h.wptr, h.rptr, (g.addr_injective).eq_iff, mod_eq_iff (by omega) (by omega), State.pending]
  omega

theorem inv_start (g : Ring) (k : Fin g.slots) (mem : ℕ → P) :
    Inv g (List.replicate k (mem 0)) (start g k mem) := by
  have hk := k.isLt
  refine ⟨⟨?_, ?_, ?_⟩, ?_, ?_, List.prefix_refl _, ?_, ?_, ?_⟩
  · simp [start]
  · simp only [start, List.append_nil, List.length_replicate, List.length_nil, add_zero]
    omega
  · intro j hj a ha
    have hlt := (List.getElem?_eq_some_iff.1 ha).1
    simp [start] at hj hlt
    omega
  · simp [start, Nat.mod_eq_of_lt hk]
  · simp [start, Nat.mod_eq_of_lt hk]
  · simp [start, State.pending]
  · intro pkt cnt w h
    cases h
  · intro pkt cnt h
    cases h

/-- The invariant does not depend on where the driver stands, but for what it has just learnt. -/
theorem Inv.goto (h : Inv g pre s) (pc : Pc P) (ret : Ret)
    (hreading : ∀ pkt cnt w, pc = .readR pkt cnt w → w = s.wptr)
    (hsending : ∀ pkt cnt, pc = .sending pkt cnt → pktSize < s.bufFs) :
    Inv g pre { s with pc := pc, ret := ret } :=
  ⟨h.holds, h.wptr, h.rptr, h.order, h.space, hreading, hsending⟩

/-- A refresh sets the cached space to what is free. -/
theorem Inv.refresh (h : Inv g pre s) (high : ℕ) :
    freeSpace g s.wptr (regPtr high s.rptr) + pktSize * s.pending = g.bufSize := by
  have hle := h.read_le
  have hlt := h.lt_slots
  have hptr : regPtr high s.rptr = s.rptr := regPtr_eq high (h.rptr ▸ g.addr_lt _)
  rw [hptr, h.wptr, h.rptr, freeSpace_eq g (by omega) (by omega)]
  simp only [State.pending, Ring.bufSize, pktSize]
  omega

/-- A sent command finds a free slot that is not the last one. -/
theorem Inv.send (h : Inv g pre s) (pkt : P) (ret : Ret) (hroom : pktSize < s.bufFs) :
    Inv g pre
      { s with
        mem := Function.update s.mem s.wptr pkt
        wptr := g.advance s.wptr
        accepted := s.accepted ++ [pkt]
        bufFs := s.bufFs - pktSize
        pc := .idle
        ret := ret } := by
  have hle := h.read_le
  have hspace := h.space
  simp only [State.pending, Ring.bufSize, pktSize] at hspace hroom
  have hlen : (pre ++ s.accepted).length = pre.length + s.accepted.length := List.length_append
  have hpush := h.holds.push (by rw [hlen]; omega) pkt
  refine ⟨?_, ?_, h.rptr, h.order.trans (List.prefix_append _ _), ?_, ?_, ?_⟩
  · have hcells : (fun i => Function.update s.mem s.wptr pkt (g.addr i)) =
        Function.update (fun i => s.mem (g.addr i)) ((pre ++ s.accepted).length % g.slots) pkt := by
      rw [hlen, h.wptr]
      exact Function.update_comp_eq_of_injective s.mem g.addr_injective _ pkt
    rw [hcells, ← List.append_assoc]
    exact hpush
  · rw [h.wptr, g.advance_addr, List.length_append, List.length_singleton, Nat.add_assoc]
  · simp only [State.pending, List.length_append, List.length_singleton, Ring.bufSize, pktSize]
    omega
  · intro _ _ _ hpc
    cases hpc
  · intro _ _ hpc
    cases hpc

theorem Inv.driver (h : Inv g pre s) (high : ℕ) (sent : Bool) :
    Inv g pre (driver g s high sent) := by
  unfold H2cRing.driver
  split
  · exact h
  · rename_i pkt cnt hpc
    split
    · refine h.goto _ s.ret (fun _ _ w hw => ?_) (by simp)
      obtain ⟨-, -, rfl⟩ : pkt = _ ∧ cnt = _ ∧ _ = w := by simpa using hw
      exact regPtr_eq high (h.wptr ▸ g.addr_lt _)
    · rename_i hroom
      exact h.goto _ s.ret (by simp) fun _ _ _ => by omega
  · rename_i pkt cnt w hpc
    obtain rfl := h.reading pkt cnt w hpc
    have hfresh := h.refresh high
    have hinv : ∀ pc ret, (∀ pkt cnt w, pc ≠ Pc.readR pkt cnt w) →
        (∀ pkt cnt, pc ≠ Pc.sending pkt cnt) → Inv g pre
          { s with bufFs := freeSpace g s.wptr (regPtr high s.rptr), pc := pc, ret := ret } :=
      fun pc ret hr hs => ⟨h.holds, h.wptr, h.rptr, h.order, hfresh.le,
        fun _ _ _ he => absurd he (hr _ _ _), fun _ _ he => absurd he (hs _ _)⟩
    dsimp only
    split
    · exact hinv _ _ (by simp) (by simp)
    · exact hinv _ s.ret (by simp) (by simp)
  · rename_i pkt cnt hpc
    have hroom := h.sending pkt cnt hpc
    split
    · exact h.send pkt .success hroom
    · split
      · exact h.goto _ .sendFail (by simp) (by simp)
      · exact h.goto _ s.ret (by simp) fun _ _ _ => hroom

theorem firmware_of_pending (h : Inv g pre s) (hp : s.pending ≠ 0) :
    firmware g s = { s with read := s.read ++ [s.mem s.rptr], rptr := g.advance s.rptr } := by
  have hne : s.rptr ≠ s.wptr := fun heq => hp (h.wptr_eq_rptr.1 heq.symm)
  simp [firmware, hne]

/-- The firmware reads the oldest command it has not read. -/
theorem Inv.firmware (h : Inv g pre s) : Inv g pre (firmware g s) := by
  by_cases hp : s.pending = 0
  · have heq := h.wptr_eq_rptr.2 hp
    simpa [H2cRing.firmware, heq] using h
  · rw [firmware_of_pending h hp]
    have hle := h.read_le
    have hspace := h.space
    simp only [State.pending, pktSize, Ring.bufSize] at hp hspace
    obtain ⟨hnext, hholds⟩ := h.holds.pop (by simp only [List.length_append]; omega)
    rw [List.getElem?_append_right (by omega), Nat.add_sub_cancel_left] at hnext
    have hread : s.mem s.rptr = s.mem (g.addr ((pre.length + s.read.length) % g.slots)) := by
      rw [h.rptr]
    refine ⟨?_, h.wptr, ?_, ?_, ?_, h.reading, h.sending⟩
    · simpa [Nat.add_assoc] using hholds
    · rw [h.rptr, g.advance_addr, List.length_append, List.length_singleton, Nat.add_assoc]
    · obtain ⟨rest, hrest⟩ := h.order
      rw [hread]
      rw [← hrest, List.getElem?_append_right le_rfl, Nat.sub_self] at hnext
      cases rest with
      | nil => simp at hnext
      | cons x rest =>
        obtain rfl : x = _ := by simpa using hnext
        exact ⟨rest, by simp [← hrest]⟩
    · simp only [State.pending, List.length_append, List.length_singleton, pktSize, Ring.bufSize]
      omega

theorem Inv.step (h : Inv g pre s) (ev : Ev P) : Inv g pre (step g s ev) := by
  cases ev with
  | call pkt =>
    simp only [H2cRing.step]
    split
    · exact h.goto _ s.ret (by simp) (by simp)
    · exact h
  | driver high sent => exact h.driver high sent
  | firmware => exact h.firmware

theorem Inv.run (h : Inv g pre s) (es : List (Ev P)) : Inv g pre (run (H2cRing.step g) s es) :=
  run_invariant (P := fun _ _ => True) (fun _ ev hi _ => hi.step ev) h
    (along_of_forall fun _ _ _ => trivial)

/-- Left to itself, the firmware reads every command that was accepted. -/
theorem Inv.drain (h : Inv g pre s) {n : ℕ} (hn : s.pending = n) :
    (Run.run (H2cRing.step g) s (List.replicate n .firmware)).read = s.accepted := by
  induction n generalizing s with
  | zero =>
    have hlen : s.accepted.length ≤ s.read.length := by
      simp only [State.pending] at hn
      omega
    exact h.order.eq_of_length_le hlen
  | succ n ih =>
    have hnext := firmware_of_pending h (by omega)
    rw [List.replicate_succ, run_cons, H2cRing.step, ih h.firmware]
    · rw [hnext]
    · rw [hnext]
      simp only [State.pending, List.length_append, List.length_singleton] at hn ⊢
      omega

end Step

/-- The ring after any interleaving of calls, steps of the driver and reads of the firmware. -/
def after (g : Ring) (k : Fin g.slots) (mem : ℕ → P) (es : List (Ev P)) : State P :=
  run (step g) (start g k mem) es

/-- The ring is never overrun, equal pointers mean an empty ring, and the commands are read once
each, in order. -/
theorem h2c_ring_safe (g : Ring) (k : Fin g.slots) (mem : ℕ → P) (es : List (Ev P)) :
    (after g k mem es).bufFs ≤ (after g k mem es).free g ∧
    pktSize * (after g k mem es).pending ≤ g.bufSize - pktSize ∧
    ((after g k mem es).wptr = (after g k mem es).rptr ↔ (after g k mem es).pending = 0) ∧
    (after g k mem es).read <+: (after g k mem es).accepted ∧
    (run (step g) (after g k mem es)
      (List.replicate (after g k mem es).pending .firmware)).read =
        (after g k mem es).accepted := by
  have h : Inv g _ (after g k mem es) := (inv_start g k mem).run es
  have hspace := h.space
  have hle := h.read_le
  have hlt := h.lt_slots
  refine ⟨?_, ?_, h.wptr_eq_rptr, h.order, h.drain rfl⟩
  · unfold State.free
    omega
  · simp only [State.pending, Ring.bufSize, pktSize]
    omega

end Rtl8821cu.H2cRing
