import Rtl8821cu.RecvPn

/-! Reassembly of fragments (`recvframe_defrag`, `recvframe_chk_defrag`) and the fragments a
station's queue can bring together over whole runs. -/
namespace Rtl8821cu.Recv
open Run

/-- A receive frame as the reassembly reads it. `id` names the frame in the pool, `buf` is its
buffer from `rx_data` on, `room` is `rx_end - rx_tail`. -/
structure FragFrame where
  id : ℕ
  seqNum : BitVec 12
  fragNum : BitVec 4
  mfrag : Bool
  priority : BitVec 4
  encrypt : SecurityType
  privacy : Bool
  raMcast : Bool
  keytrack : ℕ
  hdrlen : ℕ
  ivLen : ℕ
  icvLen : ℕ
  buf : ℕ → BitVec 8
  len : ℕ
  room : ℕ

namespace FragFrame

/-- The eight bytes behind the MAC header, little endian. -/
def ivHdr (f : FragFrame) : BitVec 64 :=
  let b := fun i => f.buf (f.hdrlen + i)
  (b 7 ++ b 6 ++ b 5 ++ b 4 ++ b 3 ++ b 2 ++ b 1 ++ b 0 : BitVec 64)

def pn (f : FragFrame) : BitVec 64 := ccmph2Pn f.ivHdr

/-- The ciphers whose packet numbers the reassembly compares. -/
def pnChecked (f : FragFrame) : Bool :=
  match f.encrypt with
  | .aes | .ccmp256 | .gcmp | .gcmp256 => true
  | _ => false

def recvframePull (f : FragFrame) (sz : ℕ) : FragFrame :=
  if f.len < sz then f else { f with buf := fun i => f.buf (sz + i), len := f.len - sz }

def recvframePullTail (f : FragFrame) (sz : ℕ) : FragFrame :=
  if f.len < sz then f else { f with len := f.len - sz, room := f.room + sz }

def recvframePut (f : FragFrame) (sz : ℕ) : FragFrame :=
  if f.room < sz then f else { f with len := f.len + sz, room := f.room - sz }

/-- `_rtw_memcpy` of the first `n` bytes of `src` to the tail. -/
def copyToTail (f : FragFrame) (src : ℕ → BitVec 8) (n : ℕ) : FragFrame :=
  { f with buf := fun i => if f.len ≤ i ∧ i < f.len + n then src (i - f.len) else f.buf i }

/-- The payload of `next` behind that of `f`, whose ICV is cut off. -/
def append (f next : FragFrame) : FragFrame :=
  let f := f.recvframePullTail f.icvLen
  let f := (f.copyToTail next.buf next.len).recvframePut next.len
  { f with icvLen := next.icvLen }

end FragFrame

/-- The loop of `recvframe_defrag` over the fragments behind the first; `none` when one of them
is refused. -/
def defragLoop (prframe : FragFrame) (curPn : BitVec 64) (curfragnum : ℕ) :
    List FragFrame → Option FragFrame
  | [] => some prframe
  | next :: rest =>
      if next.pnChecked ∧ next.pn ≠ curPn + 1 then none
      else if prframe.keytrack ≠ next.keytrack then none
      else if curfragnum ≠ next.fragNum.toNat then none
      else
        let pulled := next.recvframePull ((next.hdrlen + next.ivLen) % 256)
        if prframe.room < pulled.len then none
        else defragLoop (prframe.append pulled) (if next.pnChecked then next.pn else curPn)
          (curfragnum + 1) rest

/-- The queue is empty afterwards in every case. -/
def recvframeDefrag : List FragFrame → Option FragFrame
  | [] => none
  | prframe :: rest =>
      if prframe.fragNum ≠ 0 then none
      else defragLoop prframe (if prframe.pnChecked then prframe.pn else 0) 1 rest

/-- `mic` is the verdict on a TKIP frame's MIC; `none` is `_FAIL`. -/
def recvframeChkmic (mic : FragFrame → Bool) (f : FragFrame) : Option FragFrame :=
  if f.encrypt = .tkip then if mic f then some (f.recvframePullTail 8) else none else some f

/-- The frame returned, the station's queue, the frames returned to the free queue, in order,
and the fragments `recvframe_defrag` merged in this call. -/
structure ChkDefragOut where
  ret : Option FragFrame
  queue : List FragFrame
  freed : List FragFrame
  merged : List FragFrame

/-- The MIC check behind the reassembly. -/
def ChkDefragOut.chkmic (mic : FragFrame → Bool) (o : ChkDefragOut) : ChkDefragOut :=
  match o.ret with
  | none => o
  | some p =>
      if p.privacy then
        match recvframeChkmic mic p with
        | none => { o with ret := none, freed := o.freed ++ [p] }
        | some p => { o with ret := some p }
      else o

/-- `defragQ` is the queue found for the transmitter, if any, `keytrack` that station's key
track. -/
def recvframeChkDefrag (mic : FragFrame → Bool) (keytrack : ℕ) (defragQ : Option (List FragFrame))
    (f : FragFrame) : ChkDefragOut :=
  if f.mfrag = false ∧ f.fragNum = 0 then
    ChkDefragOut.chkmic mic ⟨some f, defragQ.getD [], [], []⟩
  else if f.raMcast then ⟨none, defragQ.getD [], [f], []⟩
  else
    match defragQ with
    | none => ⟨none, [], [f], []⟩
    | some q =>
        let f := { f with keytrack := keytrack }
        if f.mfrag then
          if f.fragNum = 0 then ⟨none, [f], q, []⟩ else ⟨none, q ++ [f], [], []⟩
        else
          match recvframeDefrag (q ++ [f]) with
          | none => ⟨none, [], q ++ [f], []⟩
          | some p => ChkDefragOut.chkmic mic ⟨some p, [], (q ++ [f]).tail, q ++ [f]⟩

/-- What reaches the reassembly of one station: a frame, with the station's key track and the
MIC verdicts at that time. -/
structure Arrival where
  frame : FragFrame
  keytrack : ℕ
  mic : FragFrame → Bool

def arrive (q : List FragFrame) (a : Arrival) : ChkDefragOut :=
  recvframeChkDefrag a.mic a.keytrack (some q) a.frame

def arriveStep (q : List FragFrame) (a : Arrival) : List FragFrame := (arrive q a).queue

/-- The fragments of one MSDU, all of them and in order. -/
structure OneMsdu (l : List FragFrame) : Prop where
  seq : ∀ a ∈ l, ∀ b ∈ l, a.seqNum = b.seqNum
  encrypt : ∀ a ∈ l, ∀ b ∈ l, a.encrypt = b.encrypt
  fragNum : l.map (fun f => f.fragNum.toNat) = List.range l.length
  mfrag : ∃ l' last, l = l' ++ [last] ∧ (∀ a ∈ l', a.mfrag = true) ∧ last.mfrag = false

/-- The queue's fragment numbers are `0, 1, …` without a gap. -/
def Consecutive (q : List FragFrame) : Prop :=
  q.map (fun f => f.fragNum.toNat) = List.range q.length

instance (q : List FragFrame) : Decidable (Consecutive q) := inferInstanceAs (Decidable (_ = _))

/-- A unicast fragment that continues the queue in number carries the sequence number and the
encryption of the fragment at its head. -/
def BelongsToHead (q : List FragFrame) (a : Arrival) : Prop :=
  a.frame.raMcast = false → a.frame.fragNum ≠ 0 → Consecutive q →
    a.frame.fragNum.toNat = q.length →
    ∀ h ∈ q.head?, a.frame.seqNum = h.seqNum ∧ a.frame.encrypt = h.encrypt

section Loop

/-- Accepted fragments are numbered without a gap. -/
theorem defragLoop_fragNum {p r : FragFrame} {pn : BitVec 64} {n : ℕ} {l : List FragFrame}
    (h : defragLoop p pn n l = some r) :
    l.map (fun f => f.fragNum.toNat) = List.range' n l.length := by
  induction l generalizing p pn n with
  | nil => rfl
  | cons next rest ih =>
    unfold defragLoop at h
    rw [ite_eq_iff] at h
    obtain ⟨-, h⟩ | ⟨-, h⟩ := h
    · exact absurd h (by simp)
    by_cases hk : p.keytrack ≠ next.keytrack
    · simp [hk] at h
    by_cases hn : n ≠ next.fragNum.toNat
    · simp [hk, hn] at h
    simp only [hk, hn, if_false] at h
    rw [ite_eq_iff] at h
    obtain ⟨-, h⟩ | ⟨-, h⟩ := h
    · exact absurd h (by simp)
    have hn : n = next.fragNum.toNat := not_not.mp hn
    simp [List.range'_succ, ih h, ← hn]

theorem recvframeDefrag_consecutive {l : List FragFrame} {r : FragFrame}
    (h : recvframeDefrag l = some r) : Consecutive l := by
  cases l with
  | nil => simp [recvframeDefrag] at h
  | cons p rest =>
    obtain ⟨hp, h⟩ : p.fragNum = 0 ∧ defragLoop p _ 1 rest = some r := by
      simpa [recvframeDefrag] using h
    unfold Consecutive
    rw [List.range_eq_range', List.length_cons, List.range'_succ, List.map_cons,
      defragLoop_fragNum h, hp]
    rfl

theorem Consecutive.of_append {q : List FragFrame} {f : FragFrame} (h : Consecutive (q ++ [f])) :
    Consecutive q ∧ f.fragNum.toNat = q.length := by
  unfold Consecutive at h
  rw [List.map_append, List.length_append, List.length_singleton, List.range_succ,
    List.map_singleton] at h
  obtain ⟨h1, h2⟩ := List.append_inj h (by simp)
  exact ⟨h1, by simpa using h2⟩

end Loop

section Step
variable {q : List FragFrame} {a : Arrival}

@[simp] theorem chkmic_queue (mic : FragFrame → Bool) (o : ChkDefragOut) :
    (o.chkmic mic).queue = o.queue := by
  unfold ChkDefragOut.chkmic
  split
  · rfl
  · split
    · split <;> rfl
    · rfl

@[simp] theorem chkmic_merged (mic : FragFrame → Bool) (o : ChkDefragOut) :
    (o.chkmic mic).merged = o.merged := by
  unfold ChkDefragOut.chkmic
  split
  · rfl
  · split
    · split <;> rfl
    · rfl

/-- The frame as it stands in the queue. -/
def Arrival.tracked (a : Arrival) : FragFrame := { a.frame with keytrack := a.keytrack }

/-- What one arrival does to the queue and to the merged fragments. -/
theorem arrive_cases (q : List FragFrame) (a : Arrival) :
    ((arrive q a).merged = [] ∧ (arrive q a).queue = q) ∨
    (a.frame.raMcast = false ∧ a.frame.mfrag = true ∧ a.frame.fragNum = 0 ∧
      (arrive q a).merged = [] ∧ (arrive q a).queue = [a.tracked]) ∨
    (a.frame.raMcast = false ∧ a.frame.mfrag = true ∧ a.frame.fragNum ≠ 0 ∧
      (arrive q a).merged = [] ∧ (arrive q a).queue = q ++ [a.tracked]) ∨
    (a.frame.raMcast = false ∧ a.frame.mfrag = false ∧ a.frame.fragNum ≠ 0 ∧
      (arrive q a).queue = [] ∧
      ((arrive q a).merged = [] ∨ ((arrive q a).merged = q ++ [a.tracked] ∧
        ∃ r, recvframeDefrag (q ++ [a.tracked]) = some r))) := by
  unfold arrive recvframeChkDefrag
  dsimp only
  split_ifs with h1 h2 h3 h4
  · left
    simp
  · left
    simp
  · right; left
    exact ⟨by simpa using h2, h3, h4, rfl, rfl⟩
  · right; right; left
    exact ⟨by simpa using h2, h3, h4, rfl, rfl⟩
  · right; right; right
    have hm : a.frame.mfrag = false := by simpa using h3
    have hn : a.frame.fragNum ≠ 0 := fun h => h1 ⟨hm, h⟩
    refine ⟨by simpa using h2, hm, hn, ?_⟩
    split
    · exact ⟨rfl, Or.inl rfl⟩
    · rename_i p hp
      exact ⟨by simp, Or.inr ⟨by simp [Arrival.tracked], p, hp⟩⟩

/-- Every queued fragment has more-fragments set; a queue numbered without a gap holds one
sequence number and one encryption. -/
structure QueueInv (q : List FragFrame) : Prop where
  mfrag : ∀ f ∈ q, f.mfrag = true
  uniform : Consecutive q → ∀ h ∈ q.head?, ∀ f ∈ q, f.seqNum = h.seqNum ∧ f.encrypt = h.encrypt

theorem queueInv_nil : QueueInv [] := ⟨by simp, by simp⟩

theorem queueInv_singleton {f : FragFrame} (h : f.mfrag = true) : QueueInv [f] :=
  ⟨by simpa using h, by simp⟩

/-- A fragment that belongs to the head keeps the queue uniform. -/
theorem QueueInv.append_uniform (h : QueueInv q) (hp : BelongsToHead q a)
    (hm : a.frame.raMcast = false) (hn : a.frame.fragNum ≠ 0)
    (hc : Consecutive (q ++ [a.tracked])) :
    ∀ b ∈ (q ++ [a.tracked]).head?, ∀ f ∈ q ++ [a.tracked],
      f.seqNum = b.seqNum ∧ f.encrypt = b.encrypt := by
  obtain ⟨hq, hlen⟩ := hc.of_append
  cases q with
  | nil => simp
  | cons p rest =>
    have hhead := hp hm hn hq hlen p (by simp)
    intro b hb f hf
    obtain rfl : p = b := by simpa using hb
    rcases List.mem_append.mp hf with hf | hf
    · exact h.uniform hq p (by simp) f hf
    · obtain rfl : f = a.tracked := by simpa using hf
      exact hhead

theorem QueueInv.step (h : QueueInv q) (hp : BelongsToHead q a) :
    QueueInv (arriveStep q a) := by
  unfold arriveStep
  rcases arrive_cases q a with ⟨-, e⟩ | ⟨-, hm, -, -, e⟩ | ⟨hr, hm, hn, -, e⟩ | ⟨-, -, -, e, -⟩
  · rwa [e]
  · rw [e]
    exact queueInv_singleton hm
  · rw [e]
    refine ⟨?_, h.append_uniform hp hr hn⟩
    intro f hf
    rcases List.mem_append.mp hf with hf | hf
    · exact h.mfrag f hf
    · obtain rfl : f = a.tracked := by simpa using hf
      exact hm
  · rw [e]
    exact queueInv_nil

theorem QueueInv.oneMsdu (h : QueueInv q) (hp : BelongsToHead q a)
    (hmerged : (arrive q a).merged ≠ []) : OneMsdu (arrive q a).merged := by
  rcases arrive_cases q a with ⟨e, -⟩ | ⟨-, -, -, e, -⟩ | ⟨-, -, -, e, -⟩ | ⟨hr, hm, hn, -, e⟩
  · exact absurd e hmerged
  · exact absurd e hmerged
  · exact absurd e hmerged
  · rcases e with e | ⟨e, r, hr'⟩
    · exact absurd e hmerged
    have hc := recvframeDefrag_consecutive hr'
    have hu := h.append_uniform hp hr hn hc
    rw [e]
    obtain ⟨b, hb⟩ : ∃ b, (q ++ [a.tracked]).head? = some b := by
      cases q <;> simp
    refine ⟨?_, ?_, hc, q, a.tracked, rfl, h.mfrag, hm⟩
    · intro x hx y hy
      rw [(hu b hb x hx).1, (hu b hb y hy).1]
    · intro x hx y hy
      rw [(hu b hb x hx).2, (hu b hb y hy).2]

end Step

/-- What `arrive` merges, if anything, is one MSDU. -/
def MergesOneMsdu (q : List FragFrame) (a : Arrival) : Prop :=
  (arrive q a).merged ≠ [] → OneMsdu (arrive q a).merged

/-- In a run whose continuing fragments all belong to the head of the queue they meet, only
fragments of one MSDU are merged. -/
theorem defrag_merges_one_msdu (arrivals : List Arrival)
    (h : Along arriveStep BelongsToHead [] arrivals) :
    Along arriveStep MergesOneMsdu [] arrivals :=
  along_mono (fun _ _ hi hp => hi.step hp) (fun _ _ hi hp => hi.oneMsdu hp) queueInv_nil h

/-- A fragment in the clear, 24 bytes of header and one byte of payload. -/
def clearFragment (id : ℕ) (seqNum : BitVec 12) (fragNum : BitVec 4) (mfrag : Bool) : Arrival where
  frame := {
    id := id, seqNum := seqNum, fragNum := fragNum, mfrag := mfrag, priority := 0
    encrypt := .noPrivacy, privacy := false, raMcast := false, keytrack := 0
    hdrlen := 24, ivLen := 0, icvLen := 0, buf := fun _ => 0, len := 25, room := 1500 }
  keytrack := 0
  mic := fun _ => true

theorem defrag_merges_one_msdu_three :
    Along arriveStep MergesOneMsdu []
      [clearFragment 0 7 0 true, clearFragment 1 7 1 true, clearFragment 2 7 2 false] := by
  refine defrag_merges_one_msdu _ ⟨?_, ?_, ?_, trivial⟩
  · intro _ hn
    exact absurd rfl hn
  · intro _ _ _ _ b hb
    obtain rfl : (clearFragment 0 7 0 true).tracked = b := Option.some.inj hb
    exact ⟨rfl, rfl⟩
  · intro _ _ _ _ b hb
    obtain rfl : (clearFragment 0 7 0 true).tracked = b := Option.some.inj hb
    exact ⟨rfl, rfl⟩

/-- The first fragment of one MSDU and the last one of another are merged. -/
theorem defrag_mixes_two_msdus :
    ¬ ∀ arrivals : List Arrival, Along arriveStep MergesOneMsdu [] arrivals := by
  intro h
  have hlast := (h [clearFragment 0 1 0 true, clearFragment 1 2 1 false]).2.1
  have hmerged : (arrive (arriveStep [] (clearFragment 0 1 0 true))
      (clearFragment 1 2 1 false)).merged =
      [(clearFragment 0 1 0 true).tracked, (clearFragment 1 2 1 false).tracked] := rfl
  unfold MergesOneMsdu at hlast
  rw [hmerged] at hlast
  have hseq := (hlast (by simp)).seq (clearFragment 0 1 0 true).tracked (by simp)
    (clearFragment 1 2 1 false).tracked (by simp)
  exact absurd hseq (by decide)

end Rtl8821cu.Recv
