import Rtl8821cu.RecvDefrag

/-! What `recvframe_defrag` returns: the contents of the reassembled frame, and where the fragments
go. -/
namespace Rtl8821cu.Recv

namespace FragFrame

/-- The bytes from `rx_data` to `rx_tail`. -/
def bytes (f : FragFrame) : List (BitVec 8) := (List.range f.len).map f.buf

/-- The length of the MAC header and the IV. -/
def hdrIv (f : FragFrame) : ℕ := f.hdrlen + f.ivLen

def head (f : FragFrame) : List (BitVec 8) := f.bytes.take f.hdrIv

def body (f : FragFrame) : List (BitVec 8) := (f.bytes.drop f.hdrIv).take (f.len - f.hdrIv - f.icvLen)

def icv (f : FragFrame) : List (BitVec 8) := f.bytes.drop (f.len - f.icvLen)

/-- The fragment is at least as long as its header, IV and ICV. -/
def Sized (f : FragFrame) : Prop := f.hdrIv + f.icvLen ≤ f.len

instance (f : FragFrame) : Decidable f.Sized := inferInstanceAs (Decidable (_ ≤ _))

@[simp] theorem length_bytes (f : FragFrame) : f.bytes.length = f.len := by simp [bytes]

theorem length_icv {f : FragFrame} (h : f.Sized) : f.icv.length = f.icvLen := by
  unfold Sized at h
  rw [icv, List.length_drop, length_bytes]
  omega

/-- The payload of a fragment is its body and its ICV. -/
theorem drop_bytes {f : FragFrame} (h : f.Sized) : f.bytes.drop f.hdrIv = f.body ++ f.icv := by
  unfold Sized at h
  have hicv : f.icv = (f.bytes.drop f.hdrIv).drop (f.len - f.hdrIv - f.icvLen) := by
    rw [icv, List.drop_drop]
    congr 1
    omega
  rw [hicv, body, List.take_append_drop]

theorem bytes_split {f : FragFrame} (h : f.Sized) : f.bytes = f.head ++ f.body ++ f.icv := by
  rw [List.append_assoc, ← drop_bytes h, head, List.take_append_drop]

/-- How many bytes of a fragment the loop appends. -/
def appended (f : FragFrame) : ℕ := if f.len < f.hdrIv then f.len else f.len - f.hdrIv

theorem recvframePull_len (f : FragFrame) : (f.recvframePull f.hdrIv).len = f.appended := by
  unfold recvframePull appended
  split_ifs <;> rfl

theorem bytes_recvframePull {f : FragFrame} (h : f.Sized) :
    (f.recvframePull f.hdrIv).bytes = f.body ++ f.icv := by
  unfold Sized at h
  rw [← drop_bytes h, recvframePull, if_neg (by omega), bytes, bytes]
  refine List.ext_getElem (by simp) fun i _ _ => ?_
  simp

/-- The lengths of the first frame after a fragment of `n` bytes is appended: its length, its room
and the ICV to cut off before the next one. -/
theorem append_lens {f next : FragFrame} (h : next.len ≤ f.room) :
    (f.append next).len = (if f.len < f.icvLen then f.len else f.len - f.icvLen) + next.len ∧
      (f.append next).room = (if f.len < f.icvLen then f.room else f.room + f.icvLen) - next.len ∧
      (f.append next).icvLen = next.icvLen ∧ (f.append next).keytrack = f.keytrack ∧
      (f.append next).id = f.id := by
  unfold append recvframePullTail recvframePut copyToTail
  by_cases hicv : f.len < f.icvLen
  · have hroom : ¬ f.room < next.len := by omega
    simp [hicv, hroom]
  · have hroom : ¬ f.room + f.icvLen < next.len := by omega
    simp [hicv, hroom]

/-- The ICV of the first frame makes way for the payload of the next fragment. -/
theorem bytes_append {f next : FragFrame} (h : next.len ≤ f.room) {A I : List (BitVec 8)}
    (hb : f.bytes = A ++ I) (hI : I.length = f.icvLen) :
    (f.append next).bytes = A ++ next.bytes := by
  have hlen : f.len = A.length + f.icvLen := by
    rw [← length_bytes, hb, List.length_append, hI]
  obtain ⟨hl, -⟩ := append_lens h
  rw [if_neg (by omega)] at hl
  have hl' : (f.append next).len = A.length + next.len := by omega
  have hbuf : ∀ i, (f.append next).buf i =
      if A.length ≤ i ∧ i < A.length + next.len then next.buf (i - A.length) else f.buf i := by
    intro i
    have hA : f.len - f.icvLen = A.length := by omega
    unfold append recvframePullTail recvframePut copyToTail
    simp only [if_neg (show ¬ f.len < f.icvLen by omega)]
    have hroom : ¬ f.room + f.icvLen < next.len := by omega
    simp [hroom, hA]
  refine List.ext_getElem (by simp [hl']) fun i hi hi' => ?_
  have hA : ∀ j (hj : j < A.length), f.buf j = A[j] := by
    intro j hj
    have : f.bytes[j]? = (A ++ I)[j]? := by rw [hb]
    rw [List.getElem?_append_left hj, bytes, List.getElem?_map,
      List.getElem?_range (by omega), Option.map_some, List.getElem?_eq_getElem hj] at this
    exact Option.some.inj this
  by_cases hiA : i < A.length
  · rw [List.getElem_append_left hiA, ← hA i hiA]
    simp [bytes, hbuf, show ¬ A.length ≤ i by omega]
  · rw [List.getElem_append_right (by omega)]
    have hin : A.length ≤ i ∧ i < A.length + next.len := by
      simp only [List.length_append, length_bytes] at hi'
      omega
    simp [bytes, hbuf, hin]

end FragFrame

/-- The packet numbers of the fragments behind the first follow each other, for the ciphers that
have one. -/
def PnChain : BitVec 64 → List FragFrame → Prop
  | _, [] => True
  | cur, f :: rest =>
    (f.pnChecked = true → f.pn = cur + 1) ∧ PnChain (if f.pnChecked then f.pn else cur) rest

/-- The room checks of the loop, on the lengths alone: `len`, `room` and `icv` are those of the
first frame before each fragment is appended. -/
def RoomChecks : ℕ → ℕ → ℕ → List FragFrame → Prop
  | _, _, _, [] => True
  | len, room, icv, f :: rest =>
    f.appended ≤ room ∧
      RoomChecks ((if len < icv then len else len - icv) + f.appended)
        ((if len < icv then room else room + icv) - f.appended) f.icvLen rest

/-- What the loop asks of the fragments behind the first. -/
structure Passes (p : FragFrame) (cur : BitVec 64) (n : ℕ) (l : List FragFrame) : Prop where
  fragNum : l.map (fun f => f.fragNum.toNat) = List.range' n l.length
  pn : PnChain cur l
  keytrack : ∀ f ∈ l, f.keytrack = p.keytrack
  room : RoomChecks p.len p.room p.icvLen l

theorem roomChecks_append {p f : FragFrame} {l : List FragFrame} (h : f.appended ≤ p.room) :
    RoomChecks (p.append (f.recvframePull f.hdrIv)).len (p.append (f.recvframePull f.hdrIv)).room
        (p.append (f.recvframePull f.hdrIv)).icvLen l ↔
      RoomChecks ((if p.len < p.icvLen then p.len else p.len - p.icvLen) + f.appended)
        ((if p.len < p.icvLen then p.room else p.room + p.icvLen) - f.appended) f.icvLen l := by
  have hpull : (f.recvframePull f.hdrIv).icvLen = f.icvLen := by
    unfold FragFrame.recvframePull
    split_ifs <;> rfl
  have hle : (f.recvframePull f.hdrIv).len ≤ p.room := by rwa [f.recvframePull_len]
  obtain ⟨hlen, hroom, hicv, -⟩ := FragFrame.append_lens hle
  rw [hlen, hroom, hicv, hpull, f.recvframePull_len]

theorem keytrack_append {p f : FragFrame} (h : f.appended ≤ p.room) :
    (p.append (f.recvframePull f.hdrIv)).keytrack = p.keytrack := by
  have hle : (f.recvframePull f.hdrIv).len ≤ p.room := by rwa [f.recvframePull_len]
  exact (FragFrame.append_lens hle).2.2.2.1

theorem passes_cons {p f : FragFrame} {cur : BitVec 64} {n : ℕ} {l : List FragFrame} :
    Passes p cur n (f :: l) ↔
      (f.pnChecked = true → f.pn = cur + 1) ∧ p.keytrack = f.keytrack ∧ n = f.fragNum.toNat ∧
        f.appended ≤ p.room ∧
        Passes (p.append (f.recvframePull f.hdrIv)) (if f.pnChecked then f.pn else cur) (n + 1) l := by
  constructor
  · rintro ⟨hn, ⟨hpn, hchain⟩, hkey, hroom, hrest⟩
    rw [List.map_cons, List.length_cons, List.range'_succ, List.cons.injEq] at hn
    refine ⟨hpn, (hkey f (by simp)).symm, hn.1.symm, hroom, hn.2, hchain, fun g hg => ?_, ?_⟩
    · rw [keytrack_append hroom]
      exact hkey g (by simp [hg])
    · exact (roomChecks_append hroom).mpr hrest
  · rintro ⟨hpn, hkt, hn, hroom, hrest⟩
    refine ⟨?_, ⟨hpn, hrest.pn⟩, fun g hg => ?_, hroom, (roomChecks_append hroom).mp hrest.room⟩
    · rw [List.map_cons, List.length_cons, List.range'_succ, hrest.fragNum, ← hn]
    · rcases List.mem_cons.mp hg with rfl | hg
      · exact hkt.symm
      · rw [← keytrack_append hroom]
        exact hrest.keytrack g hg

/-- One turn of the loop. -/
theorem defragLoop_cons (p f : FragFrame) (cur : BitVec 64) (n : ℕ) (l : List FragFrame)
    (h256 : f.hdrIv < 256) :
    defragLoop p cur n (f :: l) =
      if (f.pnChecked = true → f.pn = cur + 1) ∧ p.keytrack = f.keytrack ∧ n = f.fragNum.toNat ∧
        f.appended ≤ p.room then
        defragLoop (p.append (f.recvframePull f.hdrIv)) (if f.pnChecked then f.pn else cur) (n + 1) l
      else none := by
  have hoff : (f.hdrlen + f.ivLen) % 256 = f.hdrIv := Nat.mod_eq_of_lt h256
  rw [defragLoop]
  simp only [hoff, f.recvframePull_len]
  by_cases hpn : f.pnChecked = true ∧ f.pn ≠ cur + 1
  · rw [if_pos hpn, if_neg fun h => hpn.2 (h.1 hpn.1)]
  have hpn' : f.pnChecked = true → f.pn = cur + 1 := by
    intro hc
    by_contra hne
    exact hpn ⟨hc, hne⟩
  rw [if_neg hpn]
  by_cases hkt : p.keytrack = f.keytrack
  · by_cases hn : n = f.fragNum.toNat
    · by_cases hroom : p.room < f.appended
      · simp [hkt, hn, hroom]
      · have hall : (f.pnChecked = true → f.pn = cur + 1) ∧ p.keytrack = f.keytrack ∧
            n = f.fragNum.toNat ∧ f.appended ≤ p.room := ⟨hpn', hkt, hn, not_lt.mp hroom⟩
        rw [if_neg (not_not.mpr hkt), if_neg (not_not.mpr hn), if_neg hroom, if_pos hall]
    · simp [hkt, hn]
  · simp [hkt]

/-- The loop returns a frame exactly if every fragment passes its checks. -/
theorem defragLoop_isSome {p : FragFrame} {cur : BitVec 64} {n : ℕ} {l : List FragFrame}
    (h256 : ∀ f ∈ l, f.hdrIv < 256) : (defragLoop p cur n l).isSome ↔ Passes p cur n l := by
  induction l generalizing p cur n with
  | nil => exact iff_of_true rfl ⟨rfl, trivial, by simp, trivial⟩
  | cons f l ih =>
    rw [defragLoop_cons p f cur n l (h256 f (by simp)), passes_cons]
    by_cases hchecks : (f.pnChecked = true → f.pn = cur + 1) ∧ p.keytrack = f.keytrack ∧
        n = f.fragNum.toNat ∧ f.appended ≤ p.room
    · rw [if_pos hchecks, ih fun g hg => h256 g (by simp [hg])]
      exact ⟨fun h => ⟨hchecks.1, hchecks.2.1, hchecks.2.2.1, hchecks.2.2.2, h⟩,
        fun h => h.2.2.2.2⟩
    · rw [if_neg hchecks]
      refine iff_of_false (by simp) fun h => ?_
      exact hchecks ⟨h.1, h.2.1, h.2.2.1, h.2.2.2.1⟩

/-- What the loop makes of fragments that are long enough. -/
theorem defragLoop_bytes {p r : FragFrame} {cur : BitVec 64} {n : ℕ} {l : List FragFrame}
    (hsized : ∀ f ∈ l, f.Sized ∧ f.hdrIv < 256) {A I : List (BitVec 8)} (hb : p.bytes = A ++ I)
    (hI : I.length = p.icvLen) (h : defragLoop p cur n l = some r) :
    r.id = p.id ∧
      r.bytes = A ++ (l.map FragFrame.body).flatten ++ (l.getLast?.map FragFrame.icv).getD I := by
  induction l generalizing p cur n A I with
  | nil =>
    obtain rfl : p = r := by simpa [defragLoop] using h
    simpa using hb
  | cons f l ih =>
    obtain ⟨hf, h256⟩ := hsized f (by simp)
    rw [defragLoop_cons p f cur n l h256] at h
    by_cases hchecks : (f.pnChecked = true → f.pn = cur + 1) ∧ p.keytrack = f.keytrack ∧
        n = f.fragNum.toNat ∧ f.appended ≤ p.room
    swap
    · rw [if_neg hchecks] at h
      cases h
    rw [if_pos hchecks] at h
    have hle : (f.recvframePull f.hdrIv).len ≤ p.room := by
      rw [f.recvframePull_len]
      exact hchecks.2.2.2
    obtain ⟨-, -, hicv, -, hid⟩ := FragFrame.append_lens hle
    have hpull : (f.recvframePull f.hdrIv).icvLen = f.icvLen := by
      unfold FragFrame.recvframePull
      split_ifs <;> rfl
    have hbytes : (p.append (f.recvframePull f.hdrIv)).bytes = (A ++ f.body) ++ f.icv := by
      rw [FragFrame.bytes_append hle hb hI, FragFrame.bytes_recvframePull hf, List.append_assoc]
    have hlen : f.icv.length = (p.append (f.recvframePull f.hdrIv)).icvLen := by
      rw [hicv, hpull, FragFrame.length_icv hf]
    obtain ⟨hrid, hr⟩ := ih (fun g hg => hsized g (by simp [hg])) hbytes hlen h
    refine ⟨hrid.trans hid, ?_⟩
    rw [hr, List.map_cons, List.flatten_cons, ← List.append_assoc]
    cases l with
    | nil => simp
    | cons g l =>
      obtain ⟨last, hlast⟩ := Option.isSome_iff_exists.mp
        (show (g :: l).getLast?.isSome by simp)
      rw [List.getLast?_cons_cons, hlast]
      rfl

/-- `recvframe_defrag` with its queues: the frame it returns, what is left in `defrag_q`, and the
frames given to the free queue, by their names. -/
structure DefragOut where
  ret : Option FragFrame
  defragQ : List FragFrame
  freeRecvQueue : List ℕ

/-- Every exit that refuses the fragments frees the first frame and then the queue, the last exit
frees the queue only. The first frame is no longer in the queue then. -/
def recvframeDefragQueue (freeRecvQueue : List ℕ) : List FragFrame → DefragOut
  | [] => ⟨none, [], freeRecvQueue⟩
  | prframe :: rest =>
    match recvframeDefrag (prframe :: rest) with
    | none => ⟨none, [], freeRecvQueue ++ prframe.id :: rest.map FragFrame.id⟩
    | some r => ⟨some r, [], freeRecvQueue ++ rest.map FragFrame.id⟩

/-- The header and IV of the first fragment, the bodies of all and the ICV of the last. -/
def reassembled (first : FragFrame) (rest : List FragFrame) : List (BitVec 8) :=
  first.head ++ ((first :: rest).map FragFrame.body).flatten ++
    (rest.getLast?.map FragFrame.icv).getD first.icv

/-- The fragments of one MSDU: numbered from 0, with packet numbers that follow each other and
under one key. -/
structure FragsOfMsdu (first : FragFrame) (rest : List FragFrame) : Prop where
  fragNum : Consecutive (first :: rest)
  pn : PnChain (if first.pnChecked then first.pn else 0) rest
  keytrack : ∀ f ∈ rest, f.keytrack = first.keytrack

/-- The fragments can be put together: they are those of one MSDU, long enough, and the buffer of
the first has room for the total. -/
structure CanReassemble (first : FragFrame) (rest : List FragFrame) : Prop
    extends FragsOfMsdu first rest where
  sized : ∀ f ∈ first :: rest, f.Sized
  room : (reassembled first rest).length ≤ first.len + first.room

/-- What `recvframe_defrag` is to do with the queue `first :: rest`. -/
def Reassembles (freeRecvQueue : List ℕ) (first : FragFrame) (rest : List FragFrame)
    (out : DefragOut) : Prop :=
  out.defragQ = [] ∧
    (CanReassemble first rest → ∃ r, out.ret = some r ∧ r.id = first.id ∧
      r.bytes = reassembled first rest ∧
      out.freeRecvQueue = freeRecvQueue ++ rest.map FragFrame.id) ∧
    (¬ CanReassemble first rest → out.ret = none ∧
      out.freeRecvQueue = freeRecvQueue ++ (first :: rest).map FragFrame.id)

/-- The room checks of the loop for the whole queue. -/
def RoomAtEachStep (first : FragFrame) (rest : List FragFrame) : Prop :=
  RoomChecks first.len first.room first.icvLen rest

/-- The buffer of the first frame does not grow. -/
theorem defragLoop_total {p r : FragFrame} {cur : BitVec 64} {n : ℕ} {l : List FragFrame}
    (h256 : ∀ f ∈ l, f.hdrIv < 256) (h : defragLoop p cur n l = some r) :
    r.len + r.room = p.len + p.room := by
  induction l generalizing p cur n with
  | nil =>
    obtain rfl : p = r := by simpa [defragLoop] using h
    rfl
  | cons f l ih =>
    rw [defragLoop_cons p f cur n l (h256 f (by simp))] at h
    by_cases hchecks : (f.pnChecked = true → f.pn = cur + 1) ∧ p.keytrack = f.keytrack ∧
        n = f.fragNum.toNat ∧ f.appended ≤ p.room
    swap
    · rw [if_neg hchecks] at h
      cases h
    rw [if_pos hchecks] at h
    have hle : (f.recvframePull f.hdrIv).len ≤ p.room := by
      rw [f.recvframePull_len]
      exact hchecks.2.2.2
    obtain ⟨hlen, hroom, -⟩ := FragFrame.append_lens hle
    have hrest := ih (fun g hg => h256 g (by simp [hg])) h
    by_cases hicv : p.len < p.icvLen
    · rw [if_pos hicv] at hlen hroom
      omega
    · rw [if_neg hicv] at hlen hroom
      omega

section Defrag

variable {first : FragFrame} {rest : List FragFrame}

theorem consecutive_cons : Consecutive (first :: rest) ↔
    first.fragNum = 0 ∧ rest.map (fun f => f.fragNum.toNat) = List.range' 1 rest.length := by
  unfold Consecutive
  rw [List.range_eq_range', List.length_cons, List.range'_succ, List.map_cons, List.cons.injEq]
  refine and_congr_left fun _ => ?_
  constructor
  · intro h
    exact BitVec.eq_of_toNat_eq h
  · rintro h
    rw [h]
    rfl

theorem recvframeDefrag_isSome (first : FragFrame) (h256 : ∀ f ∈ rest, f.hdrIv < 256) :
    (recvframeDefrag (first :: rest)).isSome ↔
      FragsOfMsdu first rest ∧ RoomAtEachStep first rest := by
  rw [recvframeDefrag]
  by_cases h0 : first.fragNum = 0
  · rw [if_neg (not_not.mpr h0), defragLoop_isSome h256]
    constructor
    · rintro ⟨hn, hpn, hkey, hroom⟩
      exact ⟨⟨consecutive_cons.mpr ⟨h0, hn⟩, hpn, hkey⟩, hroom⟩
    · rintro ⟨⟨hn, hpn, hkey⟩, hroom⟩
      exact ⟨(consecutive_cons.mp hn).2, hpn, hkey, hroom⟩
  · rw [if_pos h0]
    refine iff_of_false (by simp) fun h => h0 (consecutive_cons.mp h.1.fragNum).1

/-- The frame returned for fragments that are long enough. -/
theorem recvframeDefrag_bytes (hsized : ∀ f ∈ first :: rest, f.Sized)
    (h256 : ∀ f ∈ rest, f.hdrIv < 256) {r : FragFrame}
    (h : recvframeDefrag (first :: rest) = some r) :
    r.id = first.id ∧ r.bytes = reassembled first rest ∧
      (reassembled first rest).length ≤ first.len + first.room := by
  have hloop : defragLoop first (if first.pnChecked then first.pn else 0) 1 rest = some r := by
    rw [recvframeDefrag] at h
    by_cases h0 : first.fragNum = 0
    · rwa [if_neg (not_not.mpr h0)] at h
    · rw [if_pos h0] at h
      cases h
  have hfirst := hsized first (by simp)
  have hb : first.bytes = (first.head ++ first.body) ++ first.icv := first.bytes_split hfirst
  obtain ⟨hid, hbytes⟩ := defragLoop_bytes
    (fun f hf => ⟨hsized f (by simp [hf]), h256 f hf⟩) hb (FragFrame.length_icv hfirst) hloop
  have hr : r.bytes = reassembled first rest := by
    rw [hbytes, reassembled, List.map_cons, List.flatten_cons, ← List.append_assoc first.head]
  refine ⟨hid, hr, ?_⟩
  have htotal := defragLoop_total h256 hloop
  rw [← hr, FragFrame.length_bytes]
  omega

/-- Where no fragment is too short, room for the total is room at each step of the loop, at which
the ICV of the fragment before is still in place; a queue with a fragment that is too short is
refused for lack of room. -/
def RoomAgrees (first : FragFrame) (rest : List FragFrame) : Prop :=
  if ∀ f ∈ first :: rest, f.Sized then
    (reassembled first rest).length ≤ first.len + first.room → RoomAtEachStep first rest
  else ¬ RoomAtEachStep first rest

/-- `recvframe_defrag` does what it is to do with a queue exactly if the fragments are not those of
one MSDU, or the room checks of its loop agree with the sizes of the fragments. -/
theorem recvframe_defrag_reassembles_iff (freeRecvQueue : List ℕ) (first : FragFrame)
    (rest : List FragFrame) (h256 : ∀ f ∈ first :: rest, f.hdrIv < 256) :
    Reassembles freeRecvQueue first rest (recvframeDefragQueue freeRecvQueue (first :: rest)) ↔
      (FragsOfMsdu first rest → RoomAgrees first rest) := by
  have hrest : ∀ f ∈ rest, f.hdrIv < 256 := fun f hf => h256 f (by simp [hf])
  have hsome := recvframeDefrag_isSome first hrest
  unfold RoomAgrees
  cases hret : recvframeDefrag (first :: rest) with
  | none =>
    rw [hret] at hsome
    have hnot : ¬ (FragsOfMsdu first rest ∧ RoomAtEachStep first rest) :=
      fun h => absurd (hsome.mpr h) (by simp)
    have hmeets : Reassembles freeRecvQueue first rest
        (recvframeDefragQueue freeRecvQueue (first :: rest)) ↔ ¬ CanReassemble first rest := by
      simp [Reassembles, recvframeDefragQueue, hret]
    rw [hmeets]
    by_cases hsized : ∀ f ∈ first :: rest, f.Sized
    · rw [if_pos hsized]
      constructor
      · exact fun hcan hfrags htotal => absurd ⟨hfrags, hsized, htotal⟩ hcan
      · exact fun h hcan => hnot ⟨hcan.toFragsOfMsdu, h hcan.toFragsOfMsdu hcan.room⟩
    · rw [if_neg hsized]
      exact iff_of_true (fun hcan => hsized hcan.sized) fun hfrags hroom => hnot ⟨hfrags, hroom⟩
  | some r =>
    rw [hret] at hsome
    obtain ⟨hfrags, hroom⟩ := hsome.mp rfl
    by_cases hsized : ∀ f ∈ first :: rest, f.Sized
    · obtain ⟨hid, hbytes, htotal⟩ := recvframeDefrag_bytes hsized hrest hret
      have hcan : CanReassemble first rest := ⟨hfrags, hsized, htotal⟩
      rw [if_pos hsized]
      refine iff_of_true ?_ fun _ _ => hroom
      simp [Reassembles, recvframeDefragQueue, hret, hcan, hid, hbytes]
    · have hcan : ¬ CanReassemble first rest := fun hcan => hsized hcan.sized
      rw [if_neg hsized]
      refine iff_of_false ?_ fun h => h hfrags hroom
      simp [Reassembles, recvframeDefragQueue, hret, hcan]

end Defrag

/-- A WEP fragment of `len` bytes, with a header of 24. -/
def wepFragment (id : ℕ) (fragNum : BitVec 4) (len : ℕ) : FragFrame where
  id := id
  seqNum := 1
  fragNum := fragNum
  mfrag := true
  priority := 0
  encrypt := .wep40
  privacy := true
  raMcast := false
  keytrack := 0
  hdrlen := 24
  ivLen := 4
  icvLen := 4
  buf := fun i => BitVec.ofNat 8 i
  len := len
  room := 1000

theorem recvframe_defrag_reassembles_two :
    Reassembles [] (wepFragment 0 0 38) [wepFragment 1 1 35]
      (recvframeDefragQueue [] [wepFragment 0 0 38, wepFragment 1 1 35]) := by
  refine (recvframe_defrag_reassembles_iff [] (wepFragment 0 0 38)
    [wepFragment 1 1 35] ?_).mpr fun _ => ?_
  · intro f hf
    fin_cases hf <;> decide
  · unfold RoomAgrees
    rw [if_pos (by decide)]
    intro _
    exact ⟨by decide, trivial⟩

/-- A second fragment of 26 bytes, shorter than its header and IV, is appended with its header. -/
theorem recvframe_defrag_takes_header :
    ¬ Reassembles [] (wepFragment 0 0 38) [wepFragment 1 1 26]
      (recvframeDefragQueue [] [wepFragment 0 0 38, wepFragment 1 1 26]) := by
  rintro ⟨-, -, h⟩
  have hcan : ¬ CanReassemble (wepFragment 0 0 38) [wepFragment 1 1 26] :=
    fun hcan => absurd (hcan.sized (wepFragment 1 1 26) (by simp)) (by decide)
  have hnone := (h hcan).1
  have hsome : (recvframeDefragQueue [] [wepFragment 0 0 38,
      wepFragment 1 1 26]).ret.isSome = true := by decide
  rw [hnone] at hsome
  cases hsome

end Rtl8821cu.Recv
