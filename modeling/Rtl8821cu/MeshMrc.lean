import Rtl8821cu.LibRun
import Rtl8821cu.MacAddr

/-! The mesh received cache: what `rtw_mrc_check` reports of a frame, over every sequence of
calls at non-decreasing times. -/
namespace Rtl8821cu.MeshMrc
open Run

/-- `RTW_MRC_QUEUE_MAX_LEN`. -/
def queueMaxLen : ℕ := 4

/-- The system clock: jiffies of `width` bits, and `RTW_MRC_TIMEOUT_MS` in jiffies, less than
half of the clock's range. -/
structure Clock where
  width : ℕ
  timeout : ℕ
  timeout_lt : timeout < 2 ^ (width - 1)

variable {clk : Clock}

/-- `rtw_time_after(a, b)`: the signed difference `b - a` is negative. -/
def timeAfter (a b : BitVec clk.width) : Bool := (b - a).msb

/-- `struct rtw_mrc_entry`. -/
structure Entry (clk : Clock) where
  expTime : BitVec clk.width
  seqnum : BitVec 32
  msa : Mac

/-- The buckets of `struct rtw_mrc`, first entry first. -/
abbrev Mrc (clk : Clock) := BitVec 8 → List (Entry clk)

/-- One call of `rtw_mrc_check`: the time it is made at, its arguments, and whether
`rtw_mcache_alloc` gives an entry. -/
structure Call where
  time : ℕ
  msa : Mac
  seq : BitVec 32
  alloc : Bool

/-- The pair a call asks about. -/
def Call.pair (c : Call) : Mac × BitVec 32 := (c.msa, c.seq)

/-- `seq & mrc->idx_mask`. -/
def idx (seq : BitVec 32) : BitVec 8 := (seq &&& 255).setWidth 8

/-- `rtw_get_current_time`. -/
def Call.now (clk : Clock) (c : Call) : BitVec clk.width := BitVec.ofNat clk.width c.time

/-- The entry a call adds. -/
def entryOf (clk : Clock) (c : Call) : Entry clk :=
  { expTime := c.now clk + BitVec.ofNat clk.width clk.timeout
    seqnum := c.seq
    msa := c.msa }

/-- `seq == p->seqnum` and equal addresses. -/
def Entry.isFor (p : Entry clk) (c : Call) : Bool := c.seq == p.seqnum && c.msa == p.msa

/-- The loop over a bucket with `entries` entries before it: whether the frame is found, and the
entries the loop leaves. -/
def walk (c : Call) : ℕ → List (Entry clk) → Bool × List (Entry clk)
  | _, [] => (false, [])
  | entries, p :: ps =>
    if timeAfter (c.now clk) p.expTime || entries + 1 == queueMaxLen then walk c entries ps
    else if p.isFor c then (true, p :: ps)
    else ((walk c (entries + 1) ps).1, p :: (walk c (entries + 1) ps).2)

/-- What a bucket holds after a call. -/
def bucketAfter (c : Call) (l : List (Entry clk)) : List (Entry clk) :=
  if (walk c 0 l).1 || !c.alloc then (walk c 0 l).2 else entryOf clk c :: (walk c 0 l).2

/-- `rtw_mrc_init`, `none` where the cache is not allocated. -/
def rtwMrcInit (clk : Clock) (alloc : Bool) : Option (Mrc clk) :=
  if alloc then some fun _ => [] else none

/-- `rtw_mrc_check`: whether the frame is reported as one received before, and the cache. -/
def rtwMrcCheck (mrc : Option (Mrc clk)) (c : Call) : Bool × Option (Mrc clk) :=
  match mrc with
  | none => (true, none)
  | some m =>
    ((walk c 0 (m (idx c.seq))).1,
      some (Function.update m (idx c.seq) (bucketAfter c (m (idx c.seq)))))

/-- The cache after one call. -/
def step (mrc : Option (Mrc clk)) (c : Call) : Option (Mrc clk) := (rtwMrcCheck mrc c).2

/-- The calls of a sequence that are reported as new. -/
def news (mrc : Option (Mrc clk)) : List Call → List Call
  | [] => []
  | c :: cs =>
    if (rtwMrcCheck mrc c).1 then news (step mrc c) cs else c :: news (step mrc c) cs

theorem news_append (mrc : Option (Mrc clk)) (xs ys : List Call) :
    news mrc (xs ++ ys) = news mrc xs ++ news (run step mrc xs) ys := by
  induction xs generalizing mrc with
  | nil => rfl
  | cons x xs ih =>
    simp only [List.cons_append, news, run_cons, ih]
    split <;> simp

theorem news_sublist (mrc : Option (Mrc clk)) (cs : List Call) : (news mrc cs).Sublist cs := by
  induction cs generalizing mrc with
  | nil => exact List.Sublist.refl []
  | cons c cs ih =>
    simp only [news]
    split
    · exact (ih _).cons c
    · exact (ih _).cons_cons c

theorem run_some (m : Mrc clk) (cs : List Call) : ∃ m', run step (some m) cs = some m' := by
  induction cs generalizing m with
  | nil => exact ⟨m, rfl⟩
  | cons c cs ih => exact ih _

section Walk

variable {c : Call}

theorem walk_sublist (c : Call) (k : ℕ) (l : List (Entry clk)) : (walk c k l).2.Sublist l := by
  fun_induction walk c k l with
  | case1 k => exact List.Sublist.refl []
  | case2 k p ps _ ih => exact ih.cons p
  | case3 k p ps _ _ => exact List.Sublist.refl _
  | case4 k p ps _ _ ih => exact ih.cons_cons p

/-- A loop that finds nothing leaves fewer than `RTW_MRC_QUEUE_MAX_LEN` entries. -/
theorem walk_length (c : Call) (k : ℕ) (l : List (Entry clk)) (hk : k < queueMaxLen)
    (h : (walk c k l).1 = false) : k + (walk c k l).2.length < queueMaxLen := by
  fun_induction walk c k l with
  | case1 k => exact hk
  | case2 k p ps _ ih => exact ih hk h
  | case3 k p ps _ _ => simp at h
  | case4 k p ps hcond _ ih =>
    have hne : k + 1 ≠ queueMaxLen := by
      intro heq
      simp [heq] at hcond
    have hlen := ih (by omega) h
    simp only [List.length_cons]
    omega

/-- A frame is found only when the bucket has an entry for it. -/
theorem walk_found (c : Call) (k : ℕ) (l : List (Entry clk)) (h : (walk c k l).1 = true) :
    ∃ p ∈ l, p.isFor c = true := by
  fun_induction walk c k l with
  | case1 k => simp at h
  | case2 k p ps _ ih =>
    obtain ⟨q, hq, hfor⟩ := ih h
    exact ⟨q, List.mem_cons_of_mem p hq, hfor⟩
  | case3 k p ps _ hfor => exact ⟨p, List.mem_cons_self, hfor⟩
  | case4 k p ps _ _ ih =>
    obtain ⟨q, hq, hfor⟩ := ih h
    exact ⟨q, List.mem_cons_of_mem p hq, hfor⟩

/-- Live entries in the first places of a bucket are passed over, unless one is for the frame. -/
theorem walk_live (c : Call) (k : ℕ) (l r : List (Entry clk))
    (hlive : ∀ p ∈ l, timeAfter (c.now clk) p.expTime = false)
    (hlen : k + l.length < queueMaxLen) (hfor : ∀ p ∈ l, p.isFor c = false) :
    walk c k (l ++ r) = ((walk c (k + l.length) r).1, l ++ (walk c (k + l.length) r).2) := by
  induction l generalizing k with
  | nil => simp
  | cons p ps ih =>
    simp only [List.length_cons] at hlen
    have hne : k + 1 ≠ queueMaxLen := by omega
    have hrest := ih (k + 1) (fun q hq => hlive q (List.mem_cons_of_mem p hq)) (by omega)
      (fun q hq => hfor q (List.mem_cons_of_mem p hq))
    have hk : k + 1 + ps.length = k + (p :: ps).length := by simp only [List.length_cons]; omega
    simp [walk, hlive p List.mem_cons_self, hne, hfor p List.mem_cons_self, hrest, hk]

/-- A live entry for the frame in one of the first places is found, and nothing is deleted. -/
theorem walk_hit (c : Call) (k : ℕ) (l r : List (Entry clk))
    (hlive : ∀ p ∈ l, timeAfter (c.now clk) p.expTime = false)
    (hlen : k + l.length < queueMaxLen) (hfor : ∃ p ∈ l, p.isFor c = true) :
    walk c k (l ++ r) = (true, l ++ r) := by
  induction l generalizing k with
  | nil => simp at hfor
  | cons p ps ih =>
    simp only [List.length_cons] at hlen
    have hne : k + 1 ≠ queueMaxLen := by omega
    by_cases hp : p.isFor c = true
    · simp [walk, hlive p List.mem_cons_self, hne, hp]
    · have hrest := ih (k + 1) (fun q hq => hlive q (List.mem_cons_of_mem p hq)) (by omega)
        (by simpa [hp] using hfor)
      simp [walk, hlive p List.mem_cons_self, hne, hp, hrest]

end Walk

/-- The entry of a call is live until the timeout has passed, also across a wrap of the clock. -/
theorem entryOf_live (clk : Clock) (c d : Call) (hle : c.time ≤ d.time)
    (hlt : d.time ≤ c.time + clk.timeout) :
    timeAfter (d.now clk) (entryOf clk c).expTime = false := by
  obtain ⟨n, hn⟩ : ∃ n, c.time + clk.timeout = d.time + n :=
    ⟨c.time + clk.timeout - d.time, by omega⟩
  have hdiff : (entryOf clk c).expTime - d.now clk = BitVec.ofNat clk.width n := by
    simp only [entryOf, Call.now, ← BitVec.ofNat_add, hn]
    rw [BitVec.ofNat_add, BitVec.add_comm, BitVec.add_sub_cancel]
  have hbound : n % 2 ^ clk.width < 2 ^ (clk.width - 1) := by
    have hmod := Nat.mod_le n (2 ^ clk.width)
    have htimeout := clk.timeout_lt
    omega
  rw [timeAfter, hdiff, BitVec.msb_eq_decide, BitVec.toNat_ofNat]
  exact decide_eq_false (by omega)

theorem entryOf_isFor (clk : Clock) (c d : Call) :
    (entryOf clk c).isFor d = true ↔ d.pair = c.pair := by
  simp [Entry.isFor, entryOf, Call.pair, and_comm]

section Order

/-- Every bucket holds the entries of calls that were reported as new, the last one first. -/
def Tracks (m : Mrc clk) (ns : List Call) : Prop :=
  ∀ j, ∃ L : List Call, m j = L.map (entryOf clk) ∧ L.length ≤ queueMaxLen ∧
    L.Sublist ns.reverse ∧ ∀ c ∈ L, idx c.seq = j

theorem tracks_mono {m : Mrc clk} {ns ms : List Call} (h : Tracks m ns) (hsub : ns.Sublist ms) :
    Tracks m ms := by
  intro j
  obtain ⟨L, hm, hlen, hL, hidx⟩ := h j
  exact ⟨L, hm, hlen, hL.trans hsub.reverse, hidx⟩

/-- One call: a new frame is put in front, after the loop has made room for it. -/
theorem step_tracks {m : Mrc clk} {ns : List Call} (h : Tracks m ns) (c : Call)
    (halloc : c.alloc = true) :
    ∃ m', step (some m) c = some m' ∧ Tracks m' (ns ++ news (some m) [c]) := by
  refine ⟨_, rfl, fun j => ?_⟩
  by_cases hj : j = idx c.seq
  · subst hj
    obtain ⟨L, hm, hlen, hL, hidx⟩ := h (idx c.seq)
    obtain ⟨K, hK, hwalk⟩ := List.sublist_map_iff.1 (hm ▸ walk_sublist c 0 (m (idx c.seq)))
    have hKL : K.length ≤ L.length := hK.length_le
    simp only [Function.update_self, bucketAfter, halloc, Bool.not_true, Bool.or_false]
    by_cases hfound : (walk c 0 (m (idx c.seq))).1 = true
    · refine ⟨K, ?_, by omega, ?_, fun d hd => hidx d (hK.subset hd)⟩
      · rw [if_pos hfound, hm, hwalk]
      · simpa [news, rtwMrcCheck, hfound] using hK.trans hL
    · refine ⟨c :: K, ?_, ?_, ?_, ?_⟩
      · rw [if_neg hfound, hm, hwalk, List.map_cons]
      · have hroom := walk_length c 0 (m (idx c.seq)) (by decide) (by simpa using hfound)
        rw [hm, hwalk, List.length_map] at hroom
        simp only [List.length_cons]
        omega
      · simpa [news, rtwMrcCheck, hfound] using hK.trans hL
      · intro d hd
        rcases List.mem_cons.1 hd with rfl | hd
        · rfl
        · exact hidx d (hK.subset hd)
  · obtain ⟨L, hm, hrest⟩ := tracks_mono h (List.sublist_append_left ns (news (some m) [c])) j
    exact ⟨L, by rw [Function.update_of_ne hj, hm], hrest⟩

theorem run_tracks (cs : List Call) (halloc : ∀ c ∈ cs, c.alloc = true) {m : Mrc clk}
    {ns : List Call} (h : Tracks m ns) :
    ∃ m', run step (some m) cs = some m' ∧ Tracks m' (ns ++ news (some m) cs) := by
  induction cs generalizing m ns with
  | nil => exact ⟨m, rfl, by simpa [news] using h⟩
  | cons c cs ih =>
    obtain ⟨m₁, hstep, hm₁⟩ := step_tracks h c (halloc c List.mem_cons_self)
    obtain ⟨m₂, hrun, hm₂⟩ := ih (fun d hd => halloc d (List.mem_cons_of_mem c hd)) hm₁
    refine ⟨m₂, by rw [run_cons, hstep, hrun], ?_⟩
    have hnews := news_append (some m) [c] cs
    rw [List.singleton_append] at hnews
    rwa [hnews, run_cons, run_nil, hstep, ← List.append_assoc]

end Order

section Window

variable {m : Mrc clk} {a c : Call} {ns : List Call}

/-- The bucket of `a` starts with the entries of `ns`, and that of `a` follows. -/
def Held (m : Mrc clk) (a : Call) (ns : List Call) : Prop :=
  ∃ rest, m (idx a.seq) = ns.map (entryOf clk) ++ entryOf clk a :: rest

/-- The other pairs of the bucket of `a` that are reported as new in a sequence. -/
def otherNews (mrc : Option (Mrc clk)) (a : Call) (cs : List Call) : Finset (Mac × BitVec 32) :=
  (((news mrc cs).filter fun c => c.pair != a.pair && idx c.seq == idx a.seq).map
    Call.pair).toFinset

/-- The pairs held at the front of the bucket of `a`, that of `a` last: fewer than the length
limit, and all entered between `a` and the call `c`, within the timeout of `a`. -/
structure Front (clk : Clock) (a c : Call) (ns : List Call) : Prop where
  room : ns.length + 1 < queueMaxLen
  since : ∀ n ∈ ns, a.time ≤ n.time
  upto : ∀ n ∈ ns, n.time ≤ c.time
  le : a.time ≤ c.time
  within : c.time ≤ a.time + clk.timeout

theorem Front.live (h : Front clk a c ns) :
    ∀ p ∈ (ns ++ [a]).map (entryOf clk), timeAfter (c.now clk) p.expTime = false := by
  intro p hp
  obtain ⟨n, hn, rfl⟩ := List.mem_map.1 hp
  have hwithin := h.within
  rcases List.mem_append.1 hn with hn | hn
  · have hsince := h.since n hn
    exact entryOf_live clk n c (h.upto n hn) (by omega)
  · rw [List.mem_singleton.1 hn]
    exact entryOf_live clk a c h.le hwithin

theorem Held.bucket (h : Held m a ns) :
    ∃ rest, m (idx a.seq) = (ns ++ [a]).map (entryOf clk) ++ rest := by
  obtain ⟨rest, hm⟩ := h
  exact ⟨rest, by simp [hm]⟩

theorem Held.mk_bucket {m : Mrc clk} (rest : List (Entry clk))
    (h : m (idx a.seq) = (ns ++ [a]).map (entryOf clk) ++ rest) : Held m a ns :=
  ⟨rest, by simp [h]⟩

/-- A call for a held pair is reported as received before, and deletes nothing. -/
theorem check_hit (h : Held m a ns) (hfront : Front clk a c ns) (hidx : idx c.seq = idx a.seq)
    (hmem : ∃ n ∈ ns ++ [a], c.pair = n.pair) :
    (rtwMrcCheck (some m) c).1 = true ∧ step (some m) c = some m := by
  obtain ⟨rest, hm⟩ := h.bucket
  obtain ⟨n, hn, hpair⟩ := hmem
  have hroom := hfront.room
  have hwalk := walk_hit c 0 _ rest hfront.live (by simpa using hroom)
    ⟨entryOf clk n, List.mem_map_of_mem hn, (entryOf_isFor clk n c).2 hpair⟩
  rw [← hm] at hwalk
  refine ⟨by simp [rtwMrcCheck, hidx, hwalk], ?_⟩
  simp [step, rtwMrcCheck, hidx, bucketAfter, hwalk]

/-- A call for another pair of the bucket is reported as new, and goes in front. -/
theorem step_miss (h : Held m a ns) (hfront : Front clk a c ns) (hidx : idx c.seq = idx a.seq)
    (halloc : c.alloc = true) (hmem : ¬ ∃ n ∈ ns ++ [a], c.pair = n.pair) :
    ∃ m', step (some m) c = some m' ∧
      (Held m' a ns ∨ (rtwMrcCheck (some m) c).1 = false ∧ Held m' a (c :: ns)) := by
  obtain ⟨rest, hm⟩ := h.bucket
  have hroom := hfront.room
  have hwalk := walk_live c 0 _ rest hfront.live (by simpa using hroom) (by
    intro p hp
    obtain ⟨n, hn, rfl⟩ := List.mem_map.1 hp
    rw [← Bool.not_eq_true, entryOf_isFor]
    exact fun hpair => hmem ⟨n, hn, hpair⟩)
  rw [← hm] at hwalk
  set left := (walk c (0 + ((ns ++ [a]).map (entryOf clk)).length) rest).2
  refine ⟨_, rfl, ?_⟩
  by_cases hfound : (walk c 0 (m (idx a.seq))).1 = true
  · refine Or.inl (Held.mk_bucket left ?_)
    rw [hidx, Function.update_self, bucketAfter, hfound, Bool.true_or, if_pos rfl, hwalk]
  · refine Or.inr ⟨by simpa [rtwMrcCheck, hidx] using hfound, Held.mk_bucket left ?_⟩
    rw [hidx, Function.update_self, bucketAfter, halloc, Bool.not_true, Bool.or_false,
      if_neg hfound, hwalk, List.cons_append, List.map_cons, List.cons_append]

theorem step_other (h : Held m a ns) (hidx : idx c.seq ≠ idx a.seq) :
    ∃ m', step (some m) c = some m' ∧ Held m' a ns := by
  obtain ⟨rest, hm⟩ := h
  refine ⟨_, rfl, rest, ?_⟩
  rw [Function.update_of_ne (Ne.symm hidx), hm]

theorem otherNews_snoc (mrc : Option (Mrc clk)) (a c : Call) (cs : List Call) :
    otherNews mrc a (cs ++ [c]) = otherNews mrc a cs ∪ otherNews (run step mrc cs) a [c] := by
  simp [otherNews, news_append]

theorem mem_otherNews {mrc : Option (Mrc clk)} (hnew : (rtwMrcCheck mrc c).1 = false)
    (hpair : c.pair ≠ a.pair) (hidx : idx c.seq = idx a.seq) : c.pair ∈ otherNews mrc a [c] := by
  simp [otherNews, news, hnew, hpair, hidx]

/-- Distinct pairs reported as new leave room in front of `a` while there are few of them. -/
theorem length_lt_of_few {F : Finset (Mac × BitVec 32)} (hnodup : (ns.map Call.pair).Nodup)
    (hmem : ∀ n ∈ ns, n.pair ∈ F) (hfew : F.card < queueMaxLen - 1) :
    ns.length + 1 < queueMaxLen := by
  have hsub : (ns.map Call.pair).toFinset ⊆ F := by
    intro p hp
    obtain ⟨n, hn, rfl⟩ := List.mem_map.1 (List.mem_toFinset.1 hp)
    exact hmem n hn
  have hcard := Finset.card_le_card hsub
  rw [List.toFinset_card_of_nodup hnodup, List.length_map] at hcard
  omega

/-- The first places of the bucket of `a` after the calls of `cs`: pairs reported as new since. -/
structure Since (m : Mrc clk) (a : Call) (cs ns : List Call) (F : Finset (Mac × BitVec 32)) :
    Prop where
  held : Held m a ns
  nodup : (ns.map Call.pair).Nodup
  mem : ∀ n ∈ ns, n ∈ cs
  news : ∀ n ∈ ns, n.pair ∈ F ∧ n.pair ≠ a.pair

theorem Since.step {cs : List Call} {F : Finset (Mac × BitVec 32)} (h : Since m a cs ns F)
    (hfront : Front clk a c ns) (halloc : c.alloc = true) :
    ∃ m' ns', step (some m) c = some m' ∧
      Since m' a (cs ++ [c]) ns' (F ∪ otherNews (some m) a [c]) := by
  have hkeep : ∀ m' : Mrc clk, Held m' a ns → Since m' a (cs ++ [c]) ns (F ∪ otherNews (some m) a [c]) :=
    fun m' hheld => ⟨hheld, h.nodup, fun n hn => by simp [h.mem n hn],
      fun n hn => ⟨Finset.mem_union_left _ (h.news n hn).1, (h.news n hn).2⟩⟩
  by_cases hidx : idx c.seq = idx a.seq
  · by_cases hmem : ∃ n ∈ ns ++ [a], c.pair = n.pair
    · exact ⟨m, ns, (check_hit h.held hfront hidx hmem).2, hkeep m h.held⟩
    · obtain ⟨m', hstep, hheld | ⟨hnew, hheld⟩⟩ := step_miss h.held hfront hidx halloc hmem
      · exact ⟨m', ns, hstep, hkeep m' hheld⟩
      · have hnot : ∀ n ∈ ns ++ [a], c.pair ≠ n.pair := fun n hn heq => hmem ⟨n, hn, heq⟩
        have hpair : c.pair ≠ a.pair := hnot a (by simp)
        refine ⟨m', c :: ns, hstep, hheld, ?_, ?_, ?_⟩
        · refine List.nodup_cons.2 ⟨fun hin => ?_, h.nodup⟩
          obtain ⟨n, hn, heq⟩ := List.mem_map.1 hin
          exact hnot n (by simp [hn]) heq.symm
        · intro n hn
          rcases List.mem_cons.1 hn with rfl | hn
          · simp
          · simp [h.mem n hn]
        · intro n hn
          rcases List.mem_cons.1 hn with rfl | hn
          · exact ⟨Finset.mem_union_right _ (mem_otherNews hnew hpair hidx), hpair⟩
          · exact (hkeep m h.held).news n hn
  · obtain ⟨m', hstep, hheld⟩ := step_other h.held hidx
    exact ⟨m', ns, hstep, hkeep m' hheld⟩

/-- What is held after the calls of `mid`, all within the timeout of `a`. -/
theorem run_since (h : Held m a []) (mid : List Call) (halloc : ∀ c ∈ mid, c.alloc = true)
    (hle : ∀ c ∈ mid, a.time ≤ c.time ∧ c.time ≤ a.time + clk.timeout)
    (htime : mid.Pairwise fun c d => c.time ≤ d.time)
    (hfew : (otherNews (some m) a mid).card < queueMaxLen - 1) :
    ∃ m' ns, run step (some m) mid = some m' ∧
      Since m' a mid ns (otherNews (some m) a mid) := by
  induction mid using List.reverseRecOn with
  | nil => exact ⟨m, [], rfl, h, List.nodup_nil, by simp, by simp⟩
  | append_singleton mid c ih =>
    rw [otherNews_snoc] at hfew ⊢
    have hsub : otherNews (some m) a mid ⊆
        otherNews (some m) a mid ∪ otherNews (run step (some m) mid) a [c] :=
      Finset.subset_union_left
    have hcard := Finset.card_le_card hsub
    obtain ⟨htimes, -, hlast⟩ := List.pairwise_append.1 htime
    obtain ⟨m₁, ns, hrun, hsince⟩ := ih (fun d hd => halloc d (by simp [hd]))
      (fun d hd => hle d (by simp [hd])) htimes (by omega)
    have hc := hle c (by simp)
    have hfront : Front clk a c ns :=
      { room := length_lt_of_few hsince.nodup (fun n hn => (hsince.news n hn).1) (by omega)
        since := fun n hn => (hle n (by simp [hsince.mem n hn])).1
        upto := fun n hn => hlast n (hsince.mem n hn) c (by simp)
        le := hc.1
        within := hc.2 }
    obtain ⟨m₂, ns₂, hstep, hsince₂⟩ := hsince.step hfront (halloc c (by simp))
    refine ⟨m₂, ns₂, by rw [run_append, hrun, run_cons, run_nil, hstep], ?_⟩
    rwa [hrun]

end Window

/-- The cache after a sequence of calls, from its allocation on. -/
def cacheAfter (clk : Clock) (cs : List Call) : Option (Mrc clk) :=
  run step (rtwMrcInit clk true) cs

/-- A call after the calls of `pre` is reported as new. -/
def ReportedNew (clk : Clock) (pre : List Call) (c : Call) : Prop :=
  (rtwMrcCheck (cacheAfter clk pre) c).1 = false

theorem cacheAfter_tracks (clk : Clock) (cs : List Call) (halloc : ∀ c ∈ cs, c.alloc = true) :
    ∃ m, cacheAfter clk cs = some m ∧ Tracks m (news (rtwMrcInit clk true) cs) := by
  have h0 : Tracks (fun _ => [] : Mrc clk) [] :=
    fun j => ⟨[], rfl, by decide, List.Sublist.refl [], by simp⟩
  simpa [cacheAfter, rtwMrcInit] using run_tracks cs halloc h0

theorem held_of_reportedNew {pre : List Call} {a : Call} (halloc : a.alloc = true)
    (h : ReportedNew clk pre a) : ∃ m, cacheAfter clk (pre ++ [a]) = some m ∧ Held m a [] := by
  obtain ⟨m, hm⟩ := run_some (fun _ => [] : Mrc clk) pre
  have hcache : cacheAfter clk pre = some m := hm
  have hnew : (walk a 0 (m (idx a.seq))).1 = false := by
    simpa [ReportedNew, hcache, rtwMrcCheck] using h
  refine ⟨Function.update m (idx a.seq) (bucketAfter a (m (idx a.seq))), ?_,
    (walk a 0 (m (idx a.seq))).2, ?_⟩
  · rw [cacheAfter, run_append, ← cacheAfter, hcache]
    rfl
  · simp [bucketAfter, hnew, halloc]

/-- A reported pair is known for the timeout, while fewer than `RTW_MRC_QUEUE_MAX_LEN - 1` other
pairs of its bucket are reported as new. -/
theorem not_reportedNew {pre mid : List Call} {a b : Call}
    (halloc : ∀ c ∈ a :: mid, c.alloc = true)
    (htime : (a :: (mid ++ [b])).Pairwise fun c d => c.time ≤ d.time)
    (hpair : b.pair = a.pair) (hwithin : b.time ≤ a.time + clk.timeout)
    (hnew : ReportedNew clk pre a)
    (hfew : (otherNews (cacheAfter clk (pre ++ [a])) a mid).card < queueMaxLen - 1) :
    ¬ ReportedNew clk (pre ++ a :: mid) b := by
  obtain ⟨m, hcache, hheld⟩ := held_of_reportedNew (halloc a (by simp)) hnew
  rw [hcache] at hfew
  obtain ⟨hafter, htimes⟩ := List.pairwise_cons.1 htime
  obtain ⟨hmid, -, hlast⟩ := List.pairwise_append.1 htimes
  obtain ⟨m', ns, hrun, hsince⟩ := run_since hheld mid (fun c hc => halloc c (by simp [hc]))
    (fun c hc => ⟨hafter c (by simp [hc]), (hlast c hc b (by simp)).trans hwithin⟩) hmid hfew
  have hfront : Front clk a b ns :=
    { room := length_lt_of_few hsince.nodup (fun n hn => (hsince.news n hn).1) hfew
      since := fun n hn => hafter n (by simp [hsince.mem n hn])
      upto := fun n hn => hlast n (hsince.mem n hn) b (by simp)
      le := hafter b (by simp)
      within := hwithin }
  have hidx : idx b.seq = idx a.seq := congrArg (fun p => idx p.2) hpair
  have hcache' : cacheAfter clk (pre ++ a :: mid) = some m' := by
    rw [← List.singleton_append, ← List.append_assoc, cacheAfter, run_append, ← cacheAfter, hcache,
      hrun]
  have hhit := (check_hit hsince.held hfront hidx ⟨a, by simp, hpair⟩).1
  simp [ReportedNew, hcache', hhit]

/-- A pair that no earlier call asked about is reported as new. -/
theorem reportedNew_of_unseen {pre : List Call} {b : Call} (halloc : ∀ c ∈ pre, c.alloc = true)
    (h : ∀ c ∈ pre, c.pair ≠ b.pair) : ReportedNew clk pre b := by
  obtain ⟨m, hcache, htracks⟩ := cacheAfter_tracks clk pre halloc
  obtain ⟨L, hm, -, hL, -⟩ := htracks (idx b.seq)
  rw [ReportedNew, hcache, ← Bool.not_eq_true]
  intro hfound
  obtain ⟨p, hp, hfor⟩ := walk_found b 0 (m (idx b.seq)) hfound
  rw [hm] at hp
  obtain ⟨c, hc, rfl⟩ := List.mem_map.1 hp
  have hpre : c ∈ pre := (news_sublist _ pre).subset (List.mem_reverse.1 (hL.subset hc))
  exact h c hpre ((entryOf_isFor clk c b).1 hfor).symm

/-- The received cache over any sequence of calls at non-decreasing times. -/
theorem mrc_reports (clk : Clock) (calls : List Call) (halloc : ∀ c ∈ calls, c.alloc = true)
    (htime : calls.Pairwise fun c d => c.time ≤ d.time) :
    (∃ m, cacheAfter clk calls = some m ∧ ∀ j, ∃ L : List Call,
      m j = L.map (entryOf clk) ∧ L.length ≤ queueMaxLen ∧
      L.Sublist (news (rtwMrcInit clk true) calls).reverse ∧ (∀ c ∈ L, idx c.seq = j) ∧
      L.Pairwise fun c d => d.time ≤ c.time) ∧
    (∀ pre a mid b post, calls = pre ++ a :: mid ++ b :: post → b.pair = a.pair →
      b.time ≤ a.time + clk.timeout → ReportedNew clk pre a →
      (otherNews (cacheAfter clk (pre ++ [a])) a mid).card < queueMaxLen - 1 →
      ¬ ReportedNew clk (pre ++ a :: mid) b) ∧
    (∀ pre b post, calls = pre ++ b :: post → (∀ c ∈ pre, c.pair ≠ b.pair) →
      ReportedNew clk pre b) := by
  refine ⟨?_, ?_, ?_⟩
  · obtain ⟨m, hcache, htracks⟩ := cacheAfter_tracks clk calls halloc
    refine ⟨m, hcache, fun j => ?_⟩
    obtain ⟨L, hm, hlen, hL, hidx⟩ := htracks j
    refine ⟨L, hm, hlen, hL, hidx, ?_⟩
    have hsub := hL.trans (news_sublist (rtwMrcInit clk true) calls).reverse
    exact (List.pairwise_reverse.2 htime).sublist hsub
  · rintro pre a mid b post rfl hpair hwithin hnew hfew
    refine not_reportedNew (fun c hc => halloc c ?_) ?_ hpair hwithin hnew hfew
    · rcases List.mem_cons.1 hc with rfl | hc <;> simp [*]
    · refine htime.sublist ?_
      rw [List.append_assoc, List.cons_append]
      refine List.Sublist.trans ?_ (List.sublist_append_right pre _)
      refine List.Sublist.cons_cons a ((List.Sublist.refl mid).append ?_)
      exact List.Sublist.cons_cons b (List.nil_sublist post)
  · rintro pre b post rfl hunseen
    exact reportedNew_of_unseen (fun c hc => halloc c (by simp [hc])) hunseen

/-- A 32-bit clock of 250 ticks a second. -/
def clock250 : Clock := ⟨32, 750, by decide⟩

/-- A frame, another one of its bucket, and the first one again, with the clock about to wrap. -/
def repeated : List Call :=
  [⟨4294967290, Mac.broadcast, 5, true⟩, ⟨4294967295, Mac.zero, 261, true⟩,
    ⟨4294967300, Mac.broadcast, 5, true⟩]

theorem mrc_reports_repeated :
    repeated = [] ++ repeated[0] :: [repeated[1]] ++ repeated[2] :: [] ∧
      ¬ ReportedNew clock250 ([] ++ repeated[0] :: [repeated[1]]) repeated[2] :=
  ⟨rfl, (mrc_reports clock250 repeated (by decide) (by decide)).2.1 [] repeated[0] [repeated[1]]
    repeated[2] [] rfl rfl (by decide) (by unfold ReportedNew; decide) (by decide)⟩

end Rtl8821cu.MeshMrc
