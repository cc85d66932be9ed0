import Mathlib

/-! The channel lists of a P2P negotiation (`core/rtw_p2p.c`): the list of the peer, the channels
that are also in the local set, and whether the negotiation goes on. -/
namespace Rtl8821cu.P2pChannels

def subU8 (a b : ℕ) : ℕ := (a + 256 - b % 256) % 256

/-- The `for` loop of `rtw_p2p_get_peer_ch_list`, for `n` channels from `p` on; nothing where a byte
outside of the attribute is read or one outside of the list is written. -/
def copyChannels (content : List ℕ) : ℕ → ℕ → ℕ → List ℕ → Option (List ℕ × ℕ)
  | 0, _, j, peer => some (peer, j)
  | n + 1, p, j, peer => do
    let b ← content[p]?
    if j < peer.length then copyChannels content n (p + 1) ((j + 1) % 256) (peer.set j b) else none

/-- The `while` loop of `rtw_p2p_get_peer_ch_list`, for as many turns as are allowed: `ch_no`, `j`
and the list. -/
def peerChLoop (content : List ℕ) : ℕ → ℕ → ℕ → ℕ → ℕ → List ℕ → Option (ℕ × ℕ × List ℕ)
  | 0, _, _, _, _, _ => none
  | turns + 1, p, chCnt, j, chNo, peer =>
    if chCnt = 0 then some (chNo, j, peer)
    else do
      let temp ← content[p + 1]?
      let (peer, j) ← copyChannels content temp (p + 2) j peer
      peerChLoop content turns (p + 1 + (temp + 1)) (subU8 (subU8 chCnt 1) (temp + 1)) j
        ((chNo + temp) % 256) peer

def rtwP2pGetPeerChList (turns : ℕ) (content peer : List ℕ) : Option (ℕ × ℕ × List ℕ) :=
  peerChLoop content turns 3 (subU8 (content.length % 256) 3) 0 0 peer

/-- The inner loop of `rtw_p2p_ch_inclusion`: where the channel is in the set, from `temp` on. -/
def chSearch (set : List ℕ) (c temp : ℕ) : Option ℕ :=
  ((set.drop temp).findIdx? (· == c)).map (temp + ·)

def rtwP2pChInclusion (set : List ℕ) : ℕ → List ℕ → List ℕ
  | _, [] => []
  | temp, c :: cs =>
    match chSearch set c temp with
    | some j => c :: rtwP2pChInclusion set j cs
    | none => rtwP2pChInclusion set temp cs

/-- What a negotiation makes of a channel list: `noCommonCh` is whether it fails with
`P2P_STATUS_FAIL_NO_COMMON_CH`. -/
structure ChList where
  peerChNum : ℕ
  written : ℕ
  peerChList : List ℕ
  inclusioned : List ℕ
  noCommonCh : Bool

/-- The channel list in `process_p2p_group_negotation_req` and in
`process_p2p_group_negotation_resp`. -/
def negotiateChList (turns : ℕ) (set content : List ℕ) : Option ChList := do
  let (num, j, peer) ← rtwP2pGetPeerChList turns content (List.replicate 100 0)
  let incl := rtwP2pChInclusion set 0 (peer.take num)
  some ⟨num, j, peer, incl, incl.length % 256 == 0⟩

/-- Entries of an operating class, the number of channels and the channels. -/
inductive Entries : List ℕ → List ℕ → Prop
  | nil : Entries [] []
  | cons (cls : ℕ) (chs : List ℕ) {bytes rest : List ℕ} (h : Entries bytes rest) :
      Entries (cls :: chs.length :: (chs ++ bytes)) (chs ++ rest)

/-- The attribute lists the channels: three bytes of the country, and entries. -/
structure Lists (content chs : List ℕ) : Prop where
  country : 3 ≤ content.length
  entries : Entries (content.drop 3) chs

/-- The channels stand in the set, none before the one that precedes it. -/
def InOrder (set : List ℕ) : ℕ → List ℕ → Prop
  | _, [] => True
  | temp, c :: cs => ∃ j, temp ≤ j ∧ set[j]? = some c ∧ InOrder set j cs

theorem subU8_of_le {a b : ℕ} (hle : b ≤ a) (ha : a < 256) : subU8 a b = a - b := by
  rw [subU8, Nat.mod_eq_of_lt (hle.trans_lt ha), show a + 256 - b = a - b + 256 by omega,
    Nat.add_mod_right, Nat.mod_eq_of_lt (by omega)]

/-- An entry of `n` channels is taken off the bytes that are left. -/
theorem subU8_entry {c n : ℕ} (hle : n + 2 ≤ c) (hc : c < 256) :
    subU8 (subU8 c 1) (n + 1) = c - (n + 2) := by
  have hcls : subU8 c 1 = c - 1 := subU8_of_le (by omega) hc
  have hchs : subU8 (c - 1) (n + 1) = c - 1 - (n + 1) := subU8_of_le (by omega) (by omega)
  rw [hcls, hchs]
  omega

section List

variable {content written rest body chs : List ℕ} {n p turns : ℕ}

theorem copyChannels_eq (hp : p + n ≤ content.length) (hn : n ≤ rest.length)
    (hlt : written.length + n < 256) :
    copyChannels content n p written.length (written ++ rest) =
      some (written ++ (content.drop p).take n ++ rest.drop n, written.length + n) := by
  induction n generalizing p written rest with
  | zero => simp [copyChannels]
  | succ n ih =>
    cases rest with
    | nil => simp at hn
    | cons x rest =>
      have hlen : (written ++ [content[p]]).length = (written.length + 1) % 256 := by
        rw [List.length_append, List.length_singleton, Nat.mod_eq_of_lt (by omega)]
      have hset : (written ++ x :: rest).set written.length content[p] =
          written ++ [content[p]] ++ rest := by simp
      rw [List.length_cons] at hn
      rw [copyChannels, List.getElem?_eq_getElem (by omega), Option.bind_eq_bind, Option.bind_some,
        if_pos (by simp), hset, ← hlen,
        ih (by omega) (by omega) (by rw [List.length_append, List.length_singleton]; omega)]
      have htake : (content.drop p).take (n + 1) =
          content[p] :: (content.drop (p + 1)).take n := by
        rw [List.drop_eq_getElem_cons (by omega : p < content.length), List.take_succ_cons]
      simp [htake]
      omega

theorem copyChannels_inside {peer : List ℕ} {j : ℕ} {r : List ℕ × ℕ}
    (h : copyChannels content n p j peer = some r) : n = 0 ∨ p + n ≤ content.length := by
  induction n generalizing p j peer with
  | zero => exact .inl rfl
  | succ n ih =>
    rw [copyChannels] at h
    obtain ⟨b, hb, h⟩ := Option.bind_eq_some_iff.mp h
    obtain ⟨hp, -⟩ := List.getElem?_eq_some_iff.mp hb
    split_ifs at h
    have := ih h
    omega

theorem Entries.length_le (h : Entries body chs) : chs.length ≤ body.length := by
  induction h with
  | nil => rfl
  | cons cls chs h ih =>
    simp only [List.length_cons, List.length_append]
    omega

/-- The list of the peer behind what was written before, in a list of `100` bytes. -/
theorem peerChLoop_of_entries (h : Entries body chs) (hbody : content.drop p = body)
    (hrest : body.length ≤ rest.length) (hlt : written.length + body.length < 256) :
    ∃ turns, peerChLoop content turns p body.length written.length written.length
      (written ++ rest) = some ((written ++ chs).length, (written ++ chs).length,
        written ++ chs ++ rest.drop chs.length) := by
  induction h generalizing p written rest with
  | nil => exact ⟨1, by simp [peerChLoop]⟩
  | @cons cls chs bytes chs' h ih =>
    simp only [List.length_cons, List.length_append] at hrest hlt
    have hlen : content.length = p + (chs.length + bytes.length + 2) := by
      have := congrArg List.length hbody
      simp only [List.length_drop, List.length_cons, List.length_append] at this
      omega
    have hcount : content[p + 1]? = some chs.length := by
      rw [← List.getElem?_drop, hbody]
      rfl
    have hchs : (content.drop (p + 2)).take chs.length = chs := by
      rw [← List.drop_drop, hbody]
      simp
    have hdrop : content.drop (p + 1 + (chs.length + 1)) = bytes := by
      rw [show p + 1 + (chs.length + 1) = p + (2 + chs.length) by omega, ← List.drop_drop, hbody,
        ← List.drop_drop]
      simp
    obtain ⟨turns, hturns⟩ := @ih (written ++ chs) (rest.drop chs.length)
      (p + 1 + (chs.length + 1)) hdrop (by rw [List.length_drop]; omega)
      (by rw [List.length_append]; omega)
    have hcnt : subU8 (subU8 (chs.length + bytes.length + 1 + 1) 1) (chs.length + 1) =
        bytes.length := by
      rw [subU8_entry (by omega) (by omega)]
      omega
    refine ⟨turns + 1, ?_⟩
    rw [peerChLoop, if_neg (by simp), hcount, Option.bind_eq_bind, Option.bind_some,
      copyChannels_eq (by omega) (by omega) (by omega), hchs]
    simp only [List.length_cons, List.length_append, Option.bind_eq_bind, Option.bind_some, hcnt]
    rw [Nat.mod_eq_of_lt (by omega), ← List.length_append, hturns]
    simp

/-- A loop that ends without a fault has read entries. -/
theorem entries_of_peerChLoop {r : ℕ × ℕ × List ℕ} (hbody : content.drop p = body)
    (hrest : body.length ≤ rest.length) (hlt : written.length + body.length < 256)
    (h : peerChLoop content turns p body.length written.length written.length (written ++ rest) =
      some r) : ∃ chs, Entries body chs := by
  induction turns generalizing p written rest body with
  | zero => cases h
  | succ turns ih =>
    rw [peerChLoop] at h
    match body, hbody, hrest, hlt, h with
    | [], _, _, _, _ => exact ⟨[], .nil⟩
    | [x], hbody, _, _, h =>
      have hnone : content[p + 1]? = none := by
        rw [← List.getElem?_drop, hbody]
        rfl
      simp [hnone] at h
    | cls :: n :: tail, hbody, hrest, hlt, h =>
      simp only [List.length_cons] at hrest hlt
      have hlen : content.length = p + (tail.length + 2) := by
        have := congrArg List.length hbody
        simp only [List.length_drop, List.length_cons] at this
        omega
      have hcount : content[p + 1]? = some n := by
        rw [← List.getElem?_drop, hbody]
        rfl
      rw [if_neg (by simp), hcount, Option.bind_eq_bind, Option.bind_some] at h
      have hn : n ≤ tail.length := by
        obtain ⟨r', hr', -⟩ := Option.bind_eq_some_iff.mp h
        have := copyChannels_inside hr'
        omega
      have htail : content.drop (p + 2) = tail := by
        rw [← List.drop_drop, hbody]
        rfl
      have hdrop : content.drop (p + 1 + (n + 1)) = tail.drop n := by
        rw [show p + 1 + (n + 1) = p + 2 + n by omega, ← List.drop_drop, htail]
      have hcnt : subU8 (subU8 (tail.length + 1 + 1) 1) (n + 1) = (tail.drop n).length := by
        rw [subU8_entry (by omega) (by omega), List.length_drop]
        omega
      have hwritten : written.length + n = (written ++ tail.take n).length := by
        rw [List.length_append, List.length_take, min_eq_left hn]
      rw [copyChannels_eq (by omega) (by omega) (by omega), htail] at h
      simp only [List.length_cons, Option.bind_eq_bind, Option.bind_some, hcnt] at h
      rw [Nat.mod_eq_of_lt (by omega), hwritten] at h
      obtain ⟨chs, hchs⟩ := ih hdrop (by simp only [List.length_drop]; omega)
        (by rw [← hwritten, List.length_drop]; omega) h
      refine ⟨tail.take n ++ chs, ?_⟩
      have := Entries.cons cls (tail.take n) hchs
      rwa [List.length_take, min_eq_left hn, List.take_append_drop] at this

/-- An attribute that is read without a fault lists channels. -/
theorem lists_of_rtwP2pGetPeerChList (hlen : content.length ≤ 100) {r : ℕ × ℕ × List ℕ}
    (h : rtwP2pGetPeerChList turns content (List.replicate 100 0) = some r) :
    ∃ chs, Lists content chs := by
  unfold rtwP2pGetPeerChList at h
  by_cases hcountry : 3 ≤ content.length
  · have hcnt : subU8 (content.length % 256) 3 = (content.drop 3).length := by
      rw [Nat.mod_eq_of_lt (by omega), subU8_of_le hcountry (by omega), List.length_drop]
    rw [hcnt] at h
    obtain ⟨chs, hchs⟩ := @entries_of_peerChLoop content [] (List.replicate 100 0) _ 3 turns r rfl
      (by rw [List.length_drop, List.length_replicate]; omega) (by simp; omega) h
    exact ⟨chs, hcountry, hchs⟩
  · cases turns with
    | zero => cases h
    | succ turns =>
      have hnone : content[3 + 1]? = none := List.getElem?_eq_none (by omega)
      have hcnt : subU8 (content.length % 256) 3 ≠ 0 := by
        unfold subU8
        omega
      rw [peerChLoop, if_neg hcnt, hnone] at h
      cases h

theorem rtwP2pGetPeerChList_of_lists (hlen : content.length ≤ 100) (h : Lists content chs) :
    ∃ turns, rtwP2pGetPeerChList turns content (List.replicate 100 0) =
      some (chs.length, chs.length, chs ++ List.replicate (100 - chs.length) 0) := by
  have hcountry := h.country
  have hcnt : subU8 (content.length % 256) 3 = (content.drop 3).length := by
    rw [Nat.mod_eq_of_lt (by omega), subU8_of_le hcountry (by omega), List.length_drop]
  obtain ⟨turns, hturns⟩ := @peerChLoop_of_entries content [] (List.replicate 100 0) _ chs 3
    h.entries rfl (by rw [List.length_drop, List.length_replicate]; omega) (by simp; omega)
  refine ⟨turns, ?_⟩
  rw [rtwP2pGetPeerChList, hcnt]
  simpa only [List.nil_append, List.length_nil, List.drop_replicate] using hturns

theorem Entries.unique {chs' : List ℕ} (h : Entries body chs) (h' : Entries body chs') :
    chs = chs' := by
  induction h generalizing chs' with
  | nil =>
    cases h'
    rfl
  | @cons cls chs bytes rest h ih =>
    generalize hb : cls :: chs.length :: (chs ++ bytes) = body at h'
    cases h' with
    | nil => cases hb
    | @cons cls' ys bytes' rest' h' =>
      obtain ⟨-, hb⟩ := List.cons.inj hb
      obtain ⟨hlen, hb⟩ := List.cons.inj hb
      obtain ⟨rfl, rfl⟩ := List.append_inj hb hlen
      rw [ih h']

end List

section Inclusion

variable {set cs : List ℕ} {c j j' temp : ℕ}

theorem InOrder.mono (h : InOrder set j cs) (hle : j' ≤ j) : InOrder set j' cs := by
  cases cs with
  | nil => trivial
  | cons c cs =>
    obtain ⟨i, hi, hc, hrest⟩ := h
    exact ⟨i, hle.trans hi, hc, hrest⟩

/-- The search finds the first place of the channel, from `temp` on. -/
theorem chSearch_some (h : chSearch set c temp = some j) :
    temp ≤ j ∧ set[j]? = some c ∧ ∀ i, temp ≤ i → set[i]? = some c → j ≤ i := by
  obtain ⟨k, hk, rfl⟩ := Option.map_eq_some_iff.mp h
  obtain ⟨hlt, hat, hfirst⟩ := List.findIdx?_eq_some_iff_getElem.mp hk
  refine ⟨Nat.le_add_right _ _, ?_, fun i hi hc => ?_⟩
  · rw [← List.getElem?_drop, List.getElem?_eq_getElem hlt]
    exact congrArg some (by simpa using hat)
  · by_contra hlt'
    have hik : i - temp < k := by omega
    refine hfirst (i - temp) hik ?_
    have hget : (set.drop temp)[i - temp]? = some c := by
      rw [List.getElem?_drop, show temp + (i - temp) = i by omega, hc]
    rw [List.getElem?_eq_getElem (by omega)] at hget
    simpa using hget

theorem chSearch_none (h : chSearch set c temp = none) {i : ℕ} (hi : temp ≤ i) :
    set[i]? ≠ some c := by
  intro hc
  have hnone := List.findIdx?_eq_none_iff.mp (Option.map_eq_none_iff.mp h)
  have hget : (set.drop temp)[i - temp]? = some c := by
    rw [List.getElem?_drop, show temp + (i - temp) = i by omega, hc]
  simpa using hnone c (List.mem_of_getElem? hget)

theorem chSearch_of_not_mem (h : c ∉ set) (temp : ℕ) : chSearch set c temp = none := by
  cases hs : chSearch set c temp with
  | none => rfl
  | some j => exact absurd (List.mem_of_getElem? (chSearch_some hs).2.1) h

theorem chInclusion_length_le (set cs : List ℕ) (temp : ℕ) :
    (rtwP2pChInclusion set temp cs).length ≤ (cs.filter (· ∈ set)).length := by
  induction cs generalizing temp with
  | nil => rfl
  | cons c cs ih =>
    rw [rtwP2pChInclusion]
    cases hs : chSearch set c temp with
    | some j =>
      rw [List.filter_cons_of_pos (by simpa using List.mem_of_getElem? (chSearch_some hs).2.1)]
      exact Nat.succ_le_succ (ih j)
    | none =>
      refine (ih temp).trans ?_
      rw [List.filter_cons]
      split_ifs
      · exact Nat.le_succ _
      · exact le_rfl

/-- The search from the last match finds every common channel just when none of them stands before
the one that precedes it. -/
theorem chInclusion_eq_filter_iff (set cs : List ℕ) (temp : ℕ) :
    rtwP2pChInclusion set temp cs = cs.filter (· ∈ set) ↔
      InOrder set temp (cs.filter (· ∈ set)) := by
  induction cs generalizing temp with
  | nil => exact iff_of_true rfl trivial
  | cons c cs ih =>
    rw [rtwP2pChInclusion]
    by_cases hc : c ∈ set
    · rw [List.filter_cons_of_pos (by simpa using hc)]
      cases hs : chSearch set c temp with
      | some j =>
        obtain ⟨hj, hat, hfirst⟩ := chSearch_some hs
        dsimp only
        rw [List.cons_inj_right, ih j]
        constructor
        · intro h
          exact ⟨j, hj, hat, h⟩
        · rintro ⟨i, hi, hci, h⟩
          exact h.mono (hfirst i hi hci)
      | none =>
        dsimp only
        refine iff_of_false (fun h => ?_) ?_
        · have hle := chInclusion_length_le set cs temp
          rw [h, List.length_cons] at hle
          omega
        · rintro ⟨i, hi, hci, -⟩
          exact chSearch_none hs hi hci
    · rw [List.filter_cons_of_neg (by simpa using hc), chSearch_of_not_mem hc]
      exact ih temp

/-- The first common channel is always found. -/
theorem mem_of_chInclusion_nil (h : rtwP2pChInclusion set 0 cs = []) : ∀ c ∈ cs, c ∉ set := by
  induction cs with
  | nil => simp
  | cons c cs ih =>
    rw [rtwP2pChInclusion] at h
    cases hs : chSearch set c 0 with
    | some j =>
      rw [hs] at h
      cases h
    | none =>
      rw [hs] at h
      intro x hx hset
      rcases List.mem_cons.mp hx with rfl | hx
      · obtain ⟨i, hi⟩ := List.getElem?_of_mem hset
        exact chSearch_none hs (Nat.zero_le i) hi
      · exact ih h x hx hset

end Inclusion

/-- The channels listed are written, those of the local set are the ones included, and the
negotiation fails for want of a common channel only where there is none. -/
structure Intersected (set content : List ℕ) (r : ChList) : Prop where
  number : r.peerChNum = r.written
  listed : ∀ chs, Lists content chs → r.peerChList.take r.peerChNum = chs
  inclusioned : r.inclusioned = (r.peerChList.take r.peerChNum).filter (· ∈ set)
  noCommonCh : r.noCommonCh = true → ∀ c ∈ r.peerChList.take r.peerChNum, c ∉ set

theorem negotiateChList_of_lists {set content chs : List ℕ} (hlen : content.length ≤ 100)
    (h : Lists content chs) : ∃ turns, negotiateChList turns set content =
      some ⟨chs.length, chs.length, chs ++ List.replicate (100 - chs.length) 0,
        rtwP2pChInclusion set 0 chs, (rtwP2pChInclusion set 0 chs).length % 256 == 0⟩ := by
  obtain ⟨turns, hturns⟩ := rtwP2pGetPeerChList_of_lists hlen h
  refine ⟨turns, ?_⟩
  rw [negotiateChList, hturns]
  simp

/-- A channel list is parsed inside its attribute and intersected just when the attribute is well
formed and the common channels stand in the local set in the order of the peer. -/
theorem negotiateChList_iff (set content : List ℕ) (hlen : content.length ≤ 100) :
    (∃ turns r, negotiateChList turns set content = some r ∧ Intersected set content r) ↔
      ∃ chs, Lists content chs ∧ InOrder set 0 (chs.filter (· ∈ set)) := by
  constructor
  · rintro ⟨turns, r, hr, h⟩
    obtain ⟨l, hl, -⟩ := Option.bind_eq_some_iff.mp hr
    obtain ⟨chs, hchs⟩ := lists_of_rtwP2pGetPeerChList hlen hl
    refine ⟨chs, hchs, ?_⟩
    have hlisted := h.listed chs hchs
    have hincl := h.inclusioned
    rw [hlisted] at hincl
    rw [← chInclusion_eq_filter_iff, ← hincl, ← hlisted]
    obtain ⟨num, j, peer⟩ := l
    rw [negotiateChList, hl] at hr
    cases hr
    rfl
  · rintro ⟨chs, hchs, horder⟩
    obtain ⟨turns, hturns⟩ := @negotiateChList_of_lists set content chs hlen hchs
    have htake : (chs ++ List.replicate (100 - chs.length) 0).take chs.length = chs := by simp
    refine ⟨turns, _, hturns, rfl, fun chs' h' => ?_, ?_, fun hnone => ?_⟩
    · rw [htake, hchs.entries.unique h'.entries]
    · rw [htake]
      exact (chInclusion_eq_filter_iff set chs 0).mpr horder
    · have hle : (rtwP2pChInclusion set 0 chs).length < 256 := by
        have hfilter := List.length_filter_le (· ∈ set) chs
        have := chInclusion_length_le set chs 0
        have := hchs.entries.length_le
        rw [List.length_drop] at this
        omega
      rw [htake]
      refine mem_of_chInclusion_nil (List.length_eq_zero_iff.mp ?_)
      rw [← Nat.mod_eq_of_lt hle]
      simpa using hnone

theorem lists_country (chs : List ℕ) : Lists (88 :: 88 :: 4 :: 81 :: chs.length :: chs) chs := by
  have h := Entries.cons 81 chs .nil
  rw [List.append_nil] at h
  exact ⟨by simp, h⟩

theorem sortedList_intersected :
    ∃ turns r, negotiateChList turns [1, 6, 11] [88, 88, 4, 81, 3, 1, 5, 11] = some r ∧
      Intersected [1, 6, 11] [88, 88, 4, 81, 3, 1, 5, 11] r :=
  (negotiateChList_iff [1, 6, 11] [88, 88, 4, 81, 3, 1, 5, 11] (by decide)).mpr
    ⟨[1, 5, 11], lists_country [1, 5, 11], 0, by decide, rfl, 2, by decide, rfl, trivial⟩

/-- A peer that lists the channel 6 before the channel 1. -/
theorem unsortedList_not_intersected :
    ¬∃ turns r, negotiateChList turns [1, 6, 11] [88, 88, 4, 81, 2, 6, 1] = some r ∧
      Intersected [1, 6, 11] [88, 88, 4, 81, 2, 6, 1] r := by
  rintro ⟨turns, r, hr, h⟩
  obtain ⟨l, hl, hrest⟩ := Option.bind_eq_some_iff.mp hr
  have hlisted := h.listed [6, 1] (lists_country [6, 1])
  have hincl := h.inclusioned
  cases hrest
  dsimp only at hlisted hincl
  rw [hlisted] at hincl
  exact absurd hincl (by decide)

end Rtl8821cu.P2pChannels
