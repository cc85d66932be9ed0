import Rtl8821cu.BcnEdit

/-! When the beacon with an element put in or taken out is the list that it should be. -/
namespace Rtl8821cu.BcnEdit
open Store Elements Ies AbsorbSsid TimIe

section Tail

variable {rtwMalloc : ℕ → Bool} {n : BssidEx} {l front behind r : List Element} {old e : Element}
  {index : BitVec 8} {ie : List (BitVec 8)} {d k m : ℕ}

/-- The area after the end of the routines. -/
theorem holdsAt_rewriteTail (rtwMalloc : ℕ → Bool) (ie : List (BitVec 8)) (k m : ℕ)
    (h : Lists n l) (hd : d ≤ (encode l).length) :
    HoldsAt (rewriteTail rtwMalloc n (fixedIeLength + d) k m ie ie.length).ies fixedIeLength
      ((encode l).take d ++ (ie ++ moved rtwMalloc n (fixedIeLength + d + ie.length) k m)) := by
  have hfront := (holdsAt_append.mp (by rw [List.take_append_drop]; exact h.holds :
    HoldsAt n.ies fixedIeLength ((encode l).take d ++ (encode l).drop d))).1
  have hlen : ((encode l).take d).length = d := by
    rw [List.length_take]
    omega
  rw [holdsAt_append, holdsAt_append, hlen]
  dsimp only [rewriteTail]
  split_ifs with hsaved
  · rw [moved, if_pos hsaved.2]
    refine ⟨(hfront.store_behind (by omega) _).store_behind (by omega) _, ?_, holdsAt_store _ _ _⟩
    exact (holdsAt_store _ _ _).store_behind le_rfl _
  · refine ⟨hfront.store_behind (by omega) _, holdsAt_store _ _ _, ?_⟩
    rw [moved]
    split_ifs with hmalloc
    · obtain rfl : m = 0 := by
        by_contra hm
        exact hsaved ⟨Nat.pos_of_ne_zero hm, hmalloc⟩
      exact holdsAt_nil _ _
    · exact (holdsAt_load _ _ _).congr fun i hi _ ↦ store_of_ge n.ies ie hi

theorem rewriteTail_of_lt {i dst k m len : ℕ} (hi : i < dst) :
    (rewriteTail rtwMalloc n dst k m ie len).ies i = n.ies i := by
  dsimp only [rewriteTail]
  split_ifs
  · rw [store_of_lt _ _ (by omega), store_of_lt _ _ hi]
  · exact store_of_lt _ _ hi

/-- The area is a list when its bytes are those of the list. -/
theorem rewriteTail_yields_iff (h : Lists n l) (hd : d ≤ (encode l).length)
    (hm : m ≤ (encode l).length) (hie : ie.length ≤ 257) :
    Yields n (rewriteTail rtwMalloc n (fixedIeLength + d) k m ie ie.length) r ↔
      encode r = (encode l).take d ++
        (ie ++ moved rtwMalloc n (fixedIeLength + d + ie.length) k m) ∧
      fixedIeLength + (encode r).length ≤ maxIeSz := by
  have hle := h.length_le
  rw [h.ieLength, maxIeSz] at hle
  have harea := holdsAt_rewriteTail rtwMalloc ie k m h hd
  have hlen : ((encode l).take d ++
      (ie ++ moved rtwMalloc n (fixedIeLength + d + ie.length) k m)).length =
      d + ie.length + m := by
    rw [List.length_append, List.length_append, List.length_take, length_moved]
    omega
  have hieLength : (rewriteTail rtwMalloc n (fixedIeLength + d) k m ie ie.length).ieLength =
      fixedIeLength + (d + ie.length + m) := by
    show (fixedIeLength + d + ie.length + m) % 2 ^ 32 = _
    omega
  constructor
  · rintro ⟨⟨hr, hsz, hholds⟩, -⟩
    have hlenr : (encode r).length = d + ie.length + m := by omega
    refine ⟨?_, by omega⟩
    rw [← load_of_holdsAt hholds, ← load_of_holdsAt harea, hlen, hlenr]
  · rintro ⟨hr, hsz⟩
    rw [← hlen, ← hr] at hieLength
    refine ⟨⟨hieLength, by omega, ?_⟩, fun i hi ↦ rewriteTail_of_lt (by omega)⟩
    rw [hr]
    exact harea

/-- What is behind the elements `x` can be saved, or stands already where `len` bytes in their place
put it. -/
def BackedAt (rtwMalloc : ℕ → Bool) (n : BssidEx) (front x : List Element) (len : ℕ)
    (behind : List Element) : Prop :=
  Backed rtwMalloc n (fixedIeLength + (encode front).length + len)
    (fixedIeLength + (encode front).length + (encode x).length) (encode behind).length

/-- The area of the list is inside `IEs`. -/
def Fits (r : List Element) : Prop := fixedIeLength + (encode r).length ≤ maxIeSz

variable {x : List Element}

theorem moved_eq_encode_iff {len : ℕ} (h : Lists n (front ++ (x ++ behind))) :
    moved rtwMalloc n (fixedIeLength + (encode front).length + len)
      (fixedIeLength + (encode front).length + (encode x).length) (encode behind).length =
      encode behind ↔ BackedAt rtwMalloc n front x len behind := by
  have hholds := h.holds
  rw [encode_append, encode_append, holdsAt_append, holdsAt_append] at hholds
  rw [BackedAt, ← moved_eq_iff, load_of_holdsAt hholds.2.2]

/-- Elements are replaced by the bytes of others. -/
theorem replace_yields_iff {y : List Element} (h : Lists n (front ++ (x ++ behind)))
    (hy : (encode y).length ≤ 257) :
    Yields n (rewriteTail rtwMalloc n (fixedIeLength + (encode front).length)
        (fixedIeLength + (encode front).length + (encode x).length) (encode behind).length
        (encode y) (encode y).length) (front ++ (y ++ behind)) ↔
      BackedAt rtwMalloc n front x (encode y).length behind ∧ Fits (front ++ (y ++ behind)) := by
  have hencode : encode (front ++ (x ++ behind)) = encode front ++ (encode x ++ encode behind) := by
    rw [encode_append, encode_append]
  have hlen := congrArg List.length hencode
  rw [List.length_append, List.length_append] at hlen
  rw [rewriteTail_yields_iff h (by omega) (by omega) hy, hencode, List.take_left, encode_append,
    encode_append, List.append_cancel_left_eq, List.append_cancel_left_eq, eq_comm,
    moved_eq_encode_iff h]
  rw [Fits, encode_append, encode_append]

/-- Bytes in the place of elements are no other list that has an element put in between. -/
theorem insert_unique {front' behind' : List Element} {tail : List (BitVec 8)}
    (hnone : ∀ x ∈ l, x.id ≠ e.id) (hl : l = front ++ behind) (hl' : l = front' ++ behind')
    (h : encode (front' ++ e :: behind') = encode front ++ (e.bytes ++ tail)) :
    front' = front := by
  rw [encode_append, encode_cons] at h
  have hsplit : front ++ behind = front' ++ behind' := hl.symm.trans hl'
  rcases List.append_eq_append_iff.mp hsplit with ⟨c, rfl, rfl⟩ | ⟨c, rfl, rfl⟩
  · cases c with
    | nil => exact List.append_nil front
    | cons x c =>
      rw [encode_append, encode_cons, List.append_assoc, List.append_cancel_left_eq] at h
      exact absurd (List.cons.inj h).1 (hnone x (by rw [hl]; simp))
  · cases c with
    | nil => exact (List.append_nil front').symm
    | cons x c =>
      rw [encode_append front', encode_cons, List.append_assoc, List.append_cancel_left_eq] at h
      exact absurd (List.cons.inj h).1.symm (hnone x (by rw [hl]; simp))

/-- An element is put in between two others. -/
theorem insert_yields_iff (h : Lists n l) (hl : l = front ++ behind)
    (hnone : ∀ x ∈ l, x.id ≠ e.id) :
    (∃ r, Put l e r ∧ Yields n (rewriteTail rtwMalloc n (fixedIeLength + (encode front).length)
        (fixedIeLength + (encode front).length) (encode behind).length e.bytes e.bytes.length) r) ↔
      BackedAt rtwMalloc n front [] e.bytes.length behind ∧ Fits (front ++ e :: behind) := by
  have hbytes : encode [e] = e.bytes := by rw [encode_cons, encode_nil, List.append_nil]
  have hle : e.bytes.length ≤ 257 := by
    have := e.length_le
    rw [length_bytes]
    omega
  have hreplace := @replace_yields_iff rtwMalloc n front behind [] [e]
    (by rwa [List.nil_append, ← hl]) (by rwa [hbytes])
  rw [hbytes, encode_nil, List.length_nil, Nat.add_zero] at hreplace
  constructor
  · rintro ⟨r, hput, hyields⟩
    obtain ⟨front', behind', hl', rfl⟩ := (put_iff_of_none hnone).mp hput
    have hlen := congrArg List.length (congrArg encode hl)
    rw [encode_append, List.length_append] at hlen
    have hbytes := ((rewriteTail_yields_iff h (by omega) (by omega) hle).mp hyields).1
    rw [hl, encode_append front, List.take_left] at hbytes
    obtain rfl := insert_unique hnone hl hl' hbytes
    obtain rfl := List.append_cancel_left (hl.symm.trans hl')
    exact hreplace.mp hyields
  · intro hcond
    exact ⟨_, (put_iff_of_none hnone).mpr ⟨front, behind, hl, rfl⟩, hreplace.mpr hcond⟩

/-- An element takes the place of the first one with its id. -/
theorem put_yields_iff (h : Lists n l) (hfirst : First l e.id front old behind) :
    (∃ r, Put l e r ∧ Yields n (rewriteTail rtwMalloc n (fixedIeLength + (encode front).length)
        (fixedIeLength + (encode front).length + (old.body.length + 2)) (encode behind).length
        e.bytes e.bytes.length) r) ↔
      BackedAt rtwMalloc n front [old] e.bytes.length behind ∧ Fits (front ++ e :: behind) := by
  have hbytes : ∀ x : Element, encode [x] = x.bytes := fun x ↦ by
    rw [encode_cons, encode_nil, List.append_nil]
  have hle : e.bytes.length ≤ 257 := by
    have := e.length_le
    rw [length_bytes]
    omega
  have hreplace := @replace_yields_iff rtwMalloc n front behind [old] [e]
    (by rw [List.singleton_append, ← hfirst.split]; exact h) (by rwa [hbytes])
  rw [hbytes, hbytes, length_bytes old] at hreplace
  simp only [hfirst.put_iff, exists_eq_left]
  exact hreplace

/-- The first element with an id is taken out. -/
theorem dropped_yields_iff (h : Lists n l) (hfirst : First l index front old behind) :
    (∃ r, Dropped l index r ∧ Yields n (rewriteTail rtwMalloc n
        (fixedIeLength + (encode front).length)
        (fixedIeLength + (encode front).length + (old.body.length + 2)) (encode behind).length
        [] 0) r) ↔ BackedAt rtwMalloc n front [old] 0 behind := by
  have hbytes : encode [old] = old.bytes := by rw [encode_cons, encode_nil, List.append_nil]
  have hlists : Lists n (front ++ ([old] ++ behind)) := by
    rw [List.singleton_append, ← hfirst.split]
    exact h
  have hreplace := @replace_yields_iff rtwMalloc n front behind [old] [] hlists (by simp)
  have hfits : Fits (front ++ behind) := by
    have hle := h.length_le
    rw [h.ieLength, hfirst.split, encode_append, encode_cons, List.length_append,
      List.length_append] at hle
    rw [Fits, encode_append, List.length_append]
    omega
  rw [hbytes, length_bytes, List.nil_append] at hreplace
  simp only [hfirst.dropped_iff, exists_eq_left]
  exact hreplace.trans (and_iff_left hfits)

end Tail

section Edits

variable {rtwMalloc : ℕ → Bool} {n : BssidEx} {l front behind r : List Element} {old e : Element}
  {index : BitVec 8}

theorem rtwGetIe_first (h : Lists n l) (hfirst : First l index front old behind) :
    rtwGetIe n.ies fixedIeLength index (n.ieLength - fixedIeLength) =
      some (fixedIeLength + (encode front).length, old.body.length) := by
  have hholds := h.holds
  rw [hfirst.split] at hholds
  have hlen := h.ieLength
  rw [hfirst.split, encode_append, encode_cons, List.length_append, List.length_append,
    length_bytes] at hlen
  exact rtwGetIe_of_holdsAt hholds hfirst.front hfirst.old (by omega)

theorem rtwGetIe_none (h : Lists n l) (hnone : ∀ x ∈ l, x.id ≠ index) :
    rtwGetIe n.ies fixedIeLength index (n.ieLength - fixedIeLength) = none := by
  rw [h.ieLength, Nat.add_sub_cancel_left]
  exact rtwGetIe_of_none h.holds hnone

theorem uintSub_first (h : Lists n l) (hfirst : First l index front old behind) :
    uintSub n.ieLength (fixedIeLength + (encode front).length + (old.body.length + 2)) =
      (encode behind).length := by
  have hle := h.length_le
  have hlen := h.ieLength
  rw [hfirst.split, encode_append, encode_cons, List.length_append, List.length_append,
    length_bytes] at hlen
  rw [maxIeSz] at hle
  rw [uintSub]
  omega

/-- What `rtw_remove_bcn_ie` leaves behind. -/
theorem rtwRemoveBcnIe_iff (h : Lists n l) (index : BitVec 8) :
    (∃ r, Dropped l index r ∧ Yields n (rtwRemoveBcnIe rtwMalloc n index) r) ↔
      (∀ x ∈ l, x.id ≠ index) ∨ ∃ front old behind, First l index front old behind ∧
        old.body ≠ [] ∧ BackedAt rtwMalloc n front [old] 0 behind := by
  rcases first_or_none l index with hnone | ⟨front, old, behind, hfirst⟩
  · rw [rtwRemoveBcnIe, rtwGetIe_none h hnone]
    simp only [dropped_iff_of_none hnone, h.yields_self_iff]
    exact iff_of_true ⟨l, rfl, rfl⟩ (Or.inl hnone)
  · have hrhs : ((∀ x ∈ l, x.id ≠ index) ∨ ∃ front old behind, First l index front old behind ∧
        old.body ≠ [] ∧ BackedAt rtwMalloc n front [old] 0 behind) ↔
        old.body ≠ [] ∧ BackedAt rtwMalloc n front [old] 0 behind := by
      constructor
      · rintro (hnone | ⟨front', old', behind', hfirst', hcond⟩)
        · exact absurd hfirst (not_first_of_none hnone)
        · obtain ⟨rfl, rfl, rfl⟩ := hfirst.unique hfirst'
          exact hcond
      · exact fun hcond ↦ Or.inr ⟨front, old, behind, hfirst, hcond⟩
    rw [hrhs, rtwRemoveBcnIe, rtwGetIe_first h hfirst]
    dsimp only
    rw [uintSub_first h hfirst]
    by_cases hbody : old.body = []
    · rw [if_neg (by simp [hbody])]
      simp only [hfirst.dropped_iff, h.yields_self_iff]
      refine iff_of_false ?_ fun hcond ↦ hcond.1 hbody
      rintro ⟨r, rfl, hr⟩
      rw [hfirst.split] at hr
      have := congrArg List.length hr
      simp at this
    · rw [if_pos (List.length_pos_iff.mpr hbody), and_iff_right hbody]
      exact dropped_yields_iff h hfirst

/-- The loop of `rtw_add_bcn_ie` passes the elements with a smaller id. -/
theorem addBcnLoop_pass {i : ℕ} {s : Scan} {a : Element}
    (h : HoldsAt n.ies i (encode (front ++ a :: behind)))
    (hlen : n.ieLength = i + (encode (front ++ a :: behind)).length)
    (hfront : ∀ x ∈ front, x.id < index) (ha : a.id < index) :
    addBcnLoop n index i s =
      addBcnLoop n index (i + (encode front).length + (a.body.length + 2))
        ⟨some (i + (encode front).length), a.body.length, false⟩ := by
  induction front generalizing i s with
  | nil =>
    rw [List.nil_append] at h hlen
    rw [encode_cons, List.length_append, length_bytes] at hlen
    obtain ⟨hid, hbody, -⟩ := holdsAt_bytes (holdsAt_encode_cons.mp h).1
    rw [addBcnLoop, if_pos (by omega), hid]
    dsimp only
    rw [if_neg (by bv_omega), if_neg (by bv_omega), hbody]
    rfl
  | cons x front ih =>
    obtain ⟨hx, hfront⟩ := List.forall_mem_cons.mp hfront
    rw [List.cons_append] at h hlen
    rw [encode_cons, List.length_append, length_bytes] at hlen
    obtain ⟨hbytes, hrest⟩ := holdsAt_encode_cons.mp h
    obtain ⟨hid, hbody, -⟩ := holdsAt_bytes hbytes
    rw [addBcnLoop, if_pos (by omega), hid]
    dsimp only
    rw [if_neg (by bv_omega), if_neg (by bv_omega), hbody, ih hrest (by omega) hfront, encode_cons,
      List.length_append, length_bytes, Nat.add_assoc i]

/-- It stops where the elements have larger ids. -/
theorem addBcnLoop_stop {i : ℕ} {s : Scan} (h : HoldsAt n.ies i (encode behind))
    (hlen : n.ieLength = i + (encode behind).length) (hbehind : ∀ x ∈ behind, index < x.id) :
    addBcnLoop n index i s = s := by
  cases behind with
  | nil =>
    rw [encode_nil, List.length_nil] at hlen
    rw [addBcnLoop, if_neg (by omega)]
  | cons x behind =>
    rw [encode_cons, List.length_append, length_bytes] at hlen
    obtain ⟨hid, -, -⟩ := holdsAt_bytes (holdsAt_encode_cons.mp h).1
    rw [addBcnLoop, if_pos (by omega), hid]
    exact if_pos (hbehind x (by simp))

/-- It stops at the element. -/
theorem addBcnLoop_match {i : ℕ} {s : Scan} (h : HoldsAt n.ies i (encode (old :: behind)))
    (hlen : n.ieLength = i + (encode (old :: behind)).length) (hold : old.id = index) :
    addBcnLoop n index i s = ⟨some i, old.body.length, true⟩ := by
  rw [encode_cons, List.length_append, length_bytes] at hlen
  obtain ⟨hid, hbody, -⟩ := holdsAt_bytes (holdsAt_encode_cons.mp h).1
  rw [addBcnLoop, if_pos (by omega), hid]
  dsimp only
  rw [if_neg (by bv_omega), if_pos hold, hbody]

/-- In a sorted list the elements with smaller ids are in front. -/
theorem sorted_split (hsorted : l.Pairwise fun x y ↦ x.id ≤ y.id) (index : BitVec 8) :
    ∃ front rest, l = front ++ rest ∧ (∀ x ∈ front, x.id < index) ∧ ∀ x ∈ rest, index ≤ x.id := by
  induction l with
  | nil => exact ⟨[], [], rfl, nofun, nofun⟩
  | cons x l ih =>
    obtain ⟨hx, hl⟩ := List.pairwise_cons.mp hsorted
    by_cases hlt : x.id < index
    · obtain ⟨front, rest, rfl, hfront, hrest⟩ := ih hl
      exact ⟨x :: front, rest, rfl, List.forall_mem_cons.mpr ⟨hlt, hfront⟩, hrest⟩
    · have hle : index ≤ x.id := by bv_omega
      refine ⟨[], x :: l, rfl, nofun, List.forall_mem_cons.mpr ⟨hle, fun y hy ↦ ?_⟩⟩
      have := hx y hy
      bv_omega

/-- The element is there: it is what the loop ends with. -/
theorem scan_first (h : Lists n l) (hl : l = front ++ old :: behind)
    (hfront : ∀ x ∈ front, x.id < index) (hold : old.id = index) :
    addBcnLoop n index fixedIeLength ⟨none, 0, false⟩ =
      ⟨some (fixedIeLength + (encode front).length), old.body.length, true⟩ := by
  have hholds := h.holds
  have hlen := h.ieLength
  rw [hl] at hholds hlen
  rcases List.eq_nil_or_concat' front with rfl | ⟨front, a, rfl⟩
  · exact addBcnLoop_match hholds hlen hold
  · have ha := hfront a (by simp)
    have hpass := fun x hx ↦ hfront x (List.mem_append_left [a] hx)
    rw [List.append_assoc, List.singleton_append] at hholds hlen
    have hrest := hholds
    rw [encode_append, holdsAt_append, holdsAt_encode_cons] at hrest
    have htotal := hlen
    rw [encode_append, List.length_append, encode_cons, List.length_append, length_bytes] at htotal
    rw [addBcnLoop_pass hholds hlen hpass ha, addBcnLoop_match hrest.2.2 (by omega) hold,
      encode_append, encode_cons, List.length_append, List.length_append, length_bytes, encode_nil,
      List.length_nil]
    simp only [Nat.add_zero, Nat.add_assoc]

/-- It is not there: the loop ends with the one in front of its place. -/
theorem scan_between {a : Element} (h : Lists n l) (hl : l = front ++ a :: behind)
    (hfront : ∀ x ∈ front, x.id < index) (ha : a.id < index)
    (hbehind : ∀ x ∈ behind, index < x.id) :
    addBcnLoop n index fixedIeLength ⟨none, 0, false⟩ =
      ⟨some (fixedIeLength + (encode front).length), a.body.length, false⟩ := by
  have hholds := h.holds
  have hlen := h.ieLength
  rw [hl] at hholds hlen
  have hrest := hholds
  rw [encode_append, holdsAt_append, holdsAt_encode_cons] at hrest
  have htotal := hlen
  rw [encode_append, List.length_append, encode_cons, List.length_append, length_bytes] at htotal
  rw [addBcnLoop_pass hholds hlen hfront ha, addBcnLoop_stop hrest.2.2 (by omega) hbehind]

/-- The element is put in the place of `old`. -/
theorem rtwAddBcnIe_first (h : Lists n l) (hl : l = front ++ old :: behind)
    (hfront : ∀ x ∈ front, x.id < e.id) (hold : old.id = e.id) :
    rtwAddBcnIe rtwMalloc n e.id e.body =
      if 0 < old.body.length then
        rewriteTail rtwMalloc n (fixedIeLength + (encode front).length)
          (fixedIeLength + (encode front).length + (old.body.length + 2)) (encode behind).length
          e.bytes e.bytes.length
      else n := by
  have hfirst : First l e.id front old behind := by
    refine ⟨hl, fun x hx ↦ ?_, hold⟩
    have := hfront x hx
    bv_omega
  rw [rtwAddBcnIe, scan_first h hl hfront hold]
  dsimp only
  rw [uintSub_first h hfirst, if_pos rfl, Nat.add_comm 2]
  rfl

/-- The element is put behind `a`. -/
theorem rtwAddBcnIe_between {a : Element} (h : Lists n l) (hl : l = front ++ a :: behind)
    (hfront : ∀ x ∈ front, x.id < e.id) (ha : a.id < e.id) (hbehind : ∀ x ∈ behind, e.id < x.id) :
    rtwAddBcnIe rtwMalloc n e.id e.body =
      if 0 < a.body.length then
        rewriteTail rtwMalloc n (fixedIeLength + (encode (front ++ [a])).length)
          (fixedIeLength + (encode (front ++ [a])).length) (encode behind).length
          e.bytes e.bytes.length
      else n := by
  have hfront' : (encode (front ++ [a])).length = (encode front).length + (a.body.length + 2) := by
    rw [encode_append, encode_cons, List.length_append, List.length_append, length_bytes,
      encode_nil, List.length_nil]
  have hrest : uintSub n.ieLength
      (fixedIeLength + (encode front).length + (a.body.length + 2)) = (encode behind).length := by
    have hlen := h.ieLength
    have hle := h.length_le
    rw [hl, encode_append, encode_cons, List.length_append, List.length_append,
      length_bytes] at hlen
    rw [maxIeSz] at hle
    rw [uintSub]
    omega
  rw [rtwAddBcnIe, scan_between h hl hfront ha hbehind]
  dsimp only
  rw [hrest, hfront', if_neg Bool.false_ne_true, Nat.add_comm 2, ← Nat.add_assoc fixedIeLength]
  rfl

/-- The element, or the one that it is put behind, has a body, and the edited list fits. -/
def Addable (rtwMalloc : ℕ → Bool) (n : BssidEx) (l : List Element) (e : Element) : Prop :=
  (∃ front old behind, First l e.id front old behind ∧
    (old.body ≠ [] ∧ BackedAt rtwMalloc n front [old] e.bytes.length behind ∧
      Fits (front ++ e :: behind) ∨ old.body = [] ∧ e.body = [])) ∨
  ∃ front a behind, l = front ++ a :: behind ∧ (∀ x ∈ front, x.id < e.id) ∧ a.id < e.id ∧
    (∀ x ∈ behind, e.id < x.id) ∧ a.body ≠ [] ∧
    BackedAt rtwMalloc n (front ++ [a]) [] e.bytes.length behind ∧
    Fits (front ++ [a] ++ e :: behind)

theorem First.lt (hsorted : l.Pairwise fun x y ↦ x.id ≤ y.id)
    (hfirst : First l index front old behind) : ∀ x ∈ front, x.id < index := by
  intro x hx
  rw [hfirst.split] at hsorted
  have hle := (List.pairwise_append.mp hsorted).2.2 x hx old (by simp)
  have hne := hfirst.front x hx
  rw [hfirst.old] at hle
  bv_omega

/-- A list that stays as it is has got no new element. -/
theorem not_put_self (hnone : ∀ x ∈ l, x.id ≠ e.id) : ¬Put l e l := by
  rw [put_iff_of_none hnone]
  rintro ⟨front, behind, hl, hl'⟩
  have := congrArg List.length (hl.symm.trans hl')
  rw [List.length_append, List.length_append, List.length_cons] at this
  omega

theorem Addable.put (h : Lists n l) (hsorted : l.Pairwise fun x y ↦ x.id ≤ y.id)
    (hadd : Addable rtwMalloc n l e) :
    ∃ r, Put l e r ∧ Yields n (rtwAddBcnIe rtwMalloc n e.id e.body) r := by
  rcases hadd with ⟨front, old, behind, hfirst, ⟨hbody, hcond⟩ | ⟨hbody, hdata⟩⟩ |
    ⟨front, a, behind, hl, hfront, ha, hbehind, hbody, hcond⟩
  · rw [rtwAddBcnIe_first h hfirst.split (hfirst.lt hsorted) hfirst.old,
      if_pos (List.length_pos_iff.mpr hbody)]
    exact (put_yields_iff h hfirst).mpr hcond
  · obtain rfl : e = old := by
      obtain ⟨id, body, hle⟩ := e
      obtain ⟨id', body', hle'⟩ := old
      obtain rfl : id' = id := hfirst.old
      obtain rfl : body' = [] := hbody
      obtain rfl : body = [] := hdata
      rfl
    rw [rtwAddBcnIe_first h hfirst.split (hfirst.lt hsorted) rfl, if_neg (by simp [hbody])]
    exact ⟨l, hfirst.put_iff.mpr hfirst.split, h.yields_self_iff.mpr rfl⟩
  · rw [rtwAddBcnIe_between h hl hfront ha hbehind, if_pos (List.length_pos_iff.mpr hbody)]
    refine (insert_yields_iff h (by rw [hl]; simp) ?_).mpr hcond
    rw [hl, List.forall_mem_append, List.forall_mem_cons]
    refine ⟨fun x hx ↦ ?_, by bv_omega, fun x hx ↦ ?_⟩
    · have := hfront x hx
      bv_omega
    · have := hbehind x hx
      bv_omega

/-- What `rtw_add_bcn_ie` leaves behind. -/
theorem rtwAddBcnIe_iff (h : Lists n l) (hsorted : l.Pairwise fun x y ↦ x.id ≤ y.id)
    (e : Element) :
    (∃ r, Put l e r ∧ Yields n (rtwAddBcnIe rtwMalloc n e.id e.body) r) ↔
      Addable rtwMalloc n l e := by
  refine ⟨?_, Addable.put h hsorted⟩
  intro hput
  rcases first_or_none l e.id with hnone | ⟨front, old, behind, hfirst⟩
  · have hself : rtwAddBcnIe rtwMalloc n e.id e.body ≠ n := by
      intro heq
      obtain ⟨r, hr, hyields⟩ := hput
      rw [heq] at hyields
      obtain rfl := h.yields_self_iff.mp hyields
      exact not_put_self hnone hr
    obtain ⟨front, behind, hl, hfront, hle⟩ := sorted_split hsorted e.id
    have hbehind : ∀ x ∈ behind, e.id < x.id := by
      intro x hx
      have hle := hle x hx
      have hne := hnone x (by rw [hl]; exact List.mem_append_right front hx)
      bv_omega
    rcases List.eq_nil_or_concat' front with rfl | ⟨front, a, rfl⟩
    · obtain rfl : l = behind := hl
      rw [rtwAddBcnIe, addBcnLoop_stop h.holds h.ieLength hbehind] at hself
      exact absurd rfl hself
    · rw [List.forall_mem_append, List.forall_mem_singleton] at hfront
      rw [List.append_assoc, List.singleton_append] at hl
      rw [rtwAddBcnIe_between h hl hfront.1 hfront.2 hbehind] at hput hself
      by_cases hbody : a.body = []
      · rw [if_neg (by simp [hbody])] at hself
        exact absurd rfl hself
      · rw [if_pos (List.length_pos_iff.mpr hbody)] at hput
        exact Or.inr ⟨front, a, behind, hl, hfront.1, hfront.2, hbehind, hbody,
          (insert_yields_iff h (by rw [hl]; simp) hnone).mp hput⟩
  · refine Or.inl ⟨front, old, behind, hfirst, ?_⟩
    rw [rtwAddBcnIe_first h hfirst.split (hfirst.lt hsorted) hfirst.old] at hput
    by_cases hbody : old.body = []
    · rw [if_neg (by simp [hbody])] at hput
      obtain ⟨r, hr, hyields⟩ := hput
      obtain rfl := h.yields_self_iff.mp hyields
      have heq := hfirst.split.symm.trans (hfirst.put_iff.mp hr)
      obtain ⟨rfl, -⟩ := List.cons.inj (List.append_cancel_left heq)
      exact Or.inr ⟨hbody, hbody⟩
    · rw [if_pos (List.length_pos_iff.mpr hbody)] at hput
      exact Or.inl ⟨hbody, (put_yields_iff h hfirst).mp hput⟩

end Edits

end Rtl8821cu.BcnEdit
