import Rtl8821cu.LibRun
import Rtl8821cu.MacAddr

/-! The station table of an adapter (`core/rtw_sta_mgt.c`): the free slots, the hash buckets and
the station count. -/
namespace Rtl8821cu.StaTable
open Run

def numSta : ℕ := 32

/-- A slot of the station buffer. -/
abbrev Slot := Fin numSta

def wifiMacHash (mac : Mac) : ℕ :=
  let x := mac.toList.foldl (fun (x : BitVec 32) b => (x <<< 2) ^^^ b.zeroExtend 32) 0
  let x := x ^^^ (x >>> 8)
  (x &&& BitVec.ofNat 32 (numSta - 1)).toNat

theorem wifiMacHash_lt (mac : Mac) : wifiMacHash mac < numSta := by
  unfold wifiMacHash numSta
  rw [BitVec.toNat_and]
  exact Nat.lt_of_le_of_lt Nat.and_le_right (by decide)

/-- What the routines use of `struct sta_priv`; `mac` is `cmn.mac_addr` of each slot. -/
structure StaPriv where
  mac : Slot → Mac
  freeStaQueue : List Slot
  staHash : ℕ → List Slot
  asocStaCount : ℤ

/-- `_rtw_init_sta_priv`. -/
def init : StaPriv := ⟨fun _ => Vector.replicate 6 0, List.finRange numSta, fun _ => [], 0⟩

/-- The address that stands for `a` in the table; all multicast addresses share the broadcast
entry. -/
def key (a : Mac) : Mac := if a.isMcast then Mac.broadcast else a

def rtwGetStainfo (p : StaPriv) (hwaddr : Mac) : Option Slot :=
  (p.staHash (wifiMacHash (key hwaddr))).find? fun s => p.mac s = key hwaddr

def rtwAllocStainfo (p : StaPriv) (hwaddr : Mac) : StaPriv :=
  match p.freeStaQueue with
  | [] => p
  | s :: rest =>
    { mac := Function.update p.mac s hwaddr
      freeStaQueue := rest
      staHash := Function.update p.staHash (wifiMacHash hwaddr)
        (p.staHash (wifiMacHash hwaddr) ++ [s])
      asocStaCount := p.asocStaCount + 1 }

section Free

variable (isPreLinkSta : Mac → Bool)

/-- `rtw_free_stainfo`; a station of the pre-link list keeps its place. -/
def rtwFreeStainfo (p : StaPriv) (s : Slot) : StaPriv :=
  if isPreLinkSta (p.mac s) then p
  else { p with
    staHash := fun index => (p.staHash index).erase s
    asocStaCount := p.asocStaCount - 1
    freeStaQueue := p.freeStaQueue ++ [s] }

/-- `free_sta_list` of `rtw_free_all_stainfo`: all stations of the table but the broadcast one. -/
def freeStaList (p : StaPriv) : List Slot :=
  (List.range numSta).flatMap fun index =>
    (p.staHash index).filter fun s => some s != rtwGetStainfo p Mac.broadcast

def rtwFreeAllStainfo (p : StaPriv) : StaPriv :=
  if p.asocStaCount = 1 then p
  else
    let unhashed := { p with
      staHash := fun index => (p.staHash index).filter fun s =>
        some s == rtwGetStainfo p Mac.broadcast || isPreLinkSta (p.mac s) }
    (freeStaList p).foldl (rtwFreeStainfo isPreLinkSta) unhashed

inductive Op
  | alloc (hwaddr : Mac)
  | free (s : Slot)
  | freeAll

/-- A caller frees a station that is in the table. -/
def step (p : StaPriv) : Op → StaPriv
  | .alloc hwaddr => rtwAllocStainfo p hwaddr
  | .free s => if s ∈ p.freeStaQueue then p else rtwFreeStainfo isPreLinkSta p s
  | .freeAll => rtwFreeAllStainfo isPreLinkSta p

end Free

namespace StaPriv

/-- Every slot is free or in the bucket of its address, and nowhere else. -/
structure Placed (p : StaPriv) : Prop where
  hashed : ∀ s ∉ p.freeStaQueue, ∀ index, s ∈ p.staHash index ↔ index = wifiMacHash (p.mac s)
  unhashed : ∀ s ∈ p.freeStaQueue, ∀ index, s ∉ p.staHash index
  freeNodup : p.freeStaQueue.Nodup
  hashNodup : ∀ index, (p.staHash index).Nodup

/-- The count is that of the slots in the hash table. -/
def Counted (p : StaPriv) : Prop :=
  p.asocStaCount = ∑ index ∈ Finset.range numSta, ((p.staHash index).length : ℤ)

/-- No two stations of the table have the same address. -/
def Distinct (p : StaPriv) : Prop :=
  ∀ s ∉ p.freeStaQueue, ∀ t ∉ p.freeStaQueue, p.mac s = p.mac t → s = t

end StaPriv

/-- An address is not allocated while a station has it. -/
def Fresh (p : StaPriv) : Op → Prop
  | .alloc hwaddr => ∀ s ∉ p.freeStaQueue, p.mac s ≠ hwaddr
  | _ => True

namespace StaPriv

/-- The table while the slots of `limbo` are on their way from the buckets to the free queue. -/
structure Table (p : StaPriv) (limbo : List Slot) : Prop where
  hashed : ∀ s ∉ p.freeStaQueue, s ∉ limbo → ∀ index,
    s ∈ p.staHash index ↔ index = wifiMacHash (p.mac s)
  unhashed : ∀ s, s ∈ p.freeStaQueue ∨ s ∈ limbo → ∀ index, s ∉ p.staHash index
  limboFree : ∀ s ∈ limbo, s ∉ p.freeStaQueue
  limboNodup : limbo.Nodup
  freeNodup : p.freeStaQueue.Nodup
  hashNodup : ∀ index, (p.staHash index).Nodup
  count : p.asocStaCount + p.freeStaQueue.length = numSta

variable {p : StaPriv} {limbo : List Slot}

theorem Table.placed (h : p.Table []) : p.Placed :=
  ⟨fun s hs => h.hashed s hs List.not_mem_nil, fun s hs => h.unhashed s (.inl hs), h.freeNodup,
    h.hashNodup⟩

/-- The slots in the buckets are those that are not free. -/
theorem Table.counted (h : p.Table []) : p.Counted := by
  have hunion : (Finset.range numSta).biUnion (fun index => (p.staHash index).toFinset) =
      Finset.univ \ p.freeStaQueue.toFinset := by
    ext s
    simp only [Finset.mem_biUnion, Finset.mem_range, List.mem_toFinset, Finset.mem_sdiff,
      Finset.mem_univ, true_and]
    constructor
    · rintro ⟨index, -, hs⟩ hfree
      exact h.unhashed s (.inl hfree) index hs
    · intro hs
      exact ⟨_, wifiMacHash_lt _, (h.hashed s hs List.not_mem_nil _).mpr rfl⟩
  have hdisj : ∀ i ∈ Finset.range numSta, ∀ j ∈ Finset.range numSta, i ≠ j →
      Disjoint (p.staHash i).toFinset (p.staHash j).toFinset := by
    intro i _ j _ hij
    rw [Finset.disjoint_left]
    intro s hi hj
    rw [List.mem_toFinset] at hi hj
    have hs : s ∉ p.freeStaQueue := fun hfree => h.unhashed s (.inl hfree) i hi
    have hp := h.hashed s hs List.not_mem_nil
    exact hij (((hp i).mp hi).trans ((hp j).mp hj).symm)
  have hcard := Finset.card_biUnion hdisj
  rw [hunion, Finset.card_sdiff_of_subset (Finset.subset_univ _), Finset.card_univ,
    Fintype.card_fin, List.toFinset_card_of_nodup h.freeNodup] at hcard
  have hlen : ∑ index ∈ Finset.range numSta, (p.staHash index).toFinset.card =
      ∑ index ∈ Finset.range numSta, (p.staHash index).length :=
    Finset.sum_congr rfl fun index _ => List.toFinset_card_of_nodup (h.hashNodup index)
  have hle : p.freeStaQueue.length ≤ numSta := by
    simpa using h.freeNodup.length_le_card
  have hcount := h.count
  rw [hlen] at hcard
  unfold Counted
  rw [← Nat.cast_sum, ← hcard]
  omega

theorem table_init : init.Table [] := by
  refine ⟨?_, ?_, ?_, List.nodup_nil, List.nodup_finRange _, fun _ => List.nodup_nil, ?_⟩
  · exact fun s hs => absurd (List.mem_finRange s) hs
  · exact fun s _ index => List.not_mem_nil
  · exact fun s hs => absurd hs List.not_mem_nil
  · simp [init]

theorem Table.alloc (h : p.Table []) (hwaddr : Mac) : (rtwAllocStainfo p hwaddr).Table [] := by
  unfold rtwAllocStainfo
  cases hq : p.freeStaQueue with
  | nil => exact h
  | cons s rest =>
    have hnodup := h.freeNodup
    have hcount := h.count
    rw [hq] at hnodup hcount
    have hs : ∀ index, s ∉ p.staHash index := h.unhashed s (.inl (by simp [hq]))
    have hmem : ∀ t index, t ∈ Function.update p.staHash (wifiMacHash hwaddr)
        (p.staHash (wifiMacHash hwaddr) ++ [s]) index ↔
        t ∈ p.staHash index ∨ t = s ∧ index = wifiMacHash hwaddr := by
      intro t index
      by_cases hi : index = wifiMacHash hwaddr
      · simp [hi]
      · simp [hi]
    refine ⟨?_, ?_, ?_, List.nodup_nil, (List.nodup_cons.mp hnodup).2, ?_, ?_⟩
    · intro t ht _ index
      rw [hmem]
      by_cases hts : t = s
      · subst hts
        simp [hs index]
      · have hold := h.hashed t (by simp [hq, hts, ht]) List.not_mem_nil index
        simp [hts, hold]
    · rintro t (ht | ht) index hin
      · rw [hmem] at hin
        rcases hin with hin | ⟨rfl, -⟩
        · exact h.unhashed t (.inl (by simp [hq, ht])) index hin
        · exact (List.nodup_cons.mp hnodup).1 ht
      · exact absurd ht List.not_mem_nil
    · exact fun t ht => absurd ht List.not_mem_nil
    · intro index
      dsimp only
      by_cases hi : index = wifiMacHash hwaddr
      · subst hi
        rw [Function.update_self]
        exact (h.hashNodup _).append (List.nodup_singleton s) (by simpa using hs _)
      · rw [Function.update_of_ne hi]
        exact h.hashNodup index
    · simp only [List.length_cons, Nat.cast_add, Nat.cast_one] at hcount ⊢
      omega

section Free

variable {isPreLinkSta : Mac → Bool} {s : Slot}

/-- A station goes to the free queue, from its bucket or from limbo. -/
theorem Table.free (h : p.Table limbo) (hs : s ∉ p.freeStaQueue)
    (hpre : isPreLinkSta (p.mac s) = false) :
    (rtwFreeStainfo isPreLinkSta p s).Table (limbo.erase s) := by
  have hmem : ∀ t index, t ∈ (p.staHash index).erase s ↔ t ≠ s ∧ t ∈ p.staHash index :=
    fun t index => (h.hashNodup index).mem_erase_iff
  have hlimbo : ∀ t, t ∈ limbo.erase s ↔ t ≠ s ∧ t ∈ limbo := fun t => h.limboNodup.mem_erase_iff
  rw [rtwFreeStainfo, if_neg (by simp [hpre])]
  refine ⟨?_, ?_, ?_, h.limboNodup.erase s, ?_, fun index => (h.hashNodup index).erase s, ?_⟩
  · intro t ht hl index
    simp only [List.mem_append, List.mem_singleton, not_or] at ht
    rw [hlimbo] at hl
    rw [hmem, h.hashed t ht.1 (fun hin => hl ⟨ht.2, hin⟩)]
    simp [ht.2]
  · intro t ht index hin
    rw [hmem] at hin
    simp only [List.mem_append, List.mem_singleton, hlimbo] at ht
    rcases ht with (ht | ht) | ht
    · exact h.unhashed t (.inl ht) index hin.2
    · exact hin.1 ht
    · exact h.unhashed t (.inr ht.2) index hin.2
  · intro t ht
    rw [hlimbo] at ht
    simp only [List.mem_append, List.mem_singleton, not_or]
    exact ⟨h.limboFree t ht.2, ht.1⟩
  · exact h.freeNodup.append (List.nodup_singleton s) (by simpa using hs)
  · have hcount := h.count
    simp only [List.length_append, List.length_singleton, Nat.cast_add, Nat.cast_one]
    omega

theorem rtwFreeStainfo_mac : (rtwFreeStainfo isPreLinkSta p s).mac = p.mac := by
  unfold rtwFreeStainfo
  split_ifs <;> rfl

theorem rtwFreeStainfo_preLink (hpre : isPreLinkSta (p.mac s) = true) :
    rtwFreeStainfo isPreLinkSta p s = p := by
  rw [rtwFreeStainfo, if_pos hpre]

/-- The second loop of `rtw_free_all_stainfo`: what is in limbo goes to the free queue. -/
theorem Table.freeList (l : List Slot) (hl : l.Nodup) (h : p.Table limbo)
    (hlimbo : ∀ s, s ∈ limbo ↔ s ∈ l ∧ isPreLinkSta (p.mac s) = false) :
    (l.foldl (rtwFreeStainfo isPreLinkSta) p).Table [] ∧
      (l.foldl (rtwFreeStainfo isPreLinkSta) p).mac = p.mac := by
  induction l generalizing p limbo with
  | nil =>
    obtain rfl : limbo = [] := List.eq_nil_iff_forall_not_mem.mpr fun s hs => by
      simpa using (hlimbo s).mp hs
    exact ⟨h, rfl⟩
  | cons s l ih =>
    obtain ⟨hs, hnodup⟩ := List.nodup_cons.mp hl
    rw [List.foldl_cons]
    cases hpre : isPreLinkSta (p.mac s) with
    | true =>
      rw [rtwFreeStainfo_preLink hpre]
      refine ih hnodup h fun t => ?_
      rw [hlimbo t, List.mem_cons]
      constructor
      · rintro ⟨rfl | ht, hp⟩
        · rw [hpre] at hp
          cases hp
        · exact ⟨ht, hp⟩
      · exact fun ht => ⟨.inr ht.1, ht.2⟩
    | false =>
      have hin : s ∈ limbo := (hlimbo s).mpr ⟨by simp, hpre⟩
      obtain ⟨htable, hmac⟩ := ih hnodup (h.free (h.limboFree s hin) hpre) (fun t => by
        rw [rtwFreeStainfo_mac, h.limboNodup.mem_erase_iff, hlimbo t, List.mem_cons]
        constructor
        · rintro ⟨hne, ht, hp⟩
          exact ⟨ht.resolve_left hne, hp⟩
        · rintro ⟨ht, hp⟩
          refine ⟨?_, .inr ht, hp⟩
          rintro rfl
          exact hs ht)
      exact ⟨htable, hmac.trans rtwFreeStainfo_mac⟩

theorem Table.mem_freeStaList (h : p.Table []) :
    s ∈ freeStaList p ↔ s ∉ p.freeStaQueue ∧ some s ≠ rtwGetStainfo p Mac.broadcast := by
  simp only [freeStaList, List.mem_flatMap, List.mem_range, List.mem_filter, bne_iff_ne]
  constructor
  · rintro ⟨index, -, hs, hbc⟩
    exact ⟨fun hfree => h.unhashed s (.inl hfree) index hs, hbc⟩
  · rintro ⟨hs, hbc⟩
    exact ⟨_, wifiMacHash_lt _, (h.hashed s hs List.not_mem_nil _).mpr rfl, hbc⟩

theorem Table.nodup_freeStaList (h : p.Table []) : (freeStaList p).Nodup := by
  rw [freeStaList, List.nodup_flatMap]
  refine ⟨fun index _ => (h.hashNodup index).filter _, ?_⟩
  refine List.Nodup.pairwise_of_forall_ne List.nodup_range ?_
  intro i _ j _ hij s hi hj
  have hi' := List.mem_of_mem_filter hi
  have hj' := List.mem_of_mem_filter hj
  have hs : s ∉ p.freeStaQueue := fun hfree => h.unhashed s (.inl hfree) i hi'
  have hp := h.hashed s hs List.not_mem_nil
  exact hij (((hp i).mp hi').trans ((hp j).mp hj').symm)

theorem Table.freeAll (h : p.Table []) :
    (rtwFreeAllStainfo isPreLinkSta p).Table [] ∧
      (rtwFreeAllStainfo isPreLinkSta p).mac = p.mac := by
  unfold rtwFreeAllStainfo
  split_ifs
  · exact ⟨h, rfl⟩
  · have hlimbo : ∀ s, s ∈ (freeStaList p).filter (fun s => !isPreLinkSta (p.mac s)) ↔
        s ∈ freeStaList p ∧ isPreLinkSta (p.mac s) = false := by
      intro s
      simp [List.mem_filter]
    refine Table.freeList (freeStaList p) h.nodup_freeStaList ?_ hlimbo
    · refine ⟨?_, ?_, ?_, h.nodup_freeStaList.filter _, h.freeNodup,
        fun index => (h.hashNodup index).filter _, h.count⟩
      · intro s hs hl index
        rw [List.mem_filter, h.mem_freeStaList] at hl
        rw [List.mem_filter, h.hashed s hs List.not_mem_nil, and_iff_left_iff_imp]
        intro _
        by_contra hno
        simp only [Bool.or_eq_true, beq_iff_eq, not_or, Bool.not_eq_true] at hno
        exact hl ⟨⟨hs, hno.1⟩, by simp [hno.2]⟩
      · rintro s (hs | hs) index hin
        · exact h.unhashed s (.inl hs) index (List.mem_of_mem_filter hin)
        · rw [List.mem_filter, h.mem_freeStaList] at hs
          have hkept := (List.mem_filter.mp hin).2
          simp only [Bool.or_eq_true, beq_iff_eq] at hkept
          rcases hkept with hkept | hkept
          · exact hs.1.2 hkept
          · simp [hkept] at hs
      · intro s hs
        exact (h.mem_freeStaList.mp (List.mem_of_mem_filter hs)).1

/-- Every operation keeps the table. -/
theorem Table.step (h : p.Table []) (op : Op) : (step isPreLinkSta p op).Table [] := by
  cases op with
  | alloc hwaddr => exact h.alloc hwaddr
  | free s =>
    simp only [StaTable.step]
    split_ifs with hs
    · exact h
    · cases hpre : isPreLinkSta (p.mac s) with
      | true =>
        rw [rtwFreeStainfo_preLink hpre]
        exact h
      | false => exact h.free hs hpre
  | freeAll => exact h.freeAll.1

end Free

section Lookup

/-- The station that is found is one of the table with the address. -/
theorem Table.rtwGetStainfo_some (h : p.Table []) {a : Mac} {s : Slot}
    (hs : rtwGetStainfo p a = some s) : s ∉ p.freeStaQueue ∧ p.mac s = key a := by
  have hmem := List.mem_of_find?_eq_some hs
  exact ⟨fun hfree => h.unhashed s (.inl hfree) _ hmem, by simpa using List.find?_some hs⟩

theorem Table.rtwGetStainfo_none (h : p.Table []) {a : Mac} (hn : rtwGetStainfo p a = none)
    {s : Slot} (hs : s ∉ p.freeStaQueue) : p.mac s ≠ key a := by
  intro hmac
  have hmem : s ∈ p.staHash (wifiMacHash (key a)) := by
    rw [h.hashed s hs List.not_mem_nil, hmac]
  have := List.find?_eq_none.mp hn s hmem
  simp [hmac] at this

/-- With distinct addresses the lookup finds exactly the station of the address. -/
theorem Table.rtwGetStainfo_iff (h : p.Table []) (hd : p.Distinct) (a : Mac) (s : Slot) :
    rtwGetStainfo p a = some s ↔ s ∉ p.freeStaQueue ∧ p.mac s = key a := by
  refine ⟨h.rtwGetStainfo_some, fun ⟨hs, hmac⟩ => ?_⟩
  cases hf : rtwGetStainfo p a with
  | none => exact absurd hmac (h.rtwGetStainfo_none hf hs)
  | some t =>
    obtain ⟨ht, hmac'⟩ := h.rtwGetStainfo_some hf
    rw [hd t ht s hs (hmac'.trans hmac.symm)]

end Lookup

section Distinct

variable {isPreLinkSta : Mac → Bool}

theorem Distinct.alloc (hd : p.Distinct) {hwaddr : Mac}
    (hnew : ∀ s ∉ p.freeStaQueue, p.mac s ≠ hwaddr) : (rtwAllocStainfo p hwaddr).Distinct := by
  unfold rtwAllocStainfo
  cases hq : p.freeStaQueue with
  | nil => exact hd
  | cons x rest =>
    have hold : ∀ s, s ∉ rest → s ≠ x → s ∉ p.freeStaQueue := by
      intro s hs hx
      simp [hq, hs, hx]
    intro s hs t ht hst
    dsimp only at hs ht hst
    by_cases hsx : s = x
    · by_cases htx : t = x
      · rw [hsx, htx]
      · rw [hsx, Function.update_self, Function.update_of_ne htx] at hst
        exact absurd hst.symm (hnew t (hold t ht htx))
    · by_cases htx : t = x
      · rw [htx, Function.update_self, Function.update_of_ne hsx] at hst
        exact absurd hst (hnew s (hold s hs hsx))
      · rw [Function.update_of_ne hsx, Function.update_of_ne htx] at hst
        exact hd s (hold s hs hsx) t (hold t ht htx) hst

/-- Stations that leave the table keep the others distinct. -/
theorem Distinct.shrink (hd : p.Distinct) {q : StaPriv} (hmac : q.mac = p.mac)
    (hfree : ∀ s ∈ p.freeStaQueue, s ∈ q.freeStaQueue) : q.Distinct := by
  intro s hs t ht hst
  rw [hmac] at hst
  exact hd s (fun h => hs (hfree s h)) t (fun h => ht (hfree t h)) hst

theorem mem_free_rtwFreeStainfo (s : Slot) {t : Slot} (ht : t ∈ p.freeStaQueue) :
    t ∈ (rtwFreeStainfo isPreLinkSta p s).freeStaQueue := by
  unfold rtwFreeStainfo
  split_ifs
  · exact ht
  · exact List.mem_append_left _ ht

theorem mem_free_freeList (l : List Slot) {t : Slot} (ht : t ∈ p.freeStaQueue) :
    t ∈ (l.foldl (rtwFreeStainfo isPreLinkSta) p).freeStaQueue := by
  induction l generalizing p with
  | nil => exact ht
  | cons s l ih => exact ih (mem_free_rtwFreeStainfo s ht)

theorem mem_free_freeAll {t : Slot} (ht : t ∈ p.freeStaQueue) :
    t ∈ (rtwFreeAllStainfo isPreLinkSta p).freeStaQueue := by
  unfold rtwFreeAllStainfo
  split_ifs
  · exact ht
  · exact mem_free_freeList _ ht

theorem Distinct.step (h : p.Table []) (hd : p.Distinct) {op : Op} (hop : Fresh p op) :
    (step isPreLinkSta p op).Distinct := by
  cases op with
  | alloc hwaddr => exact hd.alloc hop
  | free s =>
    simp only [StaTable.step]
    split_ifs
    · exact hd
    · exact hd.shrink rtwFreeStainfo_mac fun t ht => mem_free_rtwFreeStainfo s ht
  | freeAll => exact hd.shrink h.freeAll.2 fun t ht => mem_free_freeAll ht

end Distinct

end StaPriv

section Run

variable (isPreLinkSta : Mac → Bool) (ops : List Op)

theorem table_run : (run (step isPreLinkSta) init ops).Table [] :=
  run_invariant (P := fun _ _ => True) (I := fun p : StaPriv => p.Table [])
    (fun _ op hp _ => hp.step op) StaPriv.table_init (along_of_forall fun _ _ _ => trivial)

/-- In every state that is reached, every slot is free or in the bucket of its address, and the
count is that of the slots in the table; and the lookup is exact if no address was allocated to a
second station. -/
theorem sta_table_exact :
    (run (step isPreLinkSta) init ops).Placed ∧ (run (step isPreLinkSta) init ops).Counted ∧
      (Along (step isPreLinkSta) Fresh init ops →
        ∀ a s, rtwGetStainfo (run (step isPreLinkSta) init ops) a = some s ↔
          s ∉ (run (step isPreLinkSta) init ops).freeStaQueue ∧
            (run (step isPreLinkSta) init ops).mac s = key a) := by
  have htable := table_run isPreLinkSta ops
  refine ⟨htable.placed, htable.counted, fun hfresh a s => htable.rtwGetStainfo_iff ?_ a s⟩
  have hinit : init.Table [] ∧ init.Distinct :=
    ⟨StaPriv.table_init, fun s hs => absurd (List.mem_finRange s) hs⟩
  exact (run_invariant (I := fun p : StaPriv => p.Table [] ∧ p.Distinct)
    (fun p op hp hop => ⟨hp.1.step op, hp.2.step hp.1 hop⟩) hinit hfresh).2

theorem sta_table_exact_two :
    let p := run (step fun _ => false) init [.alloc Mac.broadcast, .alloc #v[2, 0, 0, 0, 0, 1]]
    ∀ a s, rtwGetStainfo p a = some s ↔ s ∉ p.freeStaQueue ∧ p.mac s = key a := by
  refine (sta_table_exact (fun _ => false)
    [.alloc Mac.broadcast, .alloc #v[2, 0, 0, 0, 0, 1]]).2.2 ⟨?_, ?_, trivial⟩
  · exact fun s hs => absurd (List.mem_finRange s) hs
  · unfold Fresh
    decide

end Run

end Rtl8821cu.StaTable
