import Rtl8821cu.MeshPathtbl

/-! The tables of a WDS interface (`core/wds/rtw_wds.c`): paths and records of proxied sources, each
with a counter of its entries. -/
namespace Rtl8821cu.Wds
open Keyed Run Mesh

/-- `RTW_WDS_MAX_PATHS`. -/
def maxPaths : ℤ := 1024

structure WdsPath where
  dst : Mac
  nextHop : StaTable.Slot
  lastUpdate : Jiffies
  deriving DecidableEq

structure WdsGptr where
  src : Mac
  lastUpdate : Jiffies
  deriving DecidableEq

/-- A hash table, whose entries are told apart by an address, with the counter of its entries. -/
structure Tbl (α : Type) where
  entries : List α
  num : ℤ

section Table

variable {α : Type} (key : α → Mac)

/-- The common part of `rtw_wds_path_add` and `rtw_wds_gptr_add`: `mem` is whether the new entry can
be allocated and `ins` whether the hash table can take it. -/
def Tbl.add (t : Tbl α) (new : α) (mem ins : Bool) : Tbl α × Except Err α :=
  if t.num == maxPaths then (t, .error .enospc)
  else
    let t := { t with num := t.num + 1 }
    if !mem then (t, .error .enomem)
    else
      match find key t.entries (key new) with
      | some e => (t, .ok e)
      | none =>
        if !ins then (t, .error .insert)
        else ({ t with entries := new :: t.entries }, .ok new)

/-- `__rtw_wds_path_del` and `__rtw_wds_gptr_del`. -/
def Tbl.del (t : Tbl α) (k : Mac) : Tbl α := ⟨remove key t.entries k, t.num - 1⟩

/-- A walk over the table deletes what it meets and what is due. `visited` are the entries that
`rtw_rhashtable_walk_next` returns before the walk ends. -/
def Tbl.walk (t : Tbl α) (due : α → Bool) (visited : List Mac) : Tbl α :=
  visited.foldl
    (fun t k =>
      match find key t.entries k with
      | none => t
      | some e => if due e then t.del key k else t) t

end Table

/-- What the routines use of the adapter. -/
structure Adapter where
  paths : Tbl WdsPath
  gptrs : Tbl WdsGptr

def init : Adapter := ⟨⟨[], 0⟩, ⟨[], 0⟩⟩

/-- The address of the interface and the ticks of a second. -/
structure Cfg where
  macAddr : Mac
  hz : Jiffies

/-- `rtw_wds_path_assign_nexthop`. -/
def assignNexthop (l : List WdsPath) (dst : Mac) (sta : StaTable.Slot) : List WdsPath :=
  modify WdsPath.dst l dst fun p => { p with nextHop := sta }

/-- `rtw_wds_path_add`. -/
def pathAdd (cfg : Cfg) (s : Adapter) (now : Jiffies) (dst : Mac) (nextHop : StaTable.Slot)
    (mem ins : Bool) : Adapter × Except Err WdsPath :=
  if dst == cfg.macAddr then (s, .error .enotsupp)
  else if dst.isMcast then (s, .error .enotsupp)
  else
    match s.paths.add WdsPath.dst ⟨dst, nextHop, now⟩ mem ins with
    | (t, .error e) => ({ s with paths := t }, .error e)
    | (t, .ok p) =>
      ({ s with paths := { t with entries := assignNexthop t.entries dst nextHop } },
        .ok { p with nextHop := nextHop })

/-- `rtw_wds_path_del`. -/
def pathDel (s : Adapter) (addr : Mac) : Adapter :=
  match find WdsPath.dst s.paths.entries addr with
  | none => s
  | some _ => { s with paths := s.paths.del WdsPath.dst addr }

/-- `rtw_wds_path_flush_by_nexthop`. -/
def flushByNexthop (s : Adapter) (sta : StaTable.Slot) (visited : List Mac) : Adapter :=
  { s with paths := s.paths.walk WdsPath.dst (fun p => p.nextHop == sta) visited }

/-- `rtw_wds_path_flush_by_iface`. -/
def flushByIface (s : Adapter) (visited : List Mac) : Adapter :=
  { s with paths := s.paths.walk WdsPath.dst (fun _ => true) visited }

/-- `rtw_wds_path_expire`, after `RTW_WDS_PATH_EXPIRE`. -/
def pathExpire (cfg : Cfg) (s : Adapter) (now : Jiffies) (visited : List Mac) : Adapter :=
  { s with
    paths := s.paths.walk WdsPath.dst (fun p => timeAfter now (p.lastUpdate + 600 * cfg.hz))
      visited }

/-- `rtw_wds_gptr_add`. -/
def gptrAdd (s : Adapter) (now : Jiffies) (src : Mac) (mem ins : Bool) :
    Adapter × Except Err WdsGptr :=
  let r := s.gptrs.add WdsGptr.src ⟨src, now⟩ mem ins
  ({ s with gptrs := r.1 }, r.2)

/-- `rtw_tx_wds_gptr_update`. -/
def gptrUpdate (s : Adapter) (now : Jiffies) (src : Mac) (mem ins : Bool) : Adapter :=
  match find WdsGptr.src s.gptrs.entries src with
  | none => (gptrAdd s now src mem ins).1
  | some _ =>
    { s with
      gptrs := { s.gptrs with
        entries := modify WdsGptr.src s.gptrs.entries src fun g => { g with lastUpdate := now } } }

/-- `rtw_wds_gptr_expire`, after `RTW_WDS_GPTR_EXPIRE`. -/
def gptrExpire (cfg : Cfg) (s : Adapter) (now : Jiffies) (visited : List Mac) : Adapter :=
  { s with
    gptrs := s.gptrs.walk WdsGptr.src (fun g => timeAfter now (g.lastUpdate + 2 * cfg.hz))
      visited }

/-- The operations on the tables, each with what it finds of the clock, the memory and the hash
table. -/
inductive Op
  | pathAdd (now : Jiffies) (dst : Mac) (nextHop : StaTable.Slot) (mem ins : Bool)
  | pathDel (addr : Mac)
  | flushByNexthop (sta : StaTable.Slot) (visited : List Mac)
  | flushByIface (visited : List Mac)
  | pathExpire (now : Jiffies) (visited : List Mac)
  | gptrUpdate (now : Jiffies) (src : Mac) (mem ins : Bool)
  | gptrExpire (now : Jiffies) (visited : List Mac)

def step (cfg : Cfg) (s : Adapter) : Op → Adapter
  | .pathAdd now dst nextHop mem ins => (pathAdd cfg s now dst nextHop mem ins).1
  | .pathDel addr => pathDel s addr
  | .flushByNexthop sta visited => flushByNexthop s sta visited
  | .flushByIface visited => flushByIface s visited
  | .pathExpire now visited => pathExpire cfg s now visited
  | .gptrUpdate now src mem ins => gptrUpdate s now src mem ins
  | .gptrExpire now visited => gptrExpire cfg s now visited

section Table

variable {α : Type} {key : α → Mac} {t : Tbl α}

/-- The counter counts the entries, which have different addresses. -/
structure Counted (key : α → Mac) (t : Tbl α) : Prop where
  unique : Unique key t.entries
  num : t.num = t.entries.length

theorem Counted.del (h : Counted key t) {k : Mac} {e : α} (he : find key t.entries k = some e) :
    Counted key (t.del key k) := by
  refine ⟨h.unique.remove k, ?_⟩
  have hlen := length_remove h.unique he
  have hnum := h.num
  simp only [Tbl.del]
  omega

theorem Counted.walk (h : Counted key t) (due : α → Bool) (visited : List Mac) :
    Counted key (t.walk key due visited) := by
  unfold Tbl.walk
  induction visited generalizing t with
  | nil => exact h
  | cons k ks ih =>
    rw [List.foldl_cons]
    apply ih
    cases he : find key t.entries k with
    | none => exact h
    | some e =>
      dsimp only
      split_ifs
      · exact h.del he
      · exact h

theorem Counted.modify (h : Counted key t) (k : Mac) {f : α → α} (hf : ∀ a, key (f a) = key a) :
    Counted key { t with entries := modify key t.entries k f } := by
  refine ⟨h.unique.modify hf, ?_⟩
  rw [h.num]
  simp [Keyed.modify]

/-- Whether an addition that finds room adds its entry. -/
def Adds (key : α → Mac) (t : Tbl α) (new : α) (mem ins : Bool) : Prop :=
  t.num ≠ maxPaths → mem = true ∧ ins = true ∧ find key t.entries (key new) = none

/-- The counter is right after an addition exactly if the addition adds its entry. -/
theorem counted_add_iff (h : Counted key t) (new : α) (mem ins : Bool) :
    Counted key (t.add key new mem ins).1 ↔ Adds key t new mem ins := by
  have hcount : ∀ l : List α, l = t.entries → ¬ Counted key ⟨l, t.num + 1⟩ := by
    rintro l rfl hc
    have h1 := hc.num
    have h2 := h.num
    dsimp only at h1
    omega
  unfold Tbl.add Adds
  by_cases hfull : t.num = maxPaths
  · simpa [hfull] using h
  simp only [beq_iff_eq, hfull, if_false, ne_eq, not_false_eq_true, true_imp_iff]
  cases mem
  · simpa using hcount _ rfl
  cases hfind : find key t.entries (key new) with
  | some e => simpa using hcount _ rfl
  | none =>
    cases ins
    · simpa using hcount _ rfl
    · refine iff_of_true ⟨h.unique.cons hfind, ?_⟩ ⟨rfl, rfl, rfl⟩
      simp [h.num]

theorem add_enospc {new : α} {mem ins : Bool} (h : (t.add key new mem ins).2 = .error .enospc) :
    t.num = maxPaths := by
  by_contra hfull
  unfold Tbl.add at h
  rw [if_neg (by simpa using hfull)] at h
  dsimp only at h
  cases mem
  · cases h
  cases hfind : find key t.entries (key new) with
  | some e =>
    rw [hfind] at h
    cases h
  | none =>
    rw [hfind] at h
    cases ins <;> cases h

end Table

/-- Both counters are right. -/
structure Accounted (s : Adapter) : Prop where
  paths : Counted WdsPath.dst s.paths
  gptrs : Counted WdsGptr.src s.gptrs

/-- Every addition that gets as far as the counter adds its entry: memory is there, the hash table
takes it and the address is new. -/
def AddsEntry (cfg : Cfg) (s : Adapter) : Op → Prop
  | .pathAdd now dst nextHop mem ins => dst ≠ cfg.macAddr → dst.isMcast = false →
      Adds WdsPath.dst s.paths ⟨dst, nextHop, now⟩ mem ins
  | .gptrUpdate now src mem ins => find WdsGptr.src s.gptrs.entries src = none →
      Adds WdsGptr.src s.gptrs ⟨src, now⟩ mem ins
  | _ => True

theorem accounted_init : Accounted init := by
  constructor
  · exact ⟨List.nodup_nil, rfl⟩
  · exact ⟨List.nodup_nil, rfl⟩

theorem counted_assignNexthop {t : Tbl WdsPath} (dst : Mac) (sta : StaTable.Slot) :
    Counted WdsPath.dst { t with entries := assignNexthop t.entries dst sta } ↔
      Counted WdsPath.dst t := by
  have hmap : (assignNexthop t.entries dst sta).map WdsPath.dst = t.entries.map WdsPath.dst :=
    map_modify WdsPath.dst fun _ _ => rfl
  have hlen : (assignNexthop t.entries dst sta).length = t.entries.length := by
    simp [assignNexthop, Keyed.modify]
  constructor
  · rintro ⟨hu, hn⟩
    refine ⟨by rw [Keyed.Unique, ← hmap]; exact hu, ?_⟩
    rw [← hlen]
    exact hn
  · rintro ⟨hu, hn⟩
    refine ⟨by rw [Keyed.Unique, hmap]; exact hu, ?_⟩
    dsimp only
    rw [hlen]
    exact hn

theorem pathAdd_gptrs (cfg : Cfg) (s : Adapter) (now : Jiffies) (dst : Mac)
    (nextHop : StaTable.Slot) (mem ins : Bool) :
    (pathAdd cfg s now dst nextHop mem ins).1.gptrs = s.gptrs := by
  unfold pathAdd
  split_ifs
  · rfl
  · rfl
  · split <;> rfl

theorem accounted_pathAdd_iff (cfg : Cfg) {s : Adapter} (h : Accounted s) (now : Jiffies)
    (dst : Mac) (nextHop : StaTable.Slot) (mem ins : Bool) :
    Accounted (pathAdd cfg s now dst nextHop mem ins).1 ↔
      AddsEntry cfg s (.pathAdd now dst nextHop mem ins) := by
  have hadd := counted_add_iff h.paths ⟨dst, nextHop, now⟩ mem ins
  have hpaths : Accounted (pathAdd cfg s now dst nextHop mem ins).1 ↔
      Counted WdsPath.dst (pathAdd cfg s now dst nextHop mem ins).1.paths := by
    refine ⟨Accounted.paths, fun hp => ⟨hp, ?_⟩⟩
    rw [pathAdd_gptrs]
    exact h.gptrs
  rw [hpaths, AddsEntry, ← hadd]
  unfold pathAdd
  by_cases hself : dst = cfg.macAddr
  · simpa [hself] using h.paths
  by_cases hmcast : dst.isMcast
  · simpa [hself, hmcast] using h.paths
  rw [Bool.not_eq_true] at hmcast
  simp only [beq_iff_eq, hself, if_false, hmcast, Bool.false_eq_true, ne_eq, not_false_eq_true,
    true_imp_iff]
  rcases s.paths.add WdsPath.dst ⟨dst, nextHop, now⟩ mem ins with ⟨t, e | p⟩
  · rfl
  · exact counted_assignNexthop dst nextHop

theorem accounted_gptrUpdate_iff (cfg : Cfg) {s : Adapter} (h : Accounted s) (now : Jiffies)
    (src : Mac) (mem ins : Bool) :
    Accounted (gptrUpdate s now src mem ins) ↔ AddsEntry cfg s (.gptrUpdate now src mem ins) := by
  have hadd := counted_add_iff h.gptrs ⟨src, now⟩ mem ins
  simp only [gptrUpdate, gptrAdd, AddsEntry]
  rw [← hadd]
  cases hfind : find WdsGptr.src s.gptrs.entries src with
  | none => exact ⟨fun ha _ => ha.gptrs, fun hg => ⟨h.paths, hg rfl⟩⟩
  | some g => exact iff_of_true ⟨h.paths, h.gptrs.modify src fun _ => rfl⟩ nofun

theorem accounted_step_iff (cfg : Cfg) {s : Adapter} (h : Accounted s) (op : Op) :
    Accounted (step cfg s op) ↔ AddsEntry cfg s op := by
  cases op with
  | pathAdd now dst nextHop mem ins => exact accounted_pathAdd_iff cfg h now dst nextHop mem ins
  | pathDel addr =>
    refine iff_of_true ?_ trivial
    simp only [step, pathDel]
    cases hfind : find WdsPath.dst s.paths.entries addr with
    | none => exact h
    | some p => exact ⟨h.paths.del hfind, h.gptrs⟩
  | flushByNexthop sta visited => exact iff_of_true ⟨h.paths.walk _ visited, h.gptrs⟩ trivial
  | flushByIface visited => exact iff_of_true ⟨h.paths.walk _ visited, h.gptrs⟩ trivial
  | pathExpire now visited => exact iff_of_true ⟨h.paths.walk _ visited, h.gptrs⟩ trivial
  | gptrUpdate now src mem ins => exact accounted_gptrUpdate_iff cfg h now src mem ins
  | gptrExpire now visited => exact iff_of_true ⟨h.paths, h.gptrs.walk _ visited⟩ trivial

theorem pathAdd_enospc {cfg : Cfg} {s : Adapter} {now : Jiffies} {dst : Mac}
    {nextHop : StaTable.Slot} {mem ins : Bool}
    (h : (pathAdd cfg s now dst nextHop mem ins).2 = .error .enospc) : s.paths.num = maxPaths := by
  unfold pathAdd at h
  split_ifs at h
  · cases h
  · cases h
  · have hadd : (s.paths.add WdsPath.dst ⟨dst, nextHop, now⟩ mem ins).2 = .error .enospc := by
      rcases ht : s.paths.add WdsPath.dst ⟨dst, nextHop, now⟩ mem ins with ⟨t, e | p⟩
      · rw [ht] at h
        simpa using h
      · rw [ht] at h
        cases h
    exact add_enospc hadd

/-- The counters are right in every state of a run exactly if every addition that gets as far as
the counter adds its entry; `-ENOSPC`, from either table, then means that this table has
`RTW_WDS_MAX_PATHS` entries. -/
theorem wds_tables_counted_iff (cfg : Cfg) (ops : List Op) :
    ((∀ k, Accounted (run (step cfg) init (ops.take k))) ↔
        Along (step cfg) (AddsEntry cfg) init ops) ∧
      (Along (step cfg) (AddsEntry cfg) init ops →
        (∀ now dst nextHop mem ins,
          (pathAdd cfg (run (step cfg) init ops) now dst nextHop mem ins).2 = .error .enospc →
            ((run (step cfg) init ops).paths.entries.length : ℤ) = maxPaths) ∧
        ∀ now src mem ins,
          (gptrAdd (run (step cfg) init ops) now src mem ins).2 = .error .enospc →
            ((run (step cfg) init ops).gptrs.entries.length : ℤ) = maxPaths) := by
  constructor
  · exact forall_take_iff_along (fun s op _ hs => accounted_step_iff cfg hs op) accounted_init
  · intro h
    have hacc : Accounted (run (step cfg) init ops) :=
      run_invariant (fun s op hs hop => (accounted_step_iff cfg hs op).mpr hop) accounted_init h
    constructor
    · intro now dst nextHop mem ins hspc
      rw [← hacc.paths.num]
      exact pathAdd_enospc hspc
    · intro now src mem ins hspc
      rw [← hacc.gptrs.num]
      exact add_enospc hspc

/-- A path that is there already is counted again when it is added again. -/
theorem wds_path_counted_twice :
    ¬ Accounted (run (step ⟨Mac.zero, 1⟩) init
      (List.replicate 2 (.pathAdd 0 #v[2, 0, 0, 0, 0, 1] ⟨0, by decide⟩ true true))) := by
  rintro ⟨⟨-, hnum⟩, -⟩
  revert hnum
  decide

end Rtl8821cu.Wds
