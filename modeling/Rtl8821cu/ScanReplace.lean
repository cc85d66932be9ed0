import Rtl8821cu.ScanTable

/-! The records of the scan table are conserved, and a report changes one record at most: that of
its network, a free one, or the one with the weakest signal among those that are not fixed. -/
namespace Rtl8821cu.ScanTable
open Run

/-- Every record is in the queue or in the pool, and the counter is the length of the queue. -/
structure Table (maxBssCnt : BitVec 16) (s : Mlme) : Prop where
  perm : (s.scannedQueue ++ s.freeBssPool).Perm (List.range maxBssCnt.toNat)
  num : s.numOfScanned.toNat = s.scannedQueue.length

/-- What a report does to the table: it updates a record of its network, or adds one from the pool,
or replaces the one that is not fixed and has the least `key`, or is dropped. -/
def Outcome (key : WlanNetwork → ℕ) (env : Env) (target : BssidEx) (s t : Mlme) : Prop :=
  (∃ id ∈ s.scannedQueue, Same env (s.recs id) target = true ∧
      t = s.setRec id ((s.recs id).updated env target).1) ∨
    (∀ id ∈ s.scannedQueue, Same env (s.recs id) target = false) ∧
      ((∃ id pool, s.freeBssPool = id :: pool ∧
          t = { s.setRec id (((s.recs id).reset env).overwritten env target) with
            freeBssPool := pool
            scannedQueue := s.scannedQueue ++ [id]
            numOfScanned := s.numOfScanned + 1 }) ∨
        s.freeBssPool = [] ∧
          ((∃ id ∈ s.scannedQueue, (s.recs id).fixed = false ∧
              (∀ j ∈ s.scannedQueue, (s.recs j).fixed = false → key (s.recs id) ≤ key (s.recs j)) ∧
              t = s.setRec id (((s.recs id).overwritten env target).reset env)) ∨
            (∀ id ∈ s.scannedQueue, (s.recs id).fixed = true) ∧ t = s))

section Search

variable {env : Env} {recs : ℕ → WlanNetwork} {target : BssidEx}

/-- The record that is found is that of the report's network. -/
theorem search_found {ids : List ℕ} {choice : Option ℕ} {id : ℕ} {c : Option ℕ}
    (h : search env recs target ids choice = (some id, c)) :
    id ∈ ids ∧ Same env (recs id) target = true := by
  induction ids generalizing choice with
  | nil => simp [search] at h
  | cons j ids ih =>
    unfold search at h
    split at h
    · rename_i hsame
      obtain ⟨rfl, -⟩ : j = id ∧ choice = c := by simpa using h
      exact ⟨List.mem_cons_self, hsame⟩
    · have hmem : ∀ {ch}, search env recs target ids ch = (some id, c) →
          id ∈ j :: ids ∧ Same env (recs id) target = true := by
        intro ch hch
        obtain ⟨hid, hsame⟩ := ih hch
        exact ⟨List.mem_cons_of_mem j hid, hsame⟩
      split at h
      · exact hmem h
      · split at h
        · exact hmem h
        · split at h <;> exact hmem h

/-- With nothing found, no record is that of the report's network. -/
theorem search_none {ids : List ℕ} {choice c : Option ℕ}
    (h : search env recs target ids choice = (none, c)) :
    ∀ j ∈ ids, Same env (recs j) target = false := by
  induction ids generalizing choice with
  | nil => simp
  | cons i ids ih =>
    unfold search at h
    split at h
    · simp at h
    · rename_i hsame
      have hall : ∀ {ch}, search env recs target ids ch = (none, c) →
          ∀ j ∈ i :: ids, Same env (recs j) target = false := by
        intro ch hch j hj
        rcases List.mem_cons.1 hj with rfl | hj
        · simpa using hsame
        · exact ih hch j hj
      split at h
      · exact hall h
      · split at h
        · exact hall h
        · split at h <;> exact hall h

/-- The strength of a record's signal. -/
def strength (net : WlanNetwork) : ℕ := net.network.signalStrength.toNat

/-- The choice is not fixed and has the weakest signal of the records passed and the choice before
them. -/
structure Weakest (recs : ℕ → WlanNetwork) (ids : List ℕ) (choice : Option ℕ) (id : ℕ) : Prop where
  source : choice = some id ∨ id ∈ ids ∧ (recs id).fixed = false
  prior : ∀ ch, choice = some ch → strength (recs id) ≤ strength (recs ch)
  least : ∀ j ∈ ids, (recs j).fixed = false → strength (recs id) ≤ strength (recs j)

theorem search_choice {ids : List ℕ} {choice : Option ℕ} {id : ℕ}
    (h : search env recs target ids choice = (none, some id)) : Weakest recs ids choice id := by
  induction ids generalizing choice with
  | nil =>
    have hchoice : choice = some id := by simpa [search] using h
    refine ⟨Or.inl hchoice, fun ch hch => ?_, by simp⟩
    obtain rfl := Option.some.inj (hchoice.symm.trans hch)
    exact Nat.le_refl _
  | cons i ids ih =>
    unfold search at h
    split at h
    · simp at h
    split at h
    · rename_i hfixed
      obtain ⟨hsource, hprior, hleast⟩ := ih h
      refine ⟨hsource.imp_right fun hin => ⟨List.mem_cons_of_mem i hin.1, hin.2⟩, hprior, ?_⟩
      intro j hj hno
      rcases List.mem_cons.1 hj with rfl | hj
      · rw [hfixed] at hno
        exact absurd hno (by decide)
      · exact hleast j hj hno
    · rename_i hfixed
      have hopen : (recs i).fixed = false := by simpa using hfixed
      have htake : search env recs target ids (some i) = (none, some id) →
          (∀ ch, choice = some ch → strength (recs i) ≤ strength (recs ch)) →
          Weakest recs (i :: ids) choice id := by
        intro hi hle
        obtain ⟨hsource, hprior, hleast⟩ := ih hi
        have hid := hprior i rfl
        refine ⟨Or.inr ?_, fun ch hch => hid.trans (hle ch hch), fun j hj hno => ?_⟩
        · rcases hsource with heq | ⟨hin, hno⟩
          · obtain rfl := Option.some.inj heq
            exact ⟨List.mem_cons_self, hopen⟩
          · exact ⟨List.mem_cons_of_mem i hin, hno⟩
        · rcases List.mem_cons.1 hj with rfl | hj
          · exact hid
          · exact hleast j hj hno
      split at h
      · exact htake h (by simp)
      · rename_i ch
        split at h
        · rename_i hlt
          refine htake h fun ch' hch' => ?_
          obtain rfl := Option.some.inj hch'
          exact Nat.le_of_lt (BitVec.lt_def.1 hlt)
        · rename_i hge
          obtain ⟨hsource, hprior, hleast⟩ := ih h
          refine ⟨hsource.imp_right fun hin => ⟨List.mem_cons_of_mem i hin.1, hin.2⟩, hprior, ?_⟩
          intro j hj hno
          rcases List.mem_cons.1 hj with rfl | hj
          · exact (hprior ch rfl).trans (BitVec.le_def.1 (BitVec.not_lt.1 hge))
          · exact hleast j hj hno

/-- Nothing is chosen only if every record is fixed. -/
theorem search_no_choice {ids : List ℕ} {choice : Option ℕ}
    (h : search env recs target ids choice = (none, none)) :
    choice = none ∧ ∀ j ∈ ids, (recs j).fixed = true := by
  induction ids generalizing choice with
  | nil => simpa [search] using h
  | cons i ids ih =>
    unfold search at h
    split at h
    · simp at h
    split at h
    · rename_i hfixed
      obtain ⟨hnone, hall⟩ := ih h
      refine ⟨hnone, fun j hj => ?_⟩
      rcases List.mem_cons.1 hj with rfl | hj
      · exact hfixed
      · exact hall j hj
    · split at h
      · exact absurd (ih h).1 (by simp)
      · split at h <;> exact absurd (ih h).1 (by simp)

end Search

theorem update_outcome (env : Env) (s : Mlme) (target : BssidEx) :
    Outcome strength env target s (s.rtwUpdateScannedNetwork env target).1 := by
  unfold Mlme.rtwUpdateScannedNetwork
  split
  · rename_i id c hfound
    obtain ⟨hid, hsame⟩ := search_found hfound
    exact Or.inl ⟨id, hid, hsame, rfl⟩
  · rename_i choice hnone
    refine Or.inr ⟨search_none hnone, ?_⟩
    cases hpool : s.freeBssPool with
    | cons id pool => exact Or.inl ⟨id, pool, rfl, rfl⟩
    | nil =>
      refine Or.inr ⟨rfl, ?_⟩
      cases choice with
      | none => exact Or.inr ⟨(search_no_choice hnone).2, rfl⟩
      | some id =>
        obtain ⟨hsource, -, hleast⟩ := search_choice hnone
        rcases hsource with hno | ⟨hid, hfixed⟩
        · exact absurd hno (by simp)
        · exact Or.inl ⟨id, hid, hfixed, hleast, rfl⟩

section Tables

variable {maxBssCnt : BitVec 16} {s : Mlme}

theorem Table.nodup (h : Table maxBssCnt s) : (s.scannedQueue ++ s.freeBssPool).Nodup :=
  h.perm.nodup_iff.2 List.nodup_range

theorem Table.length_le (h : Table maxBssCnt s) :
    s.scannedQueue.length + s.freeBssPool.length = maxBssCnt.toNat := by
  have hlen := h.perm.length_eq
  rwa [List.length_append, List.length_range] at hlen

theorem Table.setRec (h : Table maxBssCnt s) (id : ℕ) (net : WlanNetwork) :
    Table maxBssCnt (s.setRec id net) := ⟨h.perm, h.num⟩

theorem Table.toPool (h : Table maxBssCnt s) {id : ℕ} (hid : id ∈ s.scannedQueue) :
    Table maxBssCnt (s.toPool id) where
  perm := by
    refine List.Perm.trans ?_ h.perm
    have herase := List.perm_cons_erase hid
    refine List.Perm.trans ?_ (herase.symm.append_right s.freeBssPool)
    rw [Mlme.toPool, ← List.append_assoc]
    exact List.perm_append_singleton id _
  num := by
    have hnum := h.num
    have hlen := List.length_erase_of_mem hid
    have hpos := List.length_pos_of_mem hid
    simp only [Mlme.toPool, hlen]
    have hone : (1 : BitVec 32) ≤ s.numOfScanned := by
      rw [BitVec.le_def, hnum]
      exact hpos
    rw [BitVec.toNat_sub_of_le hone, hnum]
    rfl

theorem Table.update (h : Table maxBssCnt s) (env : Env) (target : BssidEx) :
    Table maxBssCnt (s.rtwUpdateScannedNetwork env target).1 := by
  rcases update_outcome env s target with ⟨id, -, -, ht⟩ | ⟨-, hnew | ⟨-, hold | ⟨-, ht⟩⟩⟩
  · rw [ht]
    exact h.setRec id _
  · obtain ⟨id, pool, hpool, ht⟩ := hnew
    have hlen := h.length_le
    have hlt := maxBssCnt.isLt
    rw [hpool, List.length_cons] at hlen
    rw [ht]
    refine ⟨?_, ?_⟩
    · have hperm := h.perm
      rw [hpool] at hperm
      rwa [List.append_assoc]
    · simp only [List.length_append, List.length_singleton, BitVec.toNat_add, h.num]
      exact Nat.mod_eq_of_lt (by simp; omega)
  · obtain ⟨id, -, -, -, ht⟩ := hold
    rw [ht]
    exact h.setRec id _
  · rw [ht]
    exact h

/-- A record is freed, or left. -/
theorem rtwFreeNetwork_cases (env : Env) (s : Mlme) (id : ℕ) (isfreeall : Bool) :
    s.rtwFreeNetwork env id isfreeall = s ∨ s.rtwFreeNetwork env id isfreeall = s.toPool id := by
  unfold Mlme.rtwFreeNetwork
  generalize (if env.adhoc then 1 else scanqueueLifetime) = lifetime
  dsimp only
  split
  · exact Or.inl rfl
  split
  · exact Or.inl rfl
  · exact Or.inr rfl

theorem Table.free (h : Table maxBssCnt s) (env : Env) {id : ℕ} (hid : id ∈ s.scannedQueue)
    (isfreeall : Bool) : Table maxBssCnt (s.rtwFreeNetwork env id isfreeall) := by
  rcases rtwFreeNetwork_cases env s id isfreeall with heq | heq
  · rwa [heq]
  · rw [heq]
    exact h.toPool hid

/-- What is freed leaves the other records in the queue. -/
theorem mem_scanned_free (env : Env) {id j : ℕ} (hj : j ∈ s.scannedQueue) (hne : j ≠ id)
    (isfreeall : Bool) : j ∈ (s.rtwFreeNetwork env id isfreeall).scannedQueue := by
  rcases rtwFreeNetwork_cases env s id isfreeall with heq | heq
  · rwa [heq]
  · rw [heq]
    exact (List.mem_erase_of_ne hne).2 hj

theorem Table.freeList (h : Table maxBssCnt s) (env : Env) (isfreeall : Bool) {ids : List ℕ}
    (hnodup : ids.Nodup) (hids : ∀ id ∈ ids, id ∈ s.scannedQueue) :
    Table maxBssCnt (ids.foldl (fun s id => s.rtwFreeNetwork env id isfreeall) s) := by
  induction ids generalizing s with
  | nil => exact h
  | cons id ids ih =>
    rw [List.nodup_cons] at hnodup
    refine ih (h.free env (hids id List.mem_cons_self) isfreeall) hnodup.2 fun j hj => ?_
    refine mem_scanned_free env (hids j (List.mem_cons_of_mem id hj)) ?_ isfreeall
    rintro rfl
    exact hnodup.1 hj

theorem Table.step (h : Table maxBssCnt s) (ev : Ev) (hev : Listed s ev) :
    Table maxBssCnt (step s ev) := by
  cases ev with
  | update env target => exact h.update env target
  | freeQueue env isfreeall =>
    exact h.freeList env isfreeall (List.nodup_append.1 h.nodup).1 fun _ hid => hid
  | free env id isfreeall => exact h.free env hev isfreeall
  | freeNolock id =>
    unfold ScanTable.step Mlme.rtwFreeNetworkNolock
    dsimp only
    split
    · exact h
    · exact h.toPool hev
  | write id net => exact h.setRec id net

theorem table_init (maxBssCnt : BitVec 16) (recs : ℕ → WlanNetwork) :
    Table maxBssCnt (init maxBssCnt recs) :=
  ⟨List.Perm.refl _, rfl⟩

end Tables

/-- In every state of a run the records are in the queue or in the pool, and a report then updates
one record of its network, adds one, replaces the one with the weakest signal, or is dropped when
all are fixed. -/
theorem scan_table_conserved (maxBssCnt : BitVec 16) (recs : ℕ → WlanNetwork) (es : List Ev)
    (hlisted : Along step Listed (init maxBssCnt recs) es) :
    Table maxBssCnt (run step (init maxBssCnt recs) es) ∧
      ∀ env target, Outcome strength env target (run step (init maxBssCnt recs) es)
        (step (run step (init maxBssCnt recs) es) (.update env target)) := by
  refine ⟨?_, fun env target => update_outcome env _ target⟩
  exact run_invariant (fun s ev h hev => h.step ev hev) (table_init maxBssCnt recs) hlisted

/-- A report of a network with the given address and signal strength. -/
def exampleReport (last : BitVec 8) (signal : BitVec 8) : BssidEx :=
  ⟨.ending last, bssTypeBcn, [0x61], -50, .infrastructure, signal, 80, 1, []⟩

def exampleEnv (now : BitVec 64) : Env :=
  ⟨now, fun t => t.setWidth 32, false, false, none, fun bss => (true, ⟨bss.ssid, []⟩),
    fun a b => a == b⟩

def exampleRec : WlanNetwork := ⟨0, false, 0, 0, 0, 0, ⟨[], []⟩, false, exampleReport 0 0⟩

/-- Two networks are reported, the older one with the stronger signal. -/
def exampleRun : List Ev :=
  [.update (exampleEnv 10) (exampleReport 1 90), .update (exampleEnv 20) (exampleReport 2 50)]

theorem scan_table_conserved_example :
    Table 2 (run step (init 2 fun _ => exampleRec) exampleRun) ∧
      ∀ env target, Outcome strength env target (run step (init 2 fun _ => exampleRec) exampleRun)
        (step (run step (init 2 fun _ => exampleRec) exampleRun) (.update env target)) :=
  scan_table_conserved 2 (fun _ => exampleRec) exampleRun ⟨trivial, trivial, trivial⟩

/-- A third report replaces the younger record, whose signal is the weaker one, and not the one
that was scanned first. -/
theorem report_replaces_weakest :
    Along step Listed (init 2 fun _ => exampleRec) exampleRun ∧
      ¬ Outcome (fun net => net.lastScanned.toNat) (exampleEnv 30) (exampleReport 3 70)
        (run step (init 2 fun _ => exampleRec) exampleRun)
        (step (run step (init 2 fun _ => exampleRec) exampleRun)
          (.update (exampleEnv 30) (exampleReport 3 70))) := by
  refine ⟨⟨trivial, trivial, trivial⟩, ?_⟩
  have hqueue : (run step (init 2 fun _ => exampleRec) exampleRun).scannedQueue = [0, 1] := by
    decide
  have hpool : (run step (init 2 fun _ => exampleRec) exampleRun).freeBssPool = [] := by
    decide
  have hsame : ∀ id ∈ [0, 1], Same (exampleEnv 30)
      ((run step (init 2 fun _ => exampleRec) exampleRun).recs id) (exampleReport 3 70) =
        false := by
    decide
  have hopen : ((run step (init 2 fun _ => exampleRec) exampleRun).recs 0).fixed = false := by
    decide
  have hchanged : (step (run step (init 2 fun _ => exampleRec) exampleRun)
      (.update (exampleEnv 30) (exampleReport 3 70))).recs 1 ≠
        (run step (init 2 fun _ => exampleRec) exampleRun).recs 1 := by
    decide
  have holder : ((run step (init 2 fun _ => exampleRec) exampleRun).recs 0).lastScanned.toNat <
      ((run step (init 2 fun _ => exampleRec) exampleRun).recs 1).lastScanned.toNat := by
    decide
  generalize step _ (Ev.update _ _) = t at hchanged ⊢
  generalize run step (init 2 fun _ => exampleRec) exampleRun = s at *
  rintro (⟨id, hid, hfound, -⟩ | ⟨-, ⟨id, pool, hcons, -⟩ | ⟨-, ⟨id, hid, -, hleast, ht⟩ | ⟨hall, -⟩⟩⟩)
  · rw [hqueue] at hid
    rw [hsame id hid] at hfound
    exact absurd hfound (by decide)
  · rw [hpool] at hcons
    exact absurd hcons (by simp)
  · have hone : id = 1 := by
      by_contra hne
      refine hchanged ?_
      rw [ht, Mlme.setRec]
      exact Function.update_of_ne (Ne.symm hne) _ _
    subst hone
    exact absurd (hleast 0 (by rw [hqueue]; simp) hopen) (Nat.not_le.2 holder)
  · have hfixed := hall 0 (by rw [hqueue]; simp)
    rw [hopen] at hfixed
    exact absurd hfixed (by decide)

end Rtl8821cu.ScanTable
