import Mathlib

/-! Logs of what happened to the objects of a system, and the history of each object. -/
namespace Rtl8821cu.History

variable {κ α : Type*}

/-- The things of `as` happen to `k`. -/
def note (l : List (κ × α)) (k : κ) (as : List α) : List (κ × α) := l ++ as.map (Prod.mk k)

theorem note_note (l : List (κ × α)) (k : κ) (as bs : List α) :
    note (note l k as) k bs = note l k (as ++ bs) := by
  simp [note]

section Objects

variable [DecidableEq κ]

/-- What happened to `k`, in order. -/
def hist (k : κ) (l : List (κ × α)) : List α := (l.filter fun e => e.1 == k).map Prod.snd

@[simp] theorem hist_note_self (l : List (κ × α)) (k : κ) (as : List α) :
    hist k (note l k as) = hist k l ++ as := by
  have hall : (as.map (Prod.mk k)).filter (fun e => e.1 == k) = as.map (Prod.mk k) := by
    rw [List.filter_eq_self]
    simp
  rw [hist, note, List.filter_append, hall, List.map_append, List.map_map]
  simp [hist, Function.comp_def]

theorem hist_note_ne (l : List (κ × α)) {k k' : κ} (h : k' ≠ k) (as : List α) :
    hist k' (note l k as) = hist k' l := by
  have hnone : (as.map (Prod.mk k)).filter (fun e => e.1 == k') = [] := by
    rw [List.filter_eq_nil_iff]
    simpa using fun _ _ => h.symm
  rw [hist, note, List.filter_append, hnone, List.append_nil, hist]

end Objects

section Acts

variable [DecidableEq α]

/-- The objects to which `a` happened, in order. -/
def order (a : α) (l : List (κ × α)) : List κ := (l.filter fun e => e.2 == a).map Prod.fst

theorem order_note (l : List (κ × α)) (k : κ) (as : List α) (a : α) :
    order a (note l k as) = order a l ++ List.replicate (as.count a) k := by
  have htail : ((as.map (Prod.mk k)).filter fun e => e.2 == a).map Prod.fst =
      List.replicate (as.count a) k := by
    induction as with
    | nil => rfl
    | cons x as ih =>
      by_cases hx : x = a
      · subst hx
        simp [List.replicate_succ, ih]
      · simp [hx, ih]
  rw [order, note, List.filter_append, List.map_append, htail, order]

end Acts

end Rtl8821cu.History
