import Mathlib

/-! Things kept in finitely many places: what the places hold together, and how it changes when
a thing moves from one place to another. -/
namespace Rtl8821cu.Pool

variable {ι α : Type*} [Fintype ι]

/-- Everything held in some place, with multiplicity. -/
def total (P : ι → Multiset α) : Multiset α := ∑ i, P i

theorem mem_total {P : ι → Multiset α} {a : α} : a ∈ total P ↔ ∃ i, a ∈ P i := by
  simp [total, Multiset.mem_sum]

theorem total_filter (P : ι → Multiset α) (p : α → Prop) [DecidablePred p] :
    total (fun i => (P i).filter p) = (total P).filter p := by
  unfold total
  induction (Finset.univ : Finset ι) using Finset.cons_induction with
  | empty => simp
  | cons i s hi ih => rw [Finset.sum_cons, Finset.sum_cons, Multiset.filter_add, ih]

variable [DecidableEq ι]

/-- Replacing the content of one place. -/
theorem total_update (P : ι → Multiset α) (i : ι) (m : Multiset α) :
    total (Function.update P i m) + P i = total P + m := by
  unfold total
  rw [Finset.sum_update_of_mem (Finset.mem_univ i), Finset.sdiff_singleton_eq_erase,
    ← Finset.add_sum_erase _ _ (Finset.mem_univ i)]
  abel

variable [DecidableEq α]

/-- Taking a thing out of every place and putting it into one. -/
theorem total_put (P : ι → Multiset α) (i : ι) (a : α) :
    total (Function.update (fun j => (P j).filter (· ≠ a)) i ((P i).filter (· ≠ a) + {a})) =
      (total P).filter (· ≠ a) + {a} := by
  have h := total_update (fun j => (P j).filter (· ≠ a)) i ((P i).filter (· ≠ a) + {a})
  rw [total_filter, add_left_comm, add_comm] at h
  exact add_left_cancel h

theorem filter_ne_of_notMem {s : Multiset α} {a : α} (h : a ∉ s) : s.filter (· ≠ a) = s :=
  Multiset.filter_eq_self.mpr fun _ hb hba => h (hba ▸ hb)

theorem filter_ne_add_of_mem {s : Multiset α} {a : α} (hs : s.Nodup) (h : a ∈ s) :
    s.filter (· ≠ a) + {a} = s := by
  rw [← hs.erase_eq_filter, add_comm, Multiset.singleton_add, Multiset.cons_erase h]

end Rtl8821cu.Pool
