import Mathlib

/-! Iterated hashing: the blocks of a text, `n` elements each, are taken into a state one after the
other. What is behind the last full block waits. -/
namespace Rtl8821cu.Absorb

variable {σ α : Type*} (f : σ → List α → σ) (n : ℕ)

/-- The state after the full blocks of the text. -/
def absorb (s : σ) (l : List α) : σ :=
  (List.range (l.length / n)).foldl (fun s i => f s ((l.drop (n * i)).take n)) s

/-- What is behind the last full block. -/
def rest (l : List α) : List α := l.drop (l.length - l.length % n)

variable {f n} {s : σ} {a b l : List α}

theorem absorb_of_lt (h : l.length < n) : absorb f n s l = s := by
  simp [absorb, Nat.div_eq_of_lt h]

theorem absorb_block (hn : 0 < n) (h : l.length = n) : absorb f n s l = f s l := by
  have hdiv : l.length / n = 1 := by rw [h, Nat.div_self hn]
  simp [absorb, hdiv, List.take_of_length_le h.le]

/-- Full blocks in front are taken in first. -/
theorem absorb_append (hn : 0 < n) (h : a.length % n = 0) :
    absorb f n s (a ++ b) = absorb f n (absorb f n s a) b := by
  obtain ⟨k, hk⟩ := Nat.dvd_of_mod_eq_zero h
  have hdiv : (a ++ b).length / n = k + b.length / n := by
    rw [List.length_append, hk, Nat.mul_add_div hn]
  have hka : a.length / n = k := by rw [hk, Nat.mul_div_cancel_left _ hn]
  rw [absorb, hdiv, List.range_add, List.foldl_append, List.foldl_map, absorb, absorb, hka]
  have hfront : (List.range k).foldl (fun s i => f s (((a ++ b).drop (n * i)).take n)) s =
      (List.range k).foldl (fun s i => f s ((a.drop (n * i)).take n)) s := by
    refine List.foldl_ext _ _ _ fun s i hi => ?_
    have hin : n * (i + 1) ≤ a.length := hk ▸ Nat.mul_le_mul_left n (List.mem_range.mp hi)
    rw [Nat.mul_add, Nat.mul_one] at hin
    rw [List.drop_append_of_le_length (by omega),
      List.take_append_of_le_length (by rw [List.length_drop]; omega)]
  rw [hfront]
  refine List.foldl_ext _ _ _ fun s i _ => ?_
  rw [Nat.mul_add, ← hk, ← List.drop_drop, List.drop_left]

theorem length_rest : (rest n l).length = l.length % n := by
  have hle := Nat.mod_le l.length n
  rw [rest, List.length_drop]
  omega

/-- The full blocks and what is behind them. -/
theorem take_append_rest : l.take (l.length - l.length % n) ++ rest n l = l :=
  List.take_append_drop _ _

theorem mod_length_take : (l.take (l.length - l.length % n)).length % n = 0 := by
  have hle := Nat.mod_le l.length n
  rw [List.length_take, Nat.min_eq_left (by omega)]
  exact Nat.sub_mod_eq_zero_of_mod_eq (Nat.mod_mod _ _).symm

/-- A text goes on from where it stopped: its rest comes before what follows. -/
theorem absorb_rest_append (hn : 0 < n) :
    absorb f n s (l ++ b) = absorb f n (absorb f n s l) (rest n l ++ b) := by
  have hfull : absorb f n s l = absorb f n s (l.take (l.length - l.length % n)) := by
    conv_lhs => rw [← take_append_rest (n := n) (l := l)]
    rw [absorb_append hn mod_length_take, absorb_of_lt]
    rw [length_rest]
    exact Nat.mod_lt _ hn
  conv_lhs => rw [← take_append_rest (n := n) (l := l), List.append_assoc]
  rw [absorb_append hn mod_length_take, hfull]

theorem rest_append_of_full (h : a.length % n = 0) : rest n (a ++ b) = rest n b := by
  have hmod : (a.length + b.length) % n = b.length % n := by
    rw [Nat.add_mod, h, Nat.zero_add, Nat.mod_mod]
  have hle := Nat.mod_le b.length n
  have hsub : a.length + b.length - b.length % n = a.length + (b.length - b.length % n) := by omega
  rw [rest, rest, List.length_append, hmod, hsub, ← List.drop_drop, List.drop_left]

theorem rest_append : rest n (l ++ b) = rest n (rest n l ++ b) := by
  conv_lhs => rw [← take_append_rest (n := n) (l := l), List.append_assoc]
  exact rest_append_of_full mod_length_take

theorem rest_of_lt (h : l.length < n) : rest n l = l := by
  rw [rest, Nat.mod_eq_of_lt h, Nat.sub_self, List.drop_zero]

end Rtl8821cu.Absorb
