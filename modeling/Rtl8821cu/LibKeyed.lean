import Mathlib

/-! Lists whose entries are told apart by a key: look-up, change and removal of one entry. -/
namespace Rtl8821cu.Keyed

variable {α κ : Type*} [DecidableEq κ] (key : α → κ)

def find (l : List α) (k : κ) : Option α := l.find? fun a => key a = k

def modify (l : List α) (k : κ) (f : α → α) : List α := l.map fun a => if key a = k then f a else a

def remove (l : List α) (k : κ) : List α := l.filter fun a => key a ≠ k

/-- No two entries have the same key. -/
def Unique (l : List α) : Prop := (l.map key).Nodup

variable {key} {l l₁ l₂ : List α} {k : κ} {a : α} {f : α → α}

theorem find_eq_none : find key l k = none ↔ ∀ a ∈ l, key a ≠ k := by
  simp [find]

theorem modify_of_not_mem (h : ∀ a ∈ l, key a ≠ k) : modify key l k f = l := by
  unfold modify
  rw [List.map_congr_left fun a ha => if_neg (h a ha), List.map_id']

theorem remove_of_not_mem (h : ∀ a ∈ l, key a ≠ k) : remove key l k = l := by
  unfold remove
  rw [List.filter_eq_self]
  intro a ha
  simpa using h a ha

theorem modify_append : modify key (l₁ ++ l₂) k f = modify key l₁ k f ++ modify key l₂ k f :=
  List.map_append

theorem remove_append : remove key (l₁ ++ l₂) k = remove key l₁ k ++ remove key l₂ k :=
  List.filter_append _ _

/-- The one entry with a key, with the entries before and behind it. -/
theorem find_split (hl : Unique key l) (h : find key l k = some a) :
    ∃ l₁ l₂, l = l₁ ++ a :: l₂ ∧ key a = k ∧ (∀ x ∈ l₁, key x ≠ k) ∧ ∀ x ∈ l₂, key x ≠ k := by
  obtain ⟨ha, l₁, l₂, rfl, hl₁⟩ := List.find?_eq_some_iff_append.1 h
  have ha' : key a = k := by simpa using ha
  refine ⟨l₁, l₂, rfl, ha', fun x hx => by simpa using hl₁ x hx, fun x hx he => ?_⟩
  have hnodup : (key a :: l₂.map key).Nodup := by
    have := (List.nodup_append.1 (by simpa [Unique] using hl)).2.1
    simpa using this
  exact (List.nodup_cons.1 hnodup).1 (List.mem_map.2 ⟨x, hx, by rw [he, ha']⟩)

theorem modify_split (ha : key a = k) (h₁ : ∀ x ∈ l₁, key x ≠ k) (h₂ : ∀ x ∈ l₂, key x ≠ k) :
    modify key (l₁ ++ a :: l₂) k f = l₁ ++ f a :: l₂ := by
  have hcons : modify key (a :: l₂) k f = f a :: modify key l₂ k f := by
    simp [modify, ha]
  rw [modify_append, hcons, modify_of_not_mem h₁, modify_of_not_mem h₂]

theorem remove_split (ha : key a = k) (h₁ : ∀ x ∈ l₁, key x ≠ k) (h₂ : ∀ x ∈ l₂, key x ≠ k) :
    remove key (l₁ ++ a :: l₂) k = l₁ ++ l₂ := by
  have hcons : remove key (a :: l₂) k = remove key l₂ k := by
    simp [remove, ha]
  rw [remove_append, hcons, remove_of_not_mem h₁, remove_of_not_mem h₂]

theorem map_modify {β : Type*} (g : α → β) (hg : ∀ a, key a = k → g (f a) = g a) :
    (modify key l k f).map g = l.map g := by
  unfold modify
  rw [List.map_map]
  refine List.map_congr_left fun a _ => ?_
  by_cases ha : key a = k
  · simp [ha, hg a ha]
  · simp [ha]

theorem Unique.modify (hl : Unique key l) (hf : ∀ a, key (f a) = key a) :
    Unique key (modify key l k f) := by
  unfold Unique at *
  rwa [map_modify key fun a _ => hf a]

theorem Unique.remove (hl : Unique key l) (k : κ) : Unique key (remove key l k) :=
  List.Nodup.sublist (List.filter_sublist.map key) hl

theorem Unique.cons (hl : Unique key l) (h : find key l (key a) = none) : Unique key (a :: l) := by
  refine List.nodup_cons.2 ⟨fun hmem => ?_, hl⟩
  obtain ⟨x, hx, he⟩ := List.mem_map.1 hmem
  exact find_eq_none.1 h x hx he

theorem find_remove (l : List α) (k : κ) : find key (remove key l k) k = none := by
  rw [find_eq_none]
  intro a ha
  simpa using (List.mem_filter.1 ha).2

theorem find_remove_of_ne {k' : κ} (h : k' ≠ k) : find key (remove key l k) k' = find key l k' := by
  unfold find remove
  rw [List.find?_filter]
  congr 1
  funext a
  by_cases ha : key a = k' <;> simp [ha, h]

theorem find_modify_self (hf : ∀ a, key (f a) = key a) (h : find key l k = some a) :
    find key (modify key l k f) k = some (f a) := by
  obtain ⟨ha, l₁, l₂, rfl, h₁⟩ := List.find?_eq_some_iff_append.1 h
  have ha' : key a = k := by simpa using ha
  have h₁' : ∀ x ∈ l₁, key x ≠ k := fun x hx => by simpa using h₁ x hx
  have hcons : modify key (a :: l₂) k f = f a :: modify key l₂ k f := by
    simp [modify, ha']
  rw [modify_append, modify_of_not_mem h₁', hcons]
  refine List.find?_eq_some_iff_append.2 ⟨by simp [hf, ha'], l₁, _, rfl, ?_⟩
  simpa using h₁'

theorem find_modify_of_ne {k' : κ} (hf : ∀ a, key (f a) = key a) (h : k' ≠ k) :
    find key (modify key l k f) k' = find key l k' := by
  induction l with
  | nil => rfl
  | cons a l ih =>
    unfold find modify at *
    rw [List.map_cons, List.find?_cons, List.find?_cons, ih]
    by_cases ha : key a = k
    · have hne : key a ≠ k' := fun he => h (he.symm.trans ha)
      simp [ha, hf, h.symm]
    · simp [ha]

/-- A table loses one entry when the key is in it. -/
theorem length_remove (hl : Unique key l) (h : find key l k = some a) :
    (remove key l k).length + 1 = l.length := by
  obtain ⟨l₁, l₂, rfl, ha, h₁, h₂⟩ := find_split hl h
  rw [remove_split ha h₁ h₂]
  simp
  omega

theorem mem_of_find (h : find key l k = some a) : a ∈ l ∧ key a = k := by
  refine ⟨List.mem_of_find?_eq_some h, ?_⟩
  simpa using List.find?_some h

/-- An entry is found under its key. -/
theorem find_of_mem (hl : Unique key l) (ha : a ∈ l) : find key l (key a) = some a := by
  rcases hfind : find key l (key a) with _ | b
  · exact absurd rfl (find_eq_none.1 hfind a ha)
  · obtain ⟨hb, hkey⟩ := mem_of_find hfind
    rw [List.inj_on_of_nodup_map hl hb ha hkey]

end Rtl8821cu.Keyed
