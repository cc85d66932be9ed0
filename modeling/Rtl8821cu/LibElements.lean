import Rtl8821cu.LibStore

/-! Lists of elements, each with an id, a length and a body. -/
namespace Rtl8821cu.Elements
open Store

/-- An element; a byte tells the length of its body. -/
structure Element where
  id : BitVec 8
  body : List (BitVec 8)
  length_le : body.length ≤ 255

theorem nil_length_le : ([] : List (BitVec 8)).length ≤ 255 := by decide

/-- The element as it is sent. -/
def Element.bytes (e : Element) : List (BitVec 8) :=
  e.id :: BitVec.ofNat 8 e.body.length :: e.body

/-- One element after the other. -/
def encode (l : List Element) : List (BitVec 8) := l.flatMap Element.bytes

@[simp] theorem length_bytes (e : Element) : e.bytes.length = e.body.length + 2 := rfl

@[simp] theorem encode_nil : encode [] = [] := rfl

theorem encode_cons (e : Element) (l : List Element) : encode (e :: l) = e.bytes ++ encode l := by
  simp [encode]

theorem encode_append (l l' : List Element) : encode (l ++ l') = encode l ++ encode l' := by
  simp [encode]

/-- The bytes tell the elements. -/
theorem encode_injective : Function.Injective encode := by
  intro l l' h
  induction l generalizing l' with
  | nil =>
    cases l' with
    | nil => rfl
    | cons e l' => simp [encode_cons, Element.bytes] at h
  | cons e l ih =>
    cases l' with
    | nil => simp [encode_cons, Element.bytes] at h
    | cons e' l' =>
      obtain ⟨id, body, hle⟩ := e
      obtain ⟨id', body', hle'⟩ := e'
      rw [encode_cons, encode_cons] at h
      obtain ⟨rfl, htail⟩ := List.cons.inj h
      obtain ⟨hlen, hrest⟩ := List.cons.inj htail
      have hlength : body.length = body'.length := by
        have := congrArg BitVec.toNat hlen
        rw [BitVec.toNat_ofNat, BitVec.toNat_ofNat] at this
        dsimp only at this
        omega
      obtain ⟨rfl, hl⟩ := List.append_inj hrest hlength
      rw [ih hl]

variable {mem : ℕ → BitVec 8} {a : ℕ} {e : Element} {l : List Element}

/-- A place holds one list of a length only. -/
theorem eq_of_holdsAt {l' : List Element} (h : HoldsAt mem a (encode l))
    (h' : HoldsAt mem a (encode l')) (hlen : (encode l).length = (encode l').length) : l = l' := by
  apply encode_injective
  rw [← load_of_holdsAt h, hlen, load_of_holdsAt h']

/-- What a memory shows of an element it holds. -/
theorem holdsAt_bytes (h : HoldsAt mem a e.bytes) :
    mem a = e.id ∧ (mem (a + 1)).toNat = e.body.length ∧ HoldsAt mem (a + 2) e.body := by
  obtain ⟨hid, hrest⟩ := holdsAt_cons.mp h
  obtain ⟨hlen, hbody⟩ := holdsAt_cons.mp hrest
  refine ⟨hid, ?_, hbody⟩
  have := e.length_le
  rw [hlen, BitVec.toNat_ofNat]
  omega

theorem holdsAt_encode_cons : HoldsAt mem a (encode (e :: l)) ↔
    HoldsAt mem a e.bytes ∧ HoldsAt mem (a + (e.body.length + 2)) (encode l) := by
  rw [encode_cons, holdsAt_append, length_bytes]

/-- The element that a memory shows at `p`. -/
def elementAt (mem : ℕ → BitVec 8) (p : ℕ) : Element where
  id := mem p
  body := load mem (p + 2) (mem (p + 1)).toNat
  length_le := by
    rw [length_load]
    omega

theorem length_elementAt (mem : ℕ → BitVec 8) (p : ℕ) :
    (elementAt mem p).body.length = (mem (p + 1)).toNat :=
  length_load ..

theorem holdsAt_elementAt (mem : ℕ → BitVec 8) (p : ℕ) : HoldsAt mem p (elementAt mem p).bytes := by
  rw [Element.bytes, holdsAt_cons, holdsAt_cons, length_elementAt, BitVec.ofNat_toNat,
    BitVec.setWidth_eq]
  exact ⟨rfl, rfl, holdsAt_load mem (p + 2) _⟩

/-- Where the elements of a list start that lies from `p` on. -/
def starts (p : ℕ) : List Element → List ℕ
  | [] => []
  | e :: l => p :: starts (p + (e.body.length + 2)) l

/-- A list has no element with a property, or a first one. -/
theorem first_split {α : Type*} (P : α → Prop) (l : List α) : (∀ x ∈ l, ¬P x) ∨
    ∃ front x behind, l = front ++ x :: behind ∧ (∀ y ∈ front, ¬P y) ∧ P x := by
  induction l with
  | nil => exact Or.inl nofun
  | cons y l ih =>
    by_cases hy : P y
    · exact Or.inr ⟨[], y, l, rfl, nofun, hy⟩
    · rcases ih with hnone | ⟨front, x, behind, rfl, hfront, hx⟩
      · exact Or.inl (List.forall_mem_cons.mpr ⟨hy, hnone⟩)
      · exact Or.inr ⟨y :: front, x, behind, rfl, List.forall_mem_cons.mpr ⟨hy, hfront⟩, hx⟩

end Rtl8821cu.Elements
