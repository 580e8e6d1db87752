import Mathlib.Algebra.Group.Nat.Defs
import StateSpace.Diagram.Edge

/-!
# Edges as pairs of an index and a sign

As long as indices stay below `2^31`, an edge is its index with its sign, and complementing it changes
the sign only. The two edges to the terminal are the constants.
-/

namespace StateSpace.Edge

variable {e e' : Edge} {i : Nat}

theorem eq_of_toInt (h : e.code.toInt = e'.code.toInt) : e = e' := by
  cases e
  cases e'
  exact congrArg Edge.mk (Int32.toInt_inj.1 h)

@[simp] theorem neg_code (e : Edge) : (-e).code = -e.code := rfl

@[simp] theorem neg_neg (e : Edge) : -(-e) = e := congrArg Edge.mk Int32.neg_neg

theorem neg_inj : -e = -e' ↔ e = e' :=
  ⟨fun h => by rw [← neg_neg e, h, neg_neg], fun h => h ▸ rfl⟩

theorem isComplemented_iff : e.isComplemented = true ↔ e.code.toInt < 0 := by
  unfold isComplemented
  rw [decide_eq_true_iff, Int32.lt_iff_toInt_lt, Int32.toInt_zero]

theorem isComplemented_eq_false_iff : e.isComplemented = false ↔ 0 ≤ e.code.toInt := by
  rw [← Bool.not_eq_true, isComplemented_iff, Int.not_lt]

/-! ## Complements -/

@[simp] theorem index_neg (e : Edge) : (-e).index = e.index := by
  unfold index
  rw [neg_code, Int32.toInt_neg, Int.bmod_def]
  have h₁ := Int32.le_toInt e.code
  have h₂ := Int32.toInt_lt e.code
  split <;> omega

theorem isComplemented_neg (h0 : 0 < e.index) (hlt : e.index < 2 ^ 31) :
    (-e).isComplemented = !e.isComplemented := by
  unfold index at h0 hlt
  have hneg : (-e).code.toInt = -e.code.toInt := by
    rw [neg_code, Int32.toInt_neg, Int.bmod_def]
    split <;> omega
  cases he : e.isComplemented with
  | true =>
    rw [isComplemented_iff] at he
    simp only [Bool.not_true, isComplemented_eq_false_iff]
    omega
  | false =>
    rw [isComplemented_eq_false_iff] at he
    simp only [Bool.not_false, isComplemented_iff]
    omega

/-- Below `2^31`, an edge is its index with its sign. -/
theorem ext_index (h : e.index = e'.index) (hs : e.isComplemented = e'.isComplemented) :
    e = e' := by
  apply eq_of_toInt
  unfold index at h
  cases he : e.isComplemented with
  | true =>
    rw [he] at hs
    rw [isComplemented_iff] at he
    have he' := isComplemented_iff.1 hs.symm
    omega
  | false =>
    rw [he] at hs
    rw [isComplemented_eq_false_iff] at he
    have he' := isComplemented_eq_false_iff.1 hs.symm
    omega

theorem eq_or_eq_neg (h0 : 0 < e.index) (hlt : e.index < 2 ^ 31) (h : e.index = e'.index) :
    e = e' ∨ e = -e' := by
  cases hs : e.isComplemented == e'.isComplemented with
  | true => exact .inl (ext_index h (by simpa using hs))
  | false =>
    right
    refine ext_index (h.trans (index_neg e').symm) ?_
    rw [isComplemented_neg (h ▸ h0) (h ▸ hlt)]
    cases h₁ : e.isComplemented <;> cases h₂ : e'.isComplemented <;> simp_all

/-! ## Plain edges -/

theorem index_ofIndex (h : i < 2 ^ 31) : (ofIndex i).index = i := by
  unfold index ofIndex
  rw [Int32.toInt_ofNat_of_lt h]
  rfl

theorem isComplemented_ofIndex (h : i < 2 ^ 31) : (ofIndex i).isComplemented = false := by
  rw [isComplemented_eq_false_iff]
  unfold ofIndex
  rw [Int32.toInt_ofNat_of_lt h]
  omega

/-! ## Constants -/

@[simp] theorem index_one : one.index = 1 := rfl

@[simp] theorem index_zero : zero.index = 1 := rfl

@[simp] theorem neg_one : -one = zero := rfl

@[simp] theorem neg_zero : -zero = one := rfl

theorem one_ne_zero : one ≠ zero := by decide

theorem isTerminal_iff : e.isTerminal = true ↔ e.index = 1 := beq_iff_eq

theorem isTerminal_eq_false_iff : e.isTerminal = false ↔ e.index ≠ 1 := by
  rw [← Bool.not_eq_true, isTerminal_iff]

theorem eq_one_or_eq_zero (h : e.index = 1) : e = one ∨ e = zero := by
  rw [← neg_one]
  exact eq_or_eq_neg (by omega) (by omega) h

theorem index_ne_one (h₁ : e ≠ one) (h₀ : e ≠ zero) : e.index ≠ 1 := by
  intro h
  rcases eq_one_or_eq_zero h with h | h
  · exact h₁ h
  · exact h₀ h

end StateSpace.Edge
