import Mathlib.Algebra.Group.Nat.Defs
import Mathlib.Data.Nat.Pairing
import Mathlib.Data.Set.Function
import StateSpace.Pairing

/-!
# The numbers of pairs

`pair` is `Nat.pair` modulo `2^64`. On naturals the pairs of numbers below `k` have the numbers below `k^2`
(`natPair_lt_sq`), so the arithmetic wraps as soon as a word reaches `2^32`, and the pairs of words below
that use up all words, each once (`pair_exact`). What the low bits leave of a word is a remainder
(`toNat_and_lowBits`).
-/

namespace StateSpace

/-! ## Pairs -/

/-- The pairs of words below `2^32`. -/
def halfWords : Set (UInt64 × UInt64) := {p | p.1.toNat < 2 ^ 32 ∧ p.2.toNat < 2 ^ 32}

theorem natPair_lt_sq {m n k : Nat} : Nat.pair m n < k ^ 2 ↔ m < k ∧ n < k := by
  rw [← Nat.max_lt]
  constructor
  · intro h
    have hsq : max m n ^ 2 < k ^ 2 :=
      ((Nat.le_add_right ..).trans (Nat.max_sq_add_min_le_pair m n)).trans_lt h
    exact (Nat.pow_lt_pow_iff_left (by decide)).1 hsq
  · intro h
    calc Nat.pair m n < (max m n + 1) ^ 2 := Nat.pair_lt_max_add_one_sq m n
      _ ≤ k ^ 2 := Nat.pow_le_pow_left h 2

/-- Every step of the arithmetic wraps at 64 bits. -/
theorem toNat_pair (a b : UInt64) : (pair a b).toNat = Nat.pair a.toNat b.toNat % 2 ^ 64 := by
  by_cases h : a < b
  · have h' : a.toNat < b.toNat := UInt64.lt_iff_toNat_lt.1 h
    rw [pair, Nat.pair, if_pos h, if_pos h', UInt64.toNat_add, UInt64.toNat_mul, Nat.mod_add_mod]
  · have h' : ¬a.toNat < b.toNat := fun h' => h (UInt64.lt_iff_toNat_lt.2 h')
    rw [pair, Nat.pair, if_neg h, if_neg h', UInt64.toNat_add, UInt64.toNat_add, UInt64.toNat_mul,
      Nat.mod_add_mod, Nat.add_assoc, Nat.mod_add_mod, Nat.add_assoc]

theorem toNat_pair_eq_iff (a b : UInt64) :
    (pair a b).toNat = Nat.pair a.toNat b.toNat ↔ (a, b) ∈ halfWords := by
  rw [toNat_pair, Nat.mod_eq_iff_lt (by decide)]
  exact natPair_lt_sq (k := 2 ^ 32)

theorem injOn_pair : Set.InjOn (fun p : UInt64 × UInt64 => pair p.1 p.2) halfWords := by
  rintro ⟨a, b⟩ hab ⟨c, d⟩ hcd heq
  have hpair : Nat.pair a.toNat b.toNat = Nat.pair c.toNat d.toNat := by
    rw [← (toNat_pair_eq_iff a b).2 hab, ← (toNat_pair_eq_iff c d).2 hcd]
    exact congrArg UInt64.toNat heq
  obtain ⟨hac, hbd⟩ := Nat.pair_eq_pair.1 hpair
  rw [UInt64.toNat_inj.1 hac, UInt64.toNat_inj.1 hbd]

/-- A word below `2^64` has parts below `2^32`. -/
theorem surjOn_pair : Set.SurjOn (fun p : UInt64 × UInt64 => pair p.1 p.2) halfWords Set.univ := by
  intro w _
  obtain ⟨m, n, hw⟩ : ∃ m n, Nat.pair m n = w.toNat := ⟨_, _, Nat.pair_unpair w.toNat⟩
  have hlt : Nat.pair m n < (2 ^ 32) ^ 2 := hw.trans_lt w.toNat_lt
  obtain ⟨hm, hn⟩ := natPair_lt_sq.1 hlt
  have hm' : (UInt64.ofNat m).toNat = m := UInt64.toNat_ofNat_of_lt' (hm.trans (by decide))
  have hn' : (UInt64.ofNat n).toNat = n := UInt64.toNat_ofNat_of_lt' (hn.trans (by decide))
  have hmem : (UInt64.ofNat m, UInt64.ofNat n) ∈ halfWords := ⟨hm'.trans_lt hm, hn'.trans_lt hn⟩
  refine ⟨_, hmem, UInt64.toNat_inj.1 ?_⟩
  rw [(toNat_pair_eq_iff _ _).2 hmem, hm', hn', hw]

/-- The number of a pair of words is exact if and only if both words are below `2^32`, and the pairs of
such words have all words as their numbers, each once. -/
theorem pair_exact :
    (∀ a b, (pair a b).toNat = Nat.pair a.toNat b.toNat ↔ (a, b) ∈ halfWords) ∧
      Set.BijOn (fun p : UInt64 × UInt64 => pair p.1 p.2) halfWords Set.univ :=
  ⟨toNat_pair_eq_iff, Set.mapsTo_univ _ _, injOn_pair, surjOn_pair⟩

/-- The largest pair has the largest number. -/
example : pair 0xffffffff 0xffffffff = 0xffffffffffffffff := by decide

/-! ## Slots -/

/-- The slots are numbered by the remainders of the hashes. -/
theorem toNat_and_lowBits (w : UInt64) {bits : Nat} (h : bits ≤ 31) :
    (w &&& lowBits bits).toNat = w.toNat % 2 ^ bits := by
  have hlt : 2 ^ bits - 1 < 2 ^ 64 :=
    (Nat.sub_le ..).trans_lt (Nat.pow_lt_pow_right (by decide) (by omega))
  rw [lowBits, UInt64.toNat_and, Nat.one_shiftLeft, UInt64.toNat_ofNat_of_lt' hlt,
    Nat.and_two_pow_sub_one_eq_mod]

end StateSpace
