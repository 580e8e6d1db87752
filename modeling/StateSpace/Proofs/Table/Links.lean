import Mathlib.Logic.Relation
import StateSpace.Proofs.Table.Cells

/-!
# Links of a table

Cells are linked to the next ones of their buckets, also cells that were released: their old
predecessors still lead to them, and to whatever they are used for next. So a chain may run into another
one. It does not come back to itself, since a link is only ever made from an end to an end.

1. `Trail t i is`: the links lead from `i` over the cells `is` to the end. A trail visits no cell twice
   (`Trail.nodup`), and when one link changes, trails still lead to the end if the new one does
   (`Trail.redirect`).
2. `Search t v i r`: the search for a value from `i` on ends with `r`, without a bound on the number of
   its steps. Along a trail a search ends, and `Table.probe` finds what it ends with
   (`Trail.exists_search`).
-/

namespace StateSpace.Table

variable {α : Type} {t t' : Table α} {i j k : Nat} {v w : α} {is js : List Nat}

/-! ## Trails -/

theorem next_eq_ok_iff : t.next i = .ok j ↔ ∃ c, t.cells[i]? = some c ∧ c.next = j := by
  unfold next
  cases t.cells[i]? with
  | none => simp
  | some c => simp

theorem next_congr (h : t'.cells[i]? = t.cells[i]?) : t'.next i = t.next i := by
  unfold next
  rw [h]

/-- The links lead from a cell over these cells to the end. -/
inductive Trail (t : Table α) : Nat → List Nat → Prop
  | nil : Trail t 0 []
  | cons {i j : Nat} {is : List Nat} : i ≠ 0 → t.next i = .ok j → Trail t j is → Trail t i (i :: is)

namespace Trail

/-- There is one trail from a cell. -/
theorem unique (h : Trail t i is) (h' : Trail t i js) : is = js := by
  induction h generalizing js with
  | nil =>
    cases h' with
    | nil => rfl
    | cons hi => exact absurd rfl hi
  | cons hi hnext _ ih =>
    cases h' with
    | nil => exact absurd rfl hi
    | cons _ hnext' htail =>
      cases hnext.symm.trans hnext'
      rw [ih htail]

/-- The rest of a trail is a trail. -/
theorem exists_of_mem (h : Trail t i is) (hj : j ∈ is) : ∃ js, Trail t j js ∧ js.length ≤ is.length := by
  induction h with
  | nil => cases hj
  | cons hi hnext htail ih =>
    rcases List.mem_cons.1 hj with rfl | hj
    · exact ⟨_, .cons hi hnext htail, Nat.le_refl _⟩
    · obtain ⟨js, hjs, hle⟩ := ih hj
      exact ⟨js, hjs, Nat.le_succ_of_le hle⟩

theorem nodup (h : Trail t i is) : is.Nodup := by
  induction h with
  | nil => exact List.nodup_nil
  | @cons i j is hi hnext htail ih =>
    refine List.nodup_cons.2 ⟨fun hmem => ?_, ih⟩
    -- the trail from here would be its own proper part
    obtain ⟨js, hjs, hle⟩ := htail.exists_of_mem hmem
    rw [hjs.unique (.cons hi hnext htail), List.length_cons] at hle
    omega

theorem lt_size (h : Trail t i is) (hj : j ∈ is) : j < t.cells.size := by
  induction h with
  | nil => cases hj
  | cons _ hnext _ ih =>
    rcases List.mem_cons.1 hj with rfl | hj
    · obtain ⟨c, hc, -⟩ := next_eq_ok_iff.1 hnext
      exact (Array.getElem?_eq_some_iff.1 hc).1
    · exact ih hj

theorem length_le (h : Trail t i is) : is.length ≤ t.cells.size := by
  have hsub : is ⊆ List.range t.cells.size := fun j hj => List.mem_range.2 (h.lt_size hj)
  simpa using h.nodup.length_le_of_subset hsub

/-- When a link changes, trails lead to the end if that from the changed cell does. -/
theorem redirect (h : Trail t k is) (hi : Trail t' i js) (hframe : ∀ j, j ≠ i → t'.next j = t.next j) :
    ∃ ks, Trail t' k ks := by
  induction h with
  | nil => exact ⟨[], .nil⟩
  | @cons k j _ hk hnext _ ih =>
    by_cases hki : k = i
    · exact ⟨js, hki ▸ hi⟩
    · obtain ⟨ks, hks⟩ := ih
      exact ⟨k :: ks, .cons hk ((hframe k hki).trans hnext) hks⟩

theorem congr (h : Trail t k is) (hnext : ∀ j, t'.next j = t.next j) : Trail t' k is := by
  induction h with
  | nil => exact .nil
  | cons hk hlink _ ih => exact .cons hk ((hnext _).trans hlink) ih

end Trail

/-- The next cell of `i` is `j`. -/
def Linked (t : Table α) (i j : Nat) : Prop := t.next i = .ok j ∧ j ≠ 0

/-- A trail that ends does not come back to where it starts. -/
theorem Trail.not_cyclic (h : Trail t i is) : ¬Relation.TransGen t.Linked i i := by
  induction h with
  | nil =>
    intro hcycle
    obtain ⟨j, -, -, hzero⟩ := Relation.TransGen.tail'_iff.1 hcycle
    exact hzero rfl
  | @cons i j is _ hnext _ ih =>
    intro hcycle
    obtain ⟨k, ⟨hk, hne⟩, hback⟩ := Relation.TransGen.head'_iff.1 hcycle
    cases hk.symm.trans hnext
    exact ih (Relation.TransGen.tail' hback ⟨hnext, hne⟩)

/-- The links lead from every cell to the end. -/
def Ending (t : Table α) : Prop := ∀ i, i < t.cells.size → ∃ is, Trail t i is

theorem Ending.not_cyclic (h : t.Ending) (i : Nat) : ¬Relation.TransGen t.Linked i i := by
  intro hcycle
  obtain ⟨j, ⟨hnext, -⟩, -⟩ := Relation.TransGen.head'_iff.1 hcycle
  obtain ⟨c, hc, -⟩ := next_eq_ok_iff.1 hnext
  obtain ⟨is, his⟩ := h i (Array.getElem?_eq_some_iff.1 hc).1
  exact his.not_cyclic hcycle

/-! ## Searching -/

/-- The search for a value goes from cell to cell, until it finds the value, comes to the last cell or
to one that is vacant. -/
inductive Search (t : Table α) (v : α) : Nat → Except Fault Probe → Prop
  | vacant {i : Nat} {e : Fault} : t.get i = .error e → Search t v i (.error e)
  | found {i : Nat} : t.get i = .ok v → Search t v i (.ok (.found i))
  | last {i : Nat} {w : α} : t.get i = .ok w → w ≠ v → t.next i = .ok 0 → Search t v i (.ok (.last i))
  | step {i j : Nat} {w : α} {r : Except Fault Probe} : t.get i = .ok w → w ≠ v → t.next i = .ok j →
      j ≠ 0 → Search t v j r → Search t v i r

/-- A search along a trail ends, and a walk that may be as long as the trail ends with the same. -/
theorem Trail.exists_search [DecidableEq α] (h : Trail t i is) (hi : i ≠ 0) (v : α) :
    ∃ r, Search t v i r ∧ ∀ fuel, is.length ≤ fuel → t.probe v fuel i = r := by
  induction h with
  | nil => exact absurd rfl hi
  | @cons i j is _ hnext htail ih =>
    have hfuel : ∀ {fuel}, (i :: is).length ≤ fuel → ∃ n, fuel = n + 1 ∧ is.length ≤ n := by
      intro fuel hle
      rw [List.length_cons] at hle
      exact ⟨fuel - 1, by omega, by omega⟩
    cases hget : t.get i with
    | error e =>
      refine ⟨_, .vacant hget, fun fuel hle => ?_⟩
      obtain ⟨n, rfl, -⟩ := hfuel hle
      simp only [probe, hget]
    | ok w =>
      by_cases hw : w = v
      · subst hw
        refine ⟨_, .found hget, fun fuel hle => ?_⟩
        obtain ⟨n, rfl, -⟩ := hfuel hle
        simp only [probe, hget, if_true]
      · cases j with
        | zero =>
          refine ⟨_, .last hget hw hnext, fun fuel hle => ?_⟩
          obtain ⟨n, rfl, -⟩ := hfuel hle
          simp only [probe, hget, if_neg hw, hnext]
        | succ j =>
          obtain ⟨r, hr, hprobe⟩ := ih (Nat.succ_ne_zero j)
          refine ⟨r, .step hget hw hnext (Nat.succ_ne_zero j) hr, fun fuel hle => ?_⟩
          obtain ⟨n, rfl, hn⟩ := hfuel hle
          simp only [probe, hget, if_neg hw, hnext, hprobe n hn]

namespace Search

/-- A search that does not end with a value or a last cell ends at a vacant one. -/
theorem of_error {e : Fault} (h : Search t v i (.error e)) (hi : i ≠ 0) :
    ∃ n, e = .vacant n ∧ n ≠ 0 ∧ t.value? n = none := by
  generalize hr : Except.error e = r at h
  induction h with
  | vacant hget =>
    cases hr
    obtain ⟨hvacant, he⟩ := get_eq_error hget
    exact ⟨_, he.trans (if_neg hi), hi, hvacant⟩
  | found => cases hr
  | last => cases hr
  | step _ _ _ hj _ ih => exact ih hj hr

theorem of_found (h : Search t v i (.ok (.found j))) : t.value? j = some v := by
  generalize hr : Except.ok (Probe.found j) = r at h
  induction h with
  | vacant => cases hr
  | found hget =>
    cases hr
    exact get_eq_ok_iff.1 hget
  | last => cases hr
  | step _ _ _ _ _ ih => exact ih hr

theorem of_last (h : Search t v i (.ok (.last j))) : (∃ w, t.value? j = some w) ∧ t.next j = .ok 0 := by
  generalize hr : Except.ok (Probe.last j) = r at h
  induction h with
  | vacant => cases hr
  | found => cases hr
  | last hget _ hnext =>
    cases hr
    exact ⟨⟨_, get_eq_ok_iff.1 hget⟩, hnext⟩
  | step _ _ _ _ _ ih => exact ih hr

end Search

end StateSpace.Table
