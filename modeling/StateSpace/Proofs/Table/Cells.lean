import Mathlib.Data.List.Nodup
import StateSpace.Table

/-!
# Cells of a table

What a table holds is seen through `value?`: the value of a cell if it is occupied. The free list of a
well-formed table is exactly the list of its vacant cells, so a cell that is added was vacant before,
and no other cell is touched.
-/

namespace StateSpace.Table

variable {α : Type} {t t' : Table α} {i j : Nat} {v : α}

/-- The value of an occupied cell. -/
def value? (t : Table α) (i : Nat) : Option α :=
  if i = 0 then none else (t.cells[i]?).bind fun c => if c.occupied then some c.value else none

/-- The cell that the next value goes into. -/
def nextIndex (t : Table α) : Nat := t.free.headD t.cells.size

/-- The free list holds exactly the vacant cells, each once. -/
structure WellFormed (t : Table α) : Prop where
  pos : 0 < t.cells.size
  free_nodup : t.free.Nodup
  mem_free : ∀ i, i ∈ t.free ↔ 0 < i ∧ i < t.cells.size ∧ t.value? i = none

/-! ## Reading -/

theorem value?_eq_some_iff :
    t.value? i = some v ↔ i ≠ 0 ∧ ∃ k, t.cells[i]? = some ⟨v, k, true⟩ := by
  unfold value?
  by_cases hi : i = 0
  · simp [hi]
  · rw [if_neg hi]
    cases t.cells[i]? with
    | none => simp
    | some c =>
      obtain ⟨w, k, o⟩ := c
      cases o <;> simp [hi]

theorem get_of_value? (h : t.value? i = some v) : t.get i = .ok v := by
  obtain ⟨hi, k, hk⟩ := value?_eq_some_iff.1 h
  unfold get
  rw [if_neg hi, hk]
  rfl

theorem get_eq_ok_iff : t.get i = .ok v ↔ t.value? i = some v := by
  refine ⟨fun h => ?_, get_of_value?⟩
  unfold get at h
  split at h
  · cases h
  · rename_i hi
    cases hc : t.cells[i]? with
    | none => simp [hc] at h
    | some c =>
      obtain ⟨w, k, o⟩ := c
      cases o with
      | false => simp [hc] at h
      | true =>
        simp only [hc, if_true, Except.ok.injEq] at h
        exact value?_eq_some_iff.2 ⟨hi, k, by rw [hc, h]⟩

/-- What is read off a cell that is not occupied is a fault. -/
theorem get_eq_elim (t : Table α) (i : Nat) : t.get i = (t.value? i).elim
    (.error (if i = 0 then .zeroIndex else .vacant i)) .ok := by
  unfold get value?
  by_cases hi : i = 0
  · rw [if_pos hi, if_pos hi, if_pos hi]
    rfl
  · rw [if_neg hi, if_neg hi, if_neg hi]
    cases t.cells[i]? with
    | none => rfl
    | some c =>
      obtain ⟨w, k, occupied⟩ := c
      cases occupied <;> rfl

/-- What is read off a table depends on its values. -/
theorem get_congr (h : t'.value? i = t.value? i) : t'.get i = t.get i := by
  rw [get_eq_elim, get_eq_elim, h]

theorem get_eq_error {e : Fault} (h : t.get i = .error e) :
    t.value? i = none ∧ e = if i = 0 then .zeroIndex else .vacant i := by
  rw [get_eq_elim] at h
  cases hv : t.value? i with
  | some v =>
    rw [hv] at h
    cases h
  | none =>
    rw [hv] at h
    exact ⟨rfl, (Except.error.inj h).symm⟩

theorem occupied_eq (hi : i ≠ 0) (t : Table α) : t.occupied i = .ok (t.value? i).isSome := by
  unfold occupied value?
  rw [if_neg hi, if_neg hi]
  cases t.cells[i]? with
  | none => rfl
  | some c =>
    obtain ⟨w, k, occupied⟩ := c
    cases occupied <;> rfl

theorem lt_size_of_value? (h : t.value? i = some v) : i < t.cells.size := by
  obtain ⟨-, k, hk⟩ := value?_eq_some_iff.1 h
  exact (Array.getElem?_eq_some_iff.1 hk).1

theorem pos_of_value? (h : t.value? i = some v) : 0 < i :=
  Nat.pos_of_ne_zero (value?_eq_some_iff.1 h).1

theorem value?_congr (h : t'.cells[i]? = t.cells[i]?) : t'.value? i = t.value? i := by
  unfold value?
  rw [h]

/-- A table without free cells is occupied throughout. -/
theorem WellFormed.full (h : t.WellFormed) (hfree : t.free = []) (hi : 0 < i)
    (hlt : i < t.cells.size) : ∃ v, t.value? i = some v := by
  cases hv : t.value? i with
  | some v => exact ⟨v, rfl⟩
  | none =>
    have := (h.mem_free i).2 ⟨hi, hlt, hv⟩
    simp [hfree] at this

/-! ## Adding -/

/-- `t'` is `t` with a value in a cell that was vacant. -/
structure Added (t : Table α) (v : α) (i : Nat) (t' : Table α) : Prop where
  index : i = t.nextIndex
  ne_zero : i ≠ 0
  vacant : t.value? i = none
  cell : t'.cells[i]? = some ⟨v, 0, true⟩
  frame : ∀ j, j ≠ i → t'.cells[j]? = t.cells[j]?
  heads : t'.heads = t.heads
  mask : t'.mask = t.mask
  free : t'.free = t.free.tail
  size : t'.cells.size = t.cells.size + if t.free = [] then 1 else 0
  live : t'.live = t.live + 1

theorem Added.value?_self (h : Added t v i t') : t'.value? i = some v :=
  value?_eq_some_iff.2 ⟨h.ne_zero, 0, h.cell⟩

theorem Added.value?_of_ne (h : Added t v i t') (hj : j ≠ i) : t'.value? j = t.value? j :=
  value?_congr (h.frame j hj)

theorem Added.size_le (h : Added t v i t') : t.cells.size ≤ t'.cells.size := by
  rw [h.size]
  exact Nat.le_add_right _ _

/-- Occupied cells keep their value. -/
theorem Added.value?_mono (h : Added t v i t') {w : α} (hj : t.value? j = some w) :
    t'.value? j = some w := by
  have hne : j ≠ i := by
    rintro rfl
    rw [h.vacant] at hj
    cases hj
  rw [h.value?_of_ne hne, hj]

/-- `t'` has another cell `i` than `t`, and otherwise the same cells and heads. -/
structure Replaced (t : Table α) (i : Nat) (c : Cell α) (t' : Table α) : Prop where
  cell : t'.cells[i]? = some c
  frame : ∀ j, j ≠ i → t'.cells[j]? = t.cells[j]?
  heads : t'.heads = t.heads
  mask : t'.mask = t.mask

theorem Added.replaced (h : Added t v i t') : Replaced t i ⟨v, 0, true⟩ t' :=
  ⟨h.cell, h.frame, h.heads, h.mask⟩

theorem add_spec (h : t.WellFormed) (v : α) : ∃ t', add v t = .ok t.nextIndex t' ∧
    Added t v t.nextIndex t' := by
  have hpos := h.pos
  cases hfree : t.free with
  | nil =>
    refine ⟨{ t with cells := t.cells.push ⟨v, 0, true⟩, live := t.live + 1 },
      by simp [add, nextIndex, hfree], ?_⟩
    have hnext : t.nextIndex = t.cells.size := by simp [nextIndex, hfree]
    rw [hnext]
    exact {
      index := hnext.symm
      ne_zero := by omega
      vacant := by
        unfold value?
        rw [if_neg (by omega), Array.getElem?_eq_none (Nat.le_refl _)]
        rfl
      cell := by simp
      frame := by
        intro j hj
        simp [Array.getElem?_push, hj]
      heads := rfl
      mask := rfl
      free := by simp [hfree]
      size := by simp [hfree]
      live := rfl }
  | cons k free =>
    refine ⟨{ t with cells := t.cells.setIfInBounds k ⟨v, 0, true⟩, free, live := t.live + 1 },
      by simp [add, nextIndex, hfree], ?_⟩
    have hnext : t.nextIndex = k := by simp [nextIndex, hfree]
    obtain ⟨hk, hlt, hvac⟩ := (h.mem_free k).1 (by simp [hfree])
    rw [hnext]
    exact {
      index := hnext.symm
      ne_zero := by omega
      vacant := hvac
      cell := by simp [hlt]
      frame := by
        intro j hj
        simp [Ne.symm hj]
      heads := rfl
      mask := rfl
      free := by simp [hfree]
      size := by simp [hfree]
      live := rfl }

theorem Added.wellFormed (ht : t.WellFormed) (h : Added t v i t') : t'.WellFormed where
  pos := Nat.lt_of_lt_of_le ht.pos h.size_le
  free_nodup := by
    rw [h.free]
    exact ht.free_nodup.tail
  mem_free := by
    intro j
    rw [h.free, h.size]
    by_cases hj : j = i
    · subst hj
      simp only [h.value?_self, reduceCtorEq, and_false, iff_false]
      intro hmem
      have hidx := h.index
      have hnd := ht.free_nodup
      cases hf : t.free with
      | nil => simp [hf] at hmem
      | cons k ks =>
        simp only [nextIndex, hf, List.headD_cons] at hidx
        rw [hf, List.nodup_cons] at hnd
        rw [hf, List.tail_cons] at hmem
        exact hnd.1 (hidx ▸ hmem)
    · rw [h.value?_of_ne hj]
      have hmem := ht.mem_free j
      have hidx := h.index
      cases hf : t.free with
      | nil =>
        simp only [nextIndex, hf, List.headD_nil] at hidx
        simp only [hf, List.not_mem_nil, false_iff] at hmem
        simp only [List.tail_nil, List.not_mem_nil, if_true, false_iff]
        rintro ⟨h0, hlt, hv⟩
        exact hmem ⟨h0, by omega, hv⟩
      | cons k ks =>
        simp only [nextIndex, hf, List.headD_cons] at hidx
        simp only [hf, List.mem_cons] at hmem
        simp only [List.tail_cons, reduceCtorEq, if_false, Nat.add_zero]
        rw [← hmem]
        constructor
        · exact Or.inr
        · rintro (rfl | hk)
          · exact absurd hidx.symm hj
          · exact hk

/-! ## Changing and releasing -/

/-- `t'` is `t` with another value, or none, in an occupied cell. -/
structure Changed (t : Table α) (i : Nat) (w : Option α) (t' : Table α) : Prop where
  value? : t'.value? i = w
  frame : ∀ j, j ≠ i → t'.value? j = t.value? j
  size : t'.cells.size = t.cells.size

theorem modify_spec (h : t.WellFormed) (f : α → α) (hv : t.value? i = some v) :
    ∃ t', modify i f t = .ok () t' ∧ Changed t i (some (f v)) t' ∧ t'.WellFormed ∧
      t'.live = t.live := by
  obtain ⟨hi, k, hk⟩ := value?_eq_some_iff.1 hv
  obtain ⟨t', ht'⟩ : ∃ t' : Table α,
      t' = { t with cells := t.cells.modify i fun c => { c with value := f c.value } } := ⟨_, rfl⟩
  have hrun : modify i f t = .ok () t' := by simp [modify, get_of_value? hv, ht']
  have hsize : t'.cells.size = t.cells.size := by simp [ht']
  have hframe : ∀ j, j ≠ i → t'.value? j = t.value? j := by
    intro j hj
    refine value?_congr ?_
    simp [ht', Array.getElem?_modify, Ne.symm hj]
  have hself : t'.value? i = some (f v) :=
    value?_eq_some_iff.2 ⟨hi, k, by simp [ht', Array.getElem?_modify, hk]⟩
  refine ⟨t', hrun, ⟨hself, hframe, hsize⟩, ⟨by rw [hsize]; exact h.pos, ?_, ?_⟩, by rw [ht']⟩
  · rw [ht']
    exact h.free_nodup
  · intro j
    rw [hsize, show t'.free = t.free by rw [ht'], h.mem_free]
    by_cases hj : j = i
    · subst hj
      rw [hself, hv]
      simp
    · rw [hframe j hj]

theorem take_spec [Inhabited α] (h : t.WellFormed) (hv : t.value? i = some v) :
    ∃ t', take i t = .ok v t' ∧ Changed t i none t' ∧ t'.WellFormed ∧ t'.live = t.live - 1 := by
  obtain ⟨hi, k, hk⟩ := value?_eq_some_iff.1 hv
  have hlt := lt_size_of_value? hv
  obtain ⟨t', ht'⟩ : ∃ t' : Table α,
      t' = { t with cells := t.cells.setIfInBounds i ⟨default, 0, false⟩,
                    free := i :: t.free, live := t.live - 1 } := ⟨_, rfl⟩
  have hrun : take i t = .ok v t' := by simp [take, get_of_value? hv, ht']
  have hsize : t'.cells.size = t.cells.size := by simp [ht']
  have hframe : ∀ j, j ≠ i → t'.value? j = t.value? j := by
    intro j hj
    refine value?_congr ?_
    simp [ht', Ne.symm hj]
  have hself : t'.value? i = none := by simp [ht', value?, hlt]
  refine ⟨t', hrun, ⟨hself, hframe, hsize⟩, ⟨by rw [hsize]; exact h.pos, ?_, ?_⟩, by rw [ht']⟩
  · rw [ht']
    refine List.nodup_cons.2 ⟨fun hmem => ?_, h.free_nodup⟩
    have := ((h.mem_free i).1 hmem).2.2
    rw [hv] at this
    cases this
  · intro j
    rw [hsize, show t'.free = i :: t.free by rw [ht'], List.mem_cons]
    by_cases hj : j = i
    · subst hj
      simp only [hself, and_true, true_or, true_iff]
      exact ⟨Nat.pos_of_ne_zero hi, hlt⟩
    · rw [hframe j hj, h.mem_free]
      simp [hj]

theorem take_replaced [Inhabited α] (hv : t.value? i = some v) (h : take i t = .ok v t') :
    Replaced t i ⟨default, 0, false⟩ t' := by
  have hlt := lt_size_of_value? hv
  simp only [take, get_of_value? hv, EStateM.Result.ok.injEq, true_and] at h
  subst h
  exact ⟨by simp [hlt], fun j hj => by simp [Ne.symm hj], rfl, rfl⟩

theorem modify_replaced {f : α → α} {k : Nat} (hi : i ≠ 0) (hk : t.cells[i]? = some ⟨v, k, true⟩)
    (h : modify i f t = .ok () t') : Replaced t i ⟨f v, k, true⟩ t' := by
  have hv : t.value? i = some v := value?_eq_some_iff.2 ⟨hi, k, hk⟩
  simp only [modify, get_of_value? hv, EStateM.Result.ok.injEq, true_and] at h
  subst h
  exact ⟨by simp [Array.getElem?_modify, hk], fun j hj => by simp [Array.getElem?_modify, Ne.symm hj],
    rfl, rfl⟩

/-- An occupied cell is released, and to release another one is a fault that changes nothing. -/
theorem WellFormed.take_cases [Inhabited α] (h : t.WellFormed) (i : Nat) :
    (∃ v t', t.value? i = some v ∧ take i t = .ok v t') ∨ ∃ e, take i t = .error e t := by
  cases hget : t.get i with
  | ok v =>
    have hv := get_eq_ok_iff.1 hget
    obtain ⟨t', hrun, -⟩ := take_spec h hv
    exact .inl ⟨v, t', hv, hrun⟩
  | error e => exact .inr ⟨e, by simp only [take, hget]⟩

/-- An occupied cell is written to, and to write to another one is a fault that changes nothing. -/
theorem WellFormed.modify_cases (h : t.WellFormed) (i : Nat) (f : α → α) :
    (∃ v t', t.value? i = some v ∧ modify i f t = .ok () t') ∨ ∃ e, modify i f t = .error e t := by
  cases hget : t.get i with
  | ok v =>
    have hv := get_eq_ok_iff.1 hget
    obtain ⟨t', hrun, -⟩ := modify_spec h f hv
    exact .inl ⟨v, t', hv, hrun⟩
  | error e => exact .inr ⟨e, by simp only [modify, hget]⟩

/-! ## Counting -/

/-- The counter of a table tells how many cells are neither free nor the sentry. -/
def Counted (t : Table α) : Prop := t.live + t.free.length + 1 = t.cells.size

theorem Added.counted (h : Added t v i t') (ht : t.Counted) : t'.Counted := by
  unfold Counted at ht ⊢
  rw [h.live, h.free, h.size]
  cases hf : t.free with
  | nil =>
    rw [hf] at ht
    simp only [List.tail_nil, List.length_nil, if_true] at ht ⊢
    omega
  | cons k ks =>
    rw [hf] at ht
    simp only [List.tail_cons, List.length_cons, reduceCtorEq, if_false] at ht ⊢
    omega

theorem Counted.of_modify {f : α → α} (ht : t.Counted) (h : modify i f t = .ok () t') :
    t'.Counted := by
  unfold modify at h
  split at h
  · cases h
  · cases h
    show t.live + t.free.length + 1 = (t.cells.modify i _).size
    rw [Array.size_modify]
    exact ht

/-- The indices of the occupied cells. -/
def occupiedIndices (t : Table α) : List Nat :=
  (List.range t.cells.size).filter fun i => (t.value? i).isSome

theorem mem_occupiedIndices : i ∈ t.occupiedIndices ↔ ∃ v, t.value? i = some v := by
  unfold occupiedIndices
  rw [List.mem_filter, List.mem_range, Option.isSome_iff_exists]
  exact and_iff_right_of_imp fun ⟨_, hv⟩ => lt_size_of_value? hv

/-- The cells that are not occupied are the sentry and the free ones. -/
theorem WellFormed.perm_free (h : t.WellFormed) :
    ((List.range t.cells.size).filter fun i => !(t.value? i).isSome).Perm (0 :: t.free) := by
  have hzero : 0 ∉ t.free := fun hmem => Nat.lt_irrefl 0 ((h.mem_free 0).1 hmem).1
  refine (List.perm_ext_iff_of_nodup (List.nodup_range.filter _)
    (List.nodup_cons.2 ⟨hzero, h.free_nodup⟩)).2 fun i => ?_
  rw [List.mem_filter, List.mem_range, List.mem_cons, h.mem_free, Bool.not_eq_true',
    Option.isSome_eq_false_iff, Option.isNone_iff_eq_none]
  by_cases hi : i = 0
  · subst hi
    exact iff_of_true ⟨h.pos, if_pos rfl⟩ (.inl rfl)
  · exact ⟨fun ⟨hlt, hv⟩ => .inr ⟨Nat.pos_of_ne_zero hi, hlt, hv⟩,
      fun hmem => (hmem.resolve_left hi).2⟩

theorem Counted.live_eq (ht : t.Counted) (hwf : t.WellFormed) :
    t.live = t.occupiedIndices.length := by
  have hsplit := List.length_eq_length_filter_add (l := List.range t.cells.size)
    fun i => (t.value? i).isSome
  rw [hwf.perm_free.length_eq, List.length_range, List.length_cons] at hsplit
  unfold Counted at ht
  unfold occupiedIndices
  omega

/-- Tables with the same occupied cells count the same. -/
theorem Counted.live_congr (ht : t.Counted) (hwf : t.WellFormed) (ht' : t'.Counted)
    (hwf' : t'.WellFormed) (h : ∀ i, t'.value? i = t.value? i) : t'.live = t.live := by
  rw [ht.live_eq hwf, ht'.live_eq hwf']
  refine ((List.perm_ext_iff_of_nodup (List.nodup_range.filter _)
    (List.nodup_range.filter _)).2 fun i => ?_).length_eq
  refine mem_occupiedIndices.trans (.trans ?_ mem_occupiedIndices.symm)
  rw [h]

theorem Counted.live_pos (ht : t.Counted) (hwf : t.WellFormed) (hv : t.value? i = some v) :
    0 < t.live := by
  rw [ht.live_eq hwf]
  exact List.length_pos_of_mem (mem_occupiedIndices.2 ⟨v, hv⟩)

theorem Counted.of_take [Inhabited α] (ht : t.Counted) (hwf : t.WellFormed)
    (h : take i t = .ok v t') : t'.Counted := by
  unfold take at h
  split at h
  · cases h
  · rename_i w hget
    have hpos := ht.live_pos hwf (get_eq_ok_iff.1 hget)
    cases h
    show t.live - 1 + (i :: t.free).length + 1 = (t.cells.setIfInBounds i _).size
    unfold Counted at ht
    rw [List.length_cons, Array.size_setIfInBounds]
    omega

/-- A table without values counts none. -/
theorem Counted.live_eq_zero (ht : t.Counted) (hwf : t.WellFormed) (h : ∀ i, t.value? i = none) :
    t.live = 0 := by
  rw [ht.live_eq hwf, List.length_eq_zero_iff, List.eq_nil_iff_forall_not_mem]
  intro i hi
  obtain ⟨v, hv⟩ := mem_occupiedIndices.1 hi
  cases (h i).symm.trans hv

/-! ## Empty tables -/

theorem create_spec [Inhabited α] {bits : Nat} (h : create bits = .ok t) :
    t.WellFormed ∧ t.free = [] ∧ t.cells.size = 1 ∧ t.heads = ∅ ∧ t.live = 0 := by
  unfold create at h
  split at h
  · cases h
    refine ⟨⟨by simp, List.nodup_nil, ?_⟩, rfl, rfl, rfl, rfl⟩
    intro i
    simp only [List.not_mem_nil, List.size_toArray, List.length_singleton, false_iff]
    omega
  · cases h

theorem create_counted [Inhabited α] {bits : Nat} (h : create bits = .ok t) : t.Counted := by
  obtain ⟨-, hfree, hsize, -, hlive⟩ := create_spec h
  unfold Counted
  rw [hfree, hsize, hlive]
  rfl

end StateSpace.Table
