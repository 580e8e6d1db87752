import StateSpace.OpCache

/-!
# What a cache answers

A cache answers with the result that was kept for the very key that is looked up, and looking up
changes nothing but the counts. An insertion changes one slot.
-/

namespace StateSpace.OpCache

variable {κ ν : Type} [WordHash κ]

@[simp] theorem slot_insert (c : OpCache κ ν) (k : κ) (v : ν) (k' : κ) :
    (c.insert k v).slot k' = c.slot k' := rfl

variable [DecidableEq κ] {c : OpCache κ ν} {k k' : κ} {v v' : ν}

@[simp] theorem get_fst (c : OpCache κ ν) (k : κ) : (c.get k).1 = c.peek k := by
  unfold get
  cases c.peek k <;> rfl

@[simp] theorem peek_get (c : OpCache κ ν) (k k' : κ) : (c.get k).2.peek k' = c.peek k' := by
  unfold get
  cases c.peek k <;> rfl

theorem mask_get (c : OpCache κ ν) (k : κ) : (c.get k).2.mask = c.mask := by
  unfold get
  cases c.peek k <;> rfl

theorem hits_get (c : OpCache κ ν) (k : κ) :
    (c.get k).2.hits = c.hits + if (c.peek k).isSome then 1 else 0 := by
  unfold get
  cases c.peek k <;> rfl

theorem lookUps_get (c : OpCache κ ν) (k : κ) :
    (c.get k).2.hits + (c.get k).2.misses = c.hits + c.misses + 1 := by
  unfold get
  cases c.peek k with
  | none => rfl
  | some v => exact Nat.add_right_comm ..

/-- What a slot held before is displaced, whatever its key. -/
theorem peek_insert_of_slot_eq (v : ν) (h : c.slot k = c.slot k') :
    (c.insert k v).peek k' = if k = k' then some v else none := by
  have hslot : (c.insert k v).slots[c.slot k']? = some (k, v) := by
    rw [← h]
    exact Std.HashMap.getElem?_insert_self
  unfold peek
  rw [slot_insert, hslot]

theorem peek_insert_of_slot_ne (v : ν) (h : c.slot k ≠ c.slot k') :
    (c.insert k v).peek k' = c.peek k' := by
  have hslot : (c.insert k v).slots[c.slot k']? = c.slots[c.slot k']? := by
    unfold insert
    rw [Std.HashMap.getElem?_insert, if_neg fun heq => h (beq_iff_eq.1 heq)]
  unfold peek
  rw [slot_insert, hslot]

/-- What is kept after an insertion is what was inserted, or was kept before. -/
theorem peek_insert (h : (c.insert k v).peek k' = some v') :
    (k' = k ∧ v' = v) ∨ c.peek k' = some v' := by
  by_cases hs : c.slot k = c.slot k'
  · rw [peek_insert_of_slot_eq v hs, Option.ite_none_right_eq_some] at h
    obtain ⟨hk, hv⟩ := h
    exact .inl ⟨hk.symm, (Option.some.inj hv).symm⟩
  · rw [peek_insert_of_slot_ne v hs] at h
    exact .inr h

theorem peek_create {bits : Nat} (h : create bits = .ok c) : c.peek k = none := by
  unfold create at h
  split at h
  · cases h
    simp [peek]
  · cases h

end StateSpace.OpCache
