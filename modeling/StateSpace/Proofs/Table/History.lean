import StateSpace.Proofs.Table.Intact

/-!
# What a table goes through

Cells of a table are added, put, released and written to, without any discipline. Its books are right
after every sequence of such calls, the ones that fault included, and `put` always ends
(`any_past_accounted`).
-/

namespace StateSpace.Table

open StateSpace.Action

variable {α : Type} {t t' t₀ : Table α} {bits : Nat}

/-- What is asked of a table. -/
inductive Call (α : Type) where
  | add (v : α)
  | put (v : α)
  | take (i : Nat)
  | modify (i : Nat) (f : α → α)

/-- What it answers. -/
inductive Answer (α : Type) where
  | index (i : Nat)
  | value (v : α)
  | done
deriving DecidableEq

/-- A call with its outcome. -/
abbrev Entry (α : Type) := Call α × Except Fault (Answer α)

section Calls

variable [Inhabited α] [DecidableEq α] [WordHash α]

/-- The call on a table. -/
def Call.run : Call α → Action (Table α) (Answer α)
  | add v => return .index (← Table.add v)
  | put v => return .index (← Table.put v)
  | take i => return .value (← Table.take i)
  | modify i f => do
    Table.modify i f
    return .done

theorem Call.intact (c : Call α) : Keeps Intact c.run := by
  cases c with
  | add v => exact keeps_bind (keeps_add v) fun _ => keeps_pure _
  | put v => exact keeps_bind (keeps_put v) fun _ => keeps_pure _
  | take i => exact keeps_bind (keeps_take i) fun _ => keeps_pure _
  | modify i f => exact keeps_bind (keeps_modify i f) fun _ => keeps_pure _

end Calls

/-! ## The books -/

/-- The books of a table are right. -/
structure Accounted [Inhabited α] (t : Table α) : Prop where
  free_nodup : t.free.Nodup
  mem_free : ∀ i, i ∈ t.free ↔ i ≠ 0 ∧ i ≤ t.size ∧ t.occupied i = .ok false
  size : t.size = t.live + t.free.length
  live : t.live = t.occupiedIndices.length
  vacant : ∀ (i : Nat) (c : Cell α), t.cells[i]? = some c → c.occupied = false →
    c.value = default ∧ c.next = 0
  not_cyclic : ∀ i, ¬Relation.TransGen t.Linked i i

theorem Intact.accounted [Inhabited α] (h : t.Intact) : t.Accounted where
  free_nodup := h.wellFormed.free_nodup
  mem_free i := by
    have hpos := h.wellFormed.pos
    rw [h.wellFormed.mem_free]
    by_cases hi : i = 0
    · simp [hi]
    · rw [occupied_eq hi, Except.ok.injEq, Option.isSome_eq_false_iff, Option.isNone_iff_eq_none]
      unfold size
      exact ⟨fun ⟨_, hlt, hv⟩ => ⟨hi, by omega, hv⟩, fun ⟨_, hle, hv⟩ => ⟨by omega, by omega, hv⟩⟩
  size := by
    have hcounted := h.counted
    unfold Counted at hcounted
    unfold size
    omega
  live := h.counted.live_eq h.wellFormed
  vacant i c hc hvac := by
    rw [h.vacant i c hc hvac]
    exact ⟨rfl, rfl⟩
  not_cyclic := h.ending.not_cyclic

section Calls

variable [Inhabited α] [DecidableEq α] [WordHash α]

/-- A call is answered, never with the index of the sentry, or it faults and changes nothing. -/
theorem Intact.answers (h : t.Intact) (c : Call α) :
    (∃ a t', c.run t = .ok a t' ∧ a ≠ .index 0) ∨ ∃ e, c.run t = .error e t := by
  have hindex : ∀ {i : Nat}, i ≠ 0 → Answer.index (α := α) i ≠ .index 0 :=
    fun hi heq => hi (Answer.index.inj heq)
  cases c with
  | add v =>
    obtain ⟨t', hrun, ha⟩ := add_spec h.wellFormed v
    exact .inl ⟨_, t', bind_ok hrun _, hindex ha.ne_zero⟩
  | put v =>
    rcases h.puts v with ⟨i, t', hrun, hp⟩ | ⟨n, -, -, hrun, -⟩
    · exact .inl ⟨_, t', bind_ok hrun _, hindex hp.ne_zero⟩
    · exact .inr ⟨_, bind_error hrun _⟩
  | take i =>
    rcases h.wellFormed.take_cases i with ⟨v, t', -, hrun⟩ | ⟨e, hrun⟩
    · exact .inl ⟨_, t', bind_ok hrun _, nofun⟩
    · exact .inr ⟨e, bind_error hrun _⟩
  | modify i f =>
    rcases h.wellFormed.modify_cases i f with ⟨v, t', -, hrun⟩ | ⟨e, hrun⟩
    · exact .inl ⟨_, t', bind_ok hrun _, nofun⟩
    · exact .inr ⟨e, bind_error hrun _⟩

/-- Whatever was asked of a table since it was made, also by calls that faulted, its books are right: the
free list names the cells that are not occupied, each once and never the sentry, its length and the
counter make up the size, and vacant cells are blank. A call that faults changes nothing, and what is
added goes into a cell that was not occupied. The links form no cycle, so the search of `put` ends, with an
index or at a vacant cell. -/
theorem any_past_accounted {es : List (Entry α)} (hcreate : create bits = .ok t₀)
    (h : Past Call.run t₀ es t) :
    t.Accounted ∧
      (∀ c : Call α, (∃ a t', c.run t = .ok a t' ∧ a ≠ .index 0) ∨ ∃ e, c.run t = .error e t) ∧
      (∀ v, ∃ i t', add v t = .ok i t' ∧ i ≠ 0 ∧ t.occupied i = .ok false) ∧
      ∀ v, (∃ i t', put v t = .ok i t' ∧ Puts t v (.ok i) t') ∨
        ∃ n, put v t = .error (.vacant n) t ∧ Puts t v (.error (.vacant n)) t ∧
          t.occupied n = .ok false ∧ (Fault.vacant n).message? = some s!"Index {n} is not occupied" := by
  have hintact := h.invariant Call.intact (create_intact hcreate)
  refine ⟨hintact.accounted, hintact.answers, fun v => ?_, fun v => ?_⟩
  · obtain ⟨t', hrun, ha⟩ := add_spec hintact.wellFormed v
    refine ⟨_, t', hrun, ha.ne_zero, ?_⟩
    rw [occupied_eq ha.ne_zero, ha.vacant]
    rfl
  · rcases hintact.puts v with ⟨i, t', hrun, hp⟩ | ⟨n, hn, hvacant, hrun, hp⟩
    · exact .inl ⟨i, t', hrun, hp⟩
    · refine .inr ⟨n, hrun, hp, ?_, rfl⟩
      rw [occupied_eq hn, hvacant]
      rfl

end Calls

/-- The chain of one bucket is cut: its second cell is released, handed out again, released twice, and the
next value that is put comes to a vacant cell. -/
theorem any_past_accounted_cut : ∃ t₀ t : Table UInt64, create 0 = .ok t₀ ∧
    Past Call.run t₀ [(.put 8, .error (.vacant 2)), (.take 2, .error (.vacant 2)), (.take 2, .ok (.value 9)),
      (.add 9, .ok (.index 2)), (.take 2, .ok (.value 7)), (.put 7, .ok (.index 2)),
      (.put 5, .ok (.index 1))] t ∧ t.free = [2] ∧ t.Accounted := by
  obtain ⟨t₀, hcreate⟩ : ∃ t₀ : Table UInt64, create 0 = .ok t₀ := ⟨_, rfl⟩
  have hnew : Past Call.run t₀ [] t₀ := .nil
  have htable := hcreate
  cases hcreate
  have hfirst := hnew.of_outcome (c := .put 5) (r := .ok (.index 1)) (by decide +kernel)
  have hsecond := hfirst.of_outcome (c := .put 7) (r := .ok (.index 2)) (by decide +kernel)
  have hcut := hsecond.of_outcome (c := .take 2) (r := .ok (.value 7)) (by decide +kernel)
  have hagain := hcut.of_outcome (c := .add 9) (r := .ok (.index 2)) (by decide +kernel)
  have hreleased := hagain.of_outcome (c := .take 2) (r := .ok (.value 9)) (by decide +kernel)
  have htwice := hreleased.of_outcome (c := .take 2) (r := .error (.vacant 2)) (by decide +kernel)
  have hfault := htwice.of_outcome (c := .put 8) (r := .error (.vacant 2)) (by decide +kernel)
  exact ⟨_, _, rfl, hfault, by decide +kernel, (any_past_accounted htable hfault).1⟩

end StateSpace.Table
