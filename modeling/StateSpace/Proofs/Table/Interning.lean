import StateSpace.Proofs.Table.History

/-!
# Values stored once

A table of values that are put stores each of them once, under one index for ever, while other cells are
added, written to, released and used again in between. What is needed is that nobody releases or writes to
an index that `put` returned. The chains of the table hold exactly these indices then (`Interned`), and no
cell that is lent out is one of them.
-/

namespace StateSpace.Table

open StateSpace.Action

variable {α : Type} {t t' t₀ : Table α} {i j : Nat} {v w : α} {bits : Nat} {es : List (Entry α)}
  {c : Call α} {r : Except Fault (Answer α)}

/-! ## What calls leave behind -/

/-- The index under which an entry put a value. -/
def Entry.interned? : Entry α → Option Nat
  | (.put _, .ok (.index i)) => some i
  | _ => none

/-- The indices that `put` returned. -/
def interned (es : List (Entry α)) : List Nat := es.filterMap Entry.interned?

/-- The indices lent out after an entry: those that `add` hands out are, until they are released. -/
def Entry.lends : Entry α → List Nat → List Nat
  | (.add _, .ok (.index i)), is => i :: is
  | (.take i, .ok _), is => is.filter (· ≠ i)
  | _, is => is

/-- The indices that `add` handed out and that were not released since, where the latest entry comes
first. -/
def lent : List (Entry α) → List Nat
  | [] => []
  | x :: es => x.lends (lent es)

/-- The call neither releases nor writes to an index that `put` returned. -/
def Call.Respects (es : List (Entry α)) : Call α → Prop
  | .take i => i ∉ interned es
  | .modify i _ => i ∉ interned es
  | _ => True

/-- No call so far released or wrote to an index that `put` had returned. -/
def Disciplined : List (Entry α) → Prop
  | [] => True
  | x :: es => x.1.Respects es ∧ Disciplined es

theorem mem_interned : i ∈ interned es ↔ ∃ v, (Call.put v, .ok (.index i)) ∈ es := by
  unfold interned
  rw [List.mem_filterMap]
  constructor
  · rintro ⟨⟨c, r⟩, hmem, hx⟩
    match c, r, hx with
    | .put v, .ok (.index j), hx =>
      cases hx
      exact ⟨v, hmem⟩
  · rintro ⟨v, hmem⟩
    exact ⟨_, hmem, rfl⟩

theorem interned_cons_of_none {x : Entry α} (h : x.interned? = none) :
    interned (x :: es) = interned es := List.filterMap_cons_none h

/-! ## The chains -/

section Interned

variable [WordHash α]

/-- The chains hold exactly the indices that were returned for values that were put, and under each such
index is its value. What is lent out is occupied, but on no chain. -/
structure Interned (t : Table α) (es : List (Entry α)) : Prop where
  wellFormed : t.WellFormed
  chained : ∃ chain, Hashed t chain ∧ ∀ i, i ∈ interned es ↔ ∃ b, i ∈ chain b
  value : ∀ v i, (Call.put v, .ok (.index i)) ∈ es → t.value? i = some v
  lent : ∀ i ∈ lent es, i ∉ interned es ∧ ∃ v, t.value? i = some v

namespace Interned

/-- A value is under one index. -/
theorem index_unique (h : Interned t es) (hi : i ∈ interned es) (hj : j ∈ interned es)
    (hiv : t.value? i = some v) (hjv : t.value? j = some v) : i = j := by
  obtain ⟨chain, hchain, hmem⟩ := h.chained
  obtain ⟨b, hb⟩ := (hmem i).1 hi
  obtain ⟨b', hb'⟩ := (hmem j).1 hj
  exact hchain.index_unique hb hb' hiv hjv

theorem exists_value (h : Interned t es) (hi : i ∈ interned es) : ∃ v, t.value? i = some v := by
  obtain ⟨v, hv⟩ := mem_interned.1 hi
  exact ⟨v, h.value v i hv⟩

/-- What `put` does: the value is there, or it goes into a cell that was vacant. -/
theorem put_cases [DecidableEq α] (h : Interned t es) (v : α) : ∃ i t', put v t = .ok i t' ∧
    ((t' = t ∧ i ∈ interned es ∧ t.value? i = some v) ∨
      (Placed t v i t' ∧ (∀ j ∈ interned es, t.value? j ≠ some v) ∧
        ∃ chain, Hashed t' chain ∧ ∀ k, (k = i ∨ k ∈ interned es) ↔ ∃ b, k ∈ chain b)) := by
  obtain ⟨chain, hchain, hmem⟩ := h.chained
  obtain ⟨i, t', hrun, ⟨ht, hi, hv⟩ | ⟨hno, hplaced, hchain'⟩⟩ := put_spec h.wellFormed hchain v
  · exact ⟨i, t', hrun, .inl ⟨ht, (hmem i).2 ⟨_, hi⟩, hv⟩⟩
  · refine ⟨i, t', hrun, .inr ⟨hplaced, fun j hj hjv => ?_, _, hchain', fun k => ?_⟩⟩
    · obtain ⟨b, hb⟩ := (hmem j).1 hj
      have hbucket := hchain.bucket b j hb v hjv
      exact hno j (hbucket ▸ hb) hjv
    · rw [hmem k]
      constructor
      · rintro (rfl | ⟨b, hb⟩)
        · exact ⟨t.bucket v, by simp⟩
        · by_cases hbv : b = t.bucket v
          · subst hbv
            exact ⟨_, by rw [Function.update_self]; exact List.mem_append_left _ hb⟩
          · exact ⟨b, by rwa [Function.update_of_ne hbv]⟩
      · rintro ⟨b, hb⟩
        by_cases hbv : b = t.bucket v
        · subst hbv
          rw [Function.update_self, List.mem_append, List.mem_singleton] at hb
          exact hb.symm.imp_right fun hb => ⟨_, hb⟩
        · rw [Function.update_of_ne hbv] at hb
          exact .inr ⟨b, hb⟩

/-- A change of a cell that `put` never returned. -/
theorem replaced {d : Cell α} (h : Interned t es) (hr : Replaced t i d t') (hi : i ∉ interned es)
    (hwf : t'.WellFormed) {x : Entry α} (hx : x.interned? = none)
    (hself : i ∈ x.lends (Table.lent es) → ∃ v, t'.value? i = some v)
    (hrest : ∀ j ∈ x.lends (Table.lent es), j ≠ i → j ∈ Table.lent es) : Interned t' (x :: es) := by
  have hframe : ∀ j, j ≠ i → t'.value? j = t.value? j := fun j hj => value?_congr (hr.frame j hj)
  have hsame : interned (x :: es) = interned es := interned_cons_of_none hx
  refine ⟨hwf, ?_, fun v j hj => ?_, fun j hj => ?_⟩
  · obtain ⟨chain, hchain, hmem⟩ := h.chained
    rw [hsame]
    exact ⟨chain, hchain.replaced hr fun b hb => hi ((hmem i).2 ⟨b, hb⟩), hmem⟩
  · rcases List.mem_cons.1 hj with rfl | hj
    · cases hx
    · rw [hframe j fun heq => hi (heq ▸ mem_interned.2 ⟨v, hj⟩)]
      exact h.value v j hj
  · rw [hsame]
    by_cases hji : j = i
    · subst hji
      exact ⟨hi, hself hj⟩
    · rw [hframe j hji]
      exact h.lent j (hrest j hj hji)

theorem add (h : Interned t es) (ha : Added t v i t') :
    Interned t' ((.add v, .ok (.index i)) :: es) := by
  have hi : i ∉ interned es := fun hi => by
    obtain ⟨w, hw⟩ := h.exists_value hi
    cases ha.vacant.symm.trans hw
  exact h.replaced ha.replaced hi (ha.wellFormed h.wellFormed) rfl (fun _ => ⟨v, ha.value?_self⟩)
    fun j hj hne => (List.mem_cons.1 hj).resolve_left hne

theorem take [Inhabited α] (h : Interned t es) (hi : i ∉ interned es) (hv : t.value? i = some v)
    (hrun : Table.take i t = .ok v t') : Interned t' ((.take i, .ok (.value v)) :: es) := by
  obtain ⟨_, hrun', -, hwf, -⟩ := take_spec h.wellFormed hv
  cases hrun.symm.trans hrun'
  refine h.replaced (take_replaced hv hrun) hi hwf rfl (fun hmem => ?_) fun j hj _ =>
    (List.mem_filter.1 hj).1
  exact absurd rfl (of_decide_eq_true (List.mem_filter.1 hmem).2)

theorem modify {f : α → α} (h : Interned t es) (hi : i ∉ interned es) (hv : t.value? i = some v)
    (hrun : Table.modify i f t = .ok () t') : Interned t' ((.modify i f, .ok .done) :: es) := by
  obtain ⟨_, hrun', hchanged, hwf, -⟩ := modify_spec h.wellFormed f hv
  cases hrun.symm.trans hrun'
  obtain ⟨hne, k, hk⟩ := value?_eq_some_iff.1 hv
  exact h.replaced (modify_replaced hne hk hrun) hi hwf rfl (fun _ => ⟨_, hchanged.value?⟩)
    fun j hj _ => hj

/-- A call that faults changes nothing. -/
theorem fault (h : Interned t es) (c : Call α) (e : Fault) : Interned t ((c, .error e) :: es) := by
  have hnone : Entry.interned? (c, .error e) = none := by cases c <;> rfl
  have hlends : Entry.lends (c, .error e) (Table.lent es) = Table.lent es := by cases c <;> rfl
  refine ⟨h.wellFormed, ?_, fun v i hmem => ?_, fun i hi => ?_⟩
  · rw [interned_cons_of_none hnone]
    exact h.chained
  · rcases List.mem_cons.1 hmem with hx | hmem
    · cases hx
    · exact h.value v i hmem
  · rw [interned_cons_of_none hnone]
    exact h.lent i (hlends ▸ hi)

/-- After a value was put its index is one more, or the same as before. -/
theorem put [DecidableEq α] (h : Interned t es) (hrun : Table.put v t = .ok i t') :
    Interned t' ((.put v, .ok (.index i)) :: es) := by
  have hcons : ∀ k, k ∈ interned ((.put v, .ok (.index i)) :: es) ↔ k = i ∨ k ∈ interned es :=
    fun k => List.mem_cons
  obtain ⟨_, _, hrun', ⟨rfl, hi, hv⟩ | ⟨hplaced, -, chain, hchain, hmem⟩⟩ := h.put_cases v
  · cases hrun.symm.trans hrun'
    have hold : ∀ k, k ∈ interned ((.put v, .ok (.index i)) :: es) ↔ k ∈ interned es := fun k =>
      (hcons k).trans ⟨fun hk => hk.elim (fun heq => heq ▸ hi) id, .inr⟩
    obtain ⟨chain, hchain, hmem⟩ := h.chained
    refine ⟨h.wellFormed, ⟨chain, hchain, fun k => (hold k).trans (hmem k)⟩, fun w j hj => ?_,
      fun j hj => ?_⟩
    · rcases List.mem_cons.1 hj with hx | hj
      · cases hx
        exact hv
      · exact h.value w j hj
    · rw [hold]
      exact h.lent j hj
  · cases hrun.symm.trans hrun'
    refine ⟨hplaced.wellFormed, ⟨chain, hchain, fun k => (hcons k).trans (hmem k)⟩, fun w j hj => ?_,
      fun j hj => ?_⟩
    · rcases List.mem_cons.1 hj with hx | hj
      · cases hx
        exact hplaced.self
      · exact hplaced.value?_mono (h.value w j hj)
    · obtain ⟨hj, w, hw⟩ := h.lent j hj
      rw [hcons]
      refine ⟨fun hmem => ?_, w, hplaced.value?_mono hw⟩
      rcases hmem with rfl | hmem
      · cases hplaced.vacant.symm.trans hw
      · exact hj hmem

variable [Inhabited α] [DecidableEq α]

/-- Every call that respects what was put goes on so. -/
theorem call (h : Interned t es) (hc : c.Respects es) :
    Interned (c.run.after t) ((c, (c.run.outcome t).1) :: es) := by
  have hok : ∀ {a t'}, c.run t = .ok a t' → Interned t' ((c, .ok a) :: es) →
      Interned (c.run.after t) ((c, (c.run.outcome t).1) :: es) := by
    intro a t' hrun h'
    unfold after outcome
    rwa [hrun]
  have hfault : ∀ {e}, c.run t = .error e t →
      Interned (c.run.after t) ((c, (c.run.outcome t).1) :: es) := by
    intro e hrun
    unfold after outcome
    rw [hrun]
    exact h.fault c e
  cases c with
  | add v =>
    obtain ⟨t', hrun, ha⟩ := add_spec h.wellFormed v
    exact hok (bind_ok hrun _) (h.add ha)
  | put v =>
    obtain ⟨i, t', hrun, -⟩ := h.put_cases v
    exact hok (bind_ok hrun _) (h.put hrun)
  | take i =>
    rcases h.wellFormed.take_cases i with ⟨v, t', hv, hrun⟩ | ⟨e, hrun⟩
    · exact hok (bind_ok hrun _) (h.take hc hv hrun)
    · exact hfault (bind_error hrun _)
  | modify i f =>
    rcases h.wellFormed.modify_cases i f with ⟨v, t', hv, hrun⟩ | ⟨e, hrun⟩
    · exact hok (bind_ok hrun _) (h.modify hc hv hrun)
    · exact hfault (bind_error hrun _)

theorem of_past (hcreate : create bits = .ok t₀) (h : Past Call.run t₀ es t) (hd : Disciplined es) :
    Interned t es := by
  induction h with
  | nil =>
    obtain ⟨hwf, -, -, hheads, -⟩ := create_spec hcreate
    exact ⟨hwf, ⟨_, hashed_nil hheads, fun i => iff_of_false (by simp [interned]) (by simp)⟩, nofun, nofun⟩
  | call _ c ih => exact (ih hd.2).call hd.1

end Interned

/-! ## What is put -/

variable [Inhabited α] [DecidableEq α]

/-- Whatever was asked of a table since it was made, as long as nobody released or wrote to an index that
`put` had returned: two puts returned the same index if and only if they were given the same value; the
value is under its index ever after, and to put it again returns the index and changes nothing; and `put`
never fails, nor returns an index that is lent out. -/
theorem disciplined_past_interned (hcreate : create bits = .ok t₀) (h : Past Call.run t₀ es t)
    (hd : Disciplined es) :
    (∀ v i w j, (Call.put v, .ok (.index i)) ∈ es → (Call.put w, .ok (.index j)) ∈ es →
      (i = j ↔ v = w)) ∧
      (∀ v i, (Call.put v, .ok (.index i)) ∈ es → t.get i = .ok v ∧ put v t = .ok i t) ∧
      ∀ v, ∃ i t', put v t = .ok i t' ∧ t'.get i = .ok v ∧ i ∉ lent es := by
  have hinterned := Interned.of_past hcreate h hd
  refine ⟨fun v i w j hi hj => ?_, fun v i hi => ⟨get_of_value? (hinterned.value v i hi), ?_⟩,
    fun v => ?_⟩
  · have hiv := hinterned.value v i hi
    have hjw := hinterned.value w j hj
    constructor
    · rintro rfl
      exact Option.some.inj (hiv.symm.trans hjw)
    · rintro rfl
      exact hinterned.index_unique (mem_interned.2 ⟨v, hi⟩) (mem_interned.2 ⟨v, hj⟩) hiv hjw
  · have hiv := hinterned.value v i hi
    have hmem := mem_interned.2 ⟨v, hi⟩
    obtain ⟨j, t', hrun, ⟨rfl, hj, hjv⟩ | ⟨-, hno, -⟩⟩ := hinterned.put_cases v
    · rwa [hinterned.index_unique hmem hj hiv hjv]
    · exact absurd hiv (hno i hmem)
  · obtain ⟨i, t', hrun, ⟨rfl, hi, hiv⟩ | ⟨hplaced, -⟩⟩ := hinterned.put_cases v
    · exact ⟨i, t', hrun, get_of_value? hiv, fun hlent => (hinterned.lent i hlent).1 hi⟩
    · refine ⟨i, t', hrun, get_of_value? hplaced.self, fun hlent => ?_⟩
      obtain ⟨-, w, hw⟩ := hinterned.lent i hlent
      cases hplaced.vacant.symm.trans hw

end Interned

/-- Two values share the only bucket, and the second one goes into a cell that was lent out and released. -/
theorem disciplined_past_interned_reused : ∃ t₀ t : Table UInt64, create 0 = .ok t₀ ∧
    Past Call.run t₀ [(.put 7, .ok (.index 3)), (.put 5, .ok (.index 2)), (.put 7, .ok (.index 3)),
      (.take 3, .ok (.value 8)), (.add 8, .ok (.index 3)), (.put 5, .ok (.index 2)),
      (.add 4, .ok (.index 1))] t ∧ t.get 2 = .ok 5 ∧ put 7 t = .ok 3 t ∧
      ∃ i t', put 6 t = .ok i t' ∧ i ∉ [1] := by
  obtain ⟨t₀, hcreate⟩ : ∃ t₀ : Table UInt64, create 0 = .ok t₀ := ⟨_, rfl⟩
  have hnew : Past Call.run t₀ [] t₀ := .nil
  have htable := hcreate
  cases hcreate
  have hlent := hnew.of_outcome (c := .add 4) (r := .ok (.index 1)) (by decide +kernel)
  have hput := hlent.of_outcome (c := .put 5) (r := .ok (.index 2)) (by decide +kernel)
  have hadded := hput.of_outcome (c := .add 8) (r := .ok (.index 3)) (by decide +kernel)
  have htaken := hadded.of_outcome (c := .take 3) (r := .ok (.value 8)) (by decide +kernel)
  have hreused := htaken.of_outcome (c := .put 7) (r := .ok (.index 3)) (by decide +kernel)
  have hfirst := hreused.of_outcome (c := .put 5) (r := .ok (.index 2)) (by decide +kernel)
  have hsecond := hfirst.of_outcome (c := .put 7) (r := .ok (.index 3)) (by decide +kernel)
  obtain ⟨-, hholds, hputs⟩ := disciplined_past_interned htable hsecond
    (by simp [Disciplined, Call.Respects, interned, Entry.interned?])
  obtain ⟨i, t', hrun, -, hi⟩ := hputs 6
  exact ⟨_, _, rfl, hsecond, (hholds 5 2 (by simp)).1, (hholds 7 3 (by simp)).2, i, t', hrun, hi⟩

end StateSpace.Table
