import StateSpace.Proofs.Kripke.Calls
import StateSpace.Workspace

/-!
# Calls on one of several structures

The structures of a workspace share a dictionary, and each has a pool that is numbered like its
position. A workspace is in order with a list of references if every structure is. A call on one
structure leaves the references to the others alone, so it leaves them in order as well.
-/

namespace StateSpace

open StateSpace.Action

instance {ε : Type} : HasCells (Workspace ε) := ⟨fun w => HasCells.cells w.dict⟩

namespace Workspace

variable {ε α : Type} {w w' : Workspace ε} {k j : Nat} {s s' : Kripke ε} {v : World ε}
  {rs rs' : List Reference}

/-- The structure at a position, be it closed or not. -/
def At (w : Workspace ε) (k : Nat) (s : Kripke ε) : Prop := (w.structures[k]?).join = some s

/-- The workspace after a change at a position. -/
def withWorld (w : Workspace ε) (k : Nat) (v : World ε) : Workspace ε :=
  { w with dict := v.dict, structures := w.structures.setIfInBounds k (some v.kripke) }

theorem at_of_structure? (h : w.structure? k = some s) : w.At k s := by
  unfold structure? at h
  split at h
  · cases h
  · exact h

theorem not_mem_closed (h : w.structure? k = some s) : k ∉ w.closed := by
  intro hk
  unfold structure? at h
  rw [if_pos hk] at h
  cases h

theorem structure?_of_at (hw : w.closed = []) (h : w.At k s) : w.structure? k = some s := by
  unfold structure?
  rw [hw, if_neg List.not_mem_nil]
  exact h

theorem At.lt_size (h : w.At k s) : k < w.structures.size := by
  by_contra hge
  unfold At at h
  rw [Array.getElem?_eq_none (Nat.not_lt.1 hge)] at h
  cases h

theorem At.unique (h : w.At k s) (h' : w.At k s') : s = s' := Option.some.inj (h.symm.trans h')

theorem at_withWorld_self (h : w.At k s) : (w.withWorld k v).At k v.kripke := by
  unfold At withWorld
  rw [Array.getElem?_setIfInBounds_self_of_lt h.lt_size]
  rfl

theorem at_withWorld_of_ne (h : j ≠ k) : (w.withWorld k v).At j s ↔ w.At j s := by
  unfold At withWorld
  rw [Array.getElem?_setIfInBounds_ne h.symm]

/-- A position that is taken comes after all others. -/
theorem at_push {x : Option (Kripke ε)} :
    At { w with structures := w.structures.push x } j s ↔
      w.At j s ∨ (j = w.structures.size ∧ x = some s) := by
  unfold At
  rw [Array.getElem?_push]
  by_cases hj : j = w.structures.size
  · rw [if_pos hj, Array.getElem?_eq_none (Nat.le_of_eq hj.symm)]
    simp [hj]
  · rw [if_neg hj]
    simp [hj]

/-- Putting back what was there changes nothing. -/
theorem withWorld_self (h : w.At k s) : w.withWorld k ⟨w.dict, s⟩ = w := by
  obtain ⟨dict, structures, closed, iterators⟩ := w
  have hset : structures.setIfInBounds k (some s) = structures := by
    apply Array.ext_getElem?
    intro j
    by_cases hj : k = j
    · subst hj
      have hlt : k < structures.size := h.lt_size
      have hjoin : (structures[k]?).join = some s := h
      rw [Array.getElem?_setIfInBounds_self_of_lt hlt]
      rw [Array.getElem?_eq_getElem hlt] at hjoin ⊢
      exact congrArg some hjoin.symm
    · rw [Array.getElem?_setIfInBounds_ne hj]
  unfold withWorld
  simp only [hset]

/-! ## Running calls -/

theorem onDict_ok {x : Action Dictionary α} {a : α} {d : Dictionary} (h : x w.dict = .ok a d) :
    onDict x w = .ok a { w with dict := d } := by
  obtain ⟨dict, structures, closed, iterators⟩ := w
  have h' : x dict = .ok a d := h
  simp only [onDict, h']

theorem onDict_error {x : Action Dictionary α} {e : Fault} {d : Dictionary}
    (h : x w.dict = .error e d) : onDict x w = .error e { w with dict := d } := by
  obtain ⟨dict, structures, closed, iterators⟩ := w
  have h' : x dict = .error e d := h
  simp only [onDict, h']

theorem onDict_after (x : Action Dictionary α) (w : Workspace ε) :
    (onDict x).after w = { w with dict := x.after w.dict } := by
  cases h : x w.dict with
  | ok a d => rw [after_ok (onDict_ok h), after_ok h]
  | error e d => rw [after_error (onDict_error h), after_error h]

theorem exists_onDict {x : Action Dictionary α} {a : α}
    (h : onDict x w = .ok a w') : ∃ d, x w.dict = .ok a d ∧ w' = { w with dict := d } := by
  obtain ⟨dict, structures, closed, iterators⟩ := w
  cases hx : x dict with
  | error e d => simp only [onDict, hx] at h; cases h
  | ok b d =>
    simp only [onDict, hx] at h
    cases h
    exact ⟨d, rfl, rfl⟩

theorem onPlaced_ok (hk : w.At k s) {x : Action (World ε) α} {a : α}
    (h : x ⟨w.dict, s⟩ = .ok a v) : onPlaced k x w = .ok a (w.withWorld k v) := by
  obtain ⟨dict, structures, closed, iterators⟩ := w
  have hk' : (structures[k]?).join = some s := hk
  have h' : x ⟨dict, s⟩ = .ok a v := h
  simp only [onPlaced, hk', h', withWorld, Array.setIfInBounds_setIfInBounds]

theorem onPlaced_error (hk : w.At k s) {x : Action (World ε) α} {e : Fault}
    (h : x ⟨w.dict, s⟩ = .error e v) : onPlaced k x w = .error e (w.withWorld k v) := by
  obtain ⟨dict, structures, closed, iterators⟩ := w
  have hk' : (structures[k]?).join = some s := hk
  have h' : x ⟨dict, s⟩ = .error e v := h
  simp only [onPlaced, hk', h', withWorld, Array.setIfInBounds_setIfInBounds]

theorem onPlaced_none (hk : (w.structures[k]?).join = none) (x : Action (World ε) α) :
    onPlaced k x w = .error .outOfRange w := by
  unfold onPlaced
  simp only [hk]

theorem onPlaced_after (hk : w.At k s) (x : Action (World ε) α) :
    (onPlaced k x).after w = w.withWorld k (x.after ⟨w.dict, s⟩) := by
  cases h : x ⟨w.dict, s⟩ with
  | ok a v => rw [after_ok (onPlaced_ok hk h), after_ok h]
  | error e v => rw [after_error (onPlaced_error hk h), after_error h]

theorem grows_onPlaced {x : Action (World ε) α} (hx : Grows x) : Grows (onPlaced k x) := by
  intro w
  cases hk : (w.structures[k]?).join with
  | some s =>
    rw [onPlaced_after hk]
    exact hx ⟨w.dict, s⟩
  | none => rw [after_error (onPlaced_none hk x)]

theorem onStructure_eq (hw : w.closed = []) (x : Action (World ε) α) :
    onStructure k x w = onPlaced k x w := by
  unfold onStructure
  rw [bind_ok (get_apply w), hw, if_neg List.not_mem_nil]

/-! ## Workspaces in order -/

variable [Engine ε] [LawfulEngine ε]

/-- No structure is closed, every structure is in order with the references to its pool, and there are
no other references. -/
structure InOrder (w : Workspace ε) (rs : List Reference) : Prop where
  dict : w.dict.Sound
  opened : w.closed = []
  world : ∀ k s, w.At k s → World.InOrder ⟨w.dict, s⟩ rs
  id : ∀ k s, w.At k s → s.pool.id = k
  placed : ∀ r ∈ rs, ∃ s, w.At r.1 s

/-- What a call leaves, with the references after it. -/
structure Follows (w : Workspace ε) (rs : List Reference) (w' : Workspace ε) : Prop where
  inOrder : w'.InOrder rs
  iterators : w'.iterators = w.iterators
  network : ∀ k s, w.At k s → ∃ s', w'.At k s' ∧ Engine.network s'.engine = Engine.network s.engine

/-- The order of the references does not matter. -/
theorem InOrder.perm (h : w.InOrder rs) (hp : rs'.Perm rs) : w.InOrder rs' where
  dict := h.dict
  opened := h.opened
  world k s hk := ⟨(h.world k s hk).sound, (h.world k s hk).balanced.congr fun _ => hp.count_eq _⟩
  id := h.id
  placed r hr := h.placed r (hp.mem_iff.1 hr)

/-- Iterators may be renamed and moved. -/
theorem InOrder.withIterators (h : w.InOrder rs) (iterators : List (String × Iterator)) :
    InOrder { w with iterators } rs := ⟨h.dict, h.opened, h.world, h.id, h.placed⟩

/-- The dictionary may change as requests that spare all structures change it. -/
theorem InOrder.withDict (h : w.InOrder rs) {d : Dictionary} {spared : Owner → Prop}
    (hd : Dictionary.Request.Kept w.dict spared d)
    (hs : ∀ k s, w.At k s → spared s.profile.owner ∧ spared s.profile.props.owner) :
    w.Follows rs { w with dict := d } := by
  refine ⟨⟨hd.sound, h.opened, fun k s hk => ?_, h.id, h.placed⟩, rfl, fun _ s hk => ⟨s, hk, rfl⟩⟩
  obtain ⟨hsound, hbalanced⟩ := h.world k s hk
  exact ⟨hsound.withDict hd (hs k s hk).1 (hs k s hk).2, hbalanced⟩

/-- A structure whose pool is empty may be added. -/
theorem InOrder.push (h : w.InOrder rs) (hsound : World.Sound ⟨w.dict, s⟩) (hc : s.pool.Counted)
    (hvacant : ∀ t, s.pool.slot? t = none) (hid : s.pool.id = w.structures.size) :
    w.Follows rs { w with structures := w.structures.push (some s) } := by
  have hcases : ∀ {j s'}, At { w with structures := w.structures.push (some s) } j s' ↔
      w.At j s' ∨ (j = w.structures.size ∧ s' = s) := by
    intro j s'
    rw [at_push, Option.some.injEq, eq_comm (a := s)]
  have hbalanced : s.pool.Balanced rs := by
    refine ⟨hc, fun t o ht => ?_, fun t => ?_⟩
    · cases (hvacant t).symm.trans ht
    have hnot : (s.pool.id, t) ∉ rs := by
      intro hmem
      obtain ⟨s', hs'⟩ := h.placed _ hmem
      exact absurd hs'.lt_size (by rw [hid]; exact Nat.lt_irrefl _)
    rw [List.count_eq_zero_of_not_mem hnot, Pool.refs_eq (hvacant t)]
    rfl
  refine ⟨⟨h.dict, h.opened, fun j s' hj => ?_, fun j s' hj => ?_, fun r hr => ?_⟩, rfl,
    fun j s' hj => ⟨s', hcases.2 (.inl hj), rfl⟩⟩
  · rcases hcases.1 hj with hj | ⟨-, rfl⟩
    · exact h.world j s' hj
    · exact ⟨hsound, hbalanced⟩
  · rcases hcases.1 hj with hj | ⟨rfl, rfl⟩
    · exact h.id j s' hj
    · exact hid
  · obtain ⟨s', hs'⟩ := h.placed r hr
    exact ⟨s', hcases.2 (.inl hs')⟩

/-- The lists name references to the pools of other structures equally often. -/
def AgreeElsewhere (k : Nat) (rs rs' : List Reference) : Prop :=
  ∀ j t, j ≠ k → rs'.count (j, t) = rs.count (j, t)

theorem agreeElsewhere_append {new : List Reference} (h : ∀ r ∈ new, r.1 = k) :
    AgreeElsewhere k rs (new ++ rs) := by
  intro j t hj
  have hnot : (j, t) ∉ new := fun hmem => hj (h _ hmem)
  rw [List.count_append, List.count_eq_zero_of_not_mem hnot, Nat.zero_add]

theorem agreeElsewhere_cons (k : Nat) (t : Handle) (rs : List Reference) :
    AgreeElsewhere k rs ((k, t) :: rs) :=
  fun _ _ hj => List.count_cons_of_ne fun heq => hj (congrArg Prod.fst heq).symm

theorem AgreeElsewhere.symm (h : AgreeElsewhere k rs rs') : AgreeElsewhere k rs' rs :=
  fun j t hj => (h j t hj).symm

/-- A call on one structure leaves the workspace in order if it leaves this structure so, and touches
no reference to another one. -/
theorem InOrder.withWorld (h : w.InOrder rs) (hk : w.At k s)
    (hv : World.Follows ⟨w.dict, s⟩ rs' v) (hrs : AgreeElsewhere k rs rs') :
    w.Follows rs' (w.withWorld k v) := by
  have hself : (w.withWorld k v).At k v.kripke := at_withWorld_self hk
  refine ⟨⟨hv.dict.sound, h.opened, fun j s' hj => ?_, fun j s' hj => ?_, fun r hr => ?_⟩, rfl,
    fun j s' hj => ?_⟩
  · by_cases hjk : j = k
    · subst hjk
      obtain rfl := hj.unique hself
      exact hv.inOrder
    · have hj' := (at_withWorld_of_ne hjk).1 hj
      obtain ⟨hsound, hbalanced⟩ := h.world j s' hj'
      refine ⟨hsound.withDict hv.dict trivial trivial, hbalanced.congr fun t => hrs _ t ?_⟩
      rwa [show s'.pool.id = j from h.id j s' hj']
  · by_cases hjk : j = k
    · subst hjk
      obtain rfl := hj.unique hself
      exact hv.id.trans (h.id j s hk)
    · exact h.id j s' ((at_withWorld_of_ne hjk).1 hj)
  · obtain ⟨j, t⟩ := r
    by_cases hjk : j = k
    · subst hjk
      exact ⟨_, hself⟩
    · have hmem : (j, t) ∈ rs := by
        rw [← List.count_pos_iff, ← hrs j t hjk]
        exact List.count_pos_iff.2 hr
      obtain ⟨s', hs'⟩ := h.placed _ hmem
      exact ⟨s', (at_withWorld_of_ne hjk).2 hs'⟩
  · by_cases hjk : j = k
    · subst hjk
      obtain rfl := hj.unique hk
      exact ⟨_, hself, hv.network⟩
    · exact ⟨s', (at_withWorld_of_ne hjk).2 hj, rfl⟩

/-- What a call ensures of one structure, it ensures of the workspace. -/
theorem onPlaced_follows (h : w.InOrder rs) (hk : w.At k s) {x : Action (World ε) α}
    {after : α → List Reference} {P : α → Prop}
    (hx : EnsuresFit x ⟨w.dict, s⟩ fun a v => World.Follows ⟨w.dict, s⟩ (after a) v ∧ P a)
    (hrs : ∀ a, P a → AgreeElsewhere k rs (after a)) :
    EnsuresFit (onPlaced k x) w fun a w' => w.Follows (after a) w' ∧ P a := by
  intro hfit
  rw [onPlaced_after hk] at hfit
  obtain ⟨a, v, hrun, hv, ha⟩ := hx hfit
  exact ⟨a, _, onPlaced_ok hk hrun, h.withWorld hk hv (hrs a ha), ha⟩

theorem onStructure_follows (h : w.InOrder rs) (hk : w.At k s) {x : Action (World ε) α}
    {after : α → List Reference} {P : α → Prop}
    (hx : EnsuresFit x ⟨w.dict, s⟩ fun a v => World.Follows ⟨w.dict, s⟩ (after a) v ∧ P a)
    (hrs : ∀ a, P a → AgreeElsewhere k rs (after a)) :
    EnsuresFit (onStructure k x) w fun a w' => w.Follows (after a) w' ∧ P a := by
  have hrun := onStructure_eq h.opened (k := k) x
  have hafter : (onStructure k x).after w = (onPlaced k x).after w := by
    unfold Action.after outcome
    rw [hrun]
  intro hfit
  rw [hafter] at hfit
  obtain ⟨a, w', ha, hfollows⟩ := onPlaced_follows h hk hx hrs hfit
  exact ⟨a, w', hrun.trans ha, hfollows⟩

end Workspace

end StateSpace
