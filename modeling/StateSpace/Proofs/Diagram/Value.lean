import StateSpace.Diagram.Path
import StateSpace.Proofs.Action
import StateSpace.Proofs.Diagram.Edge
import StateSpace.Proofs.Table.Chains

/-!
# The values of edges

In a shaped manager every cell but the terminal holds a node whose children are older, so a walk
towards the terminal ends and `value` tells the truth value of an edge under an assignment. A manager
that extends another one gives the old edges their old values.

`Shaped` has a parameter: when it is true, variables also increase from parents to children. Nodes
can be made against the order, and values make sense all the same. In a manager with such nodes, single
edges may still be `Ordered`.
-/

namespace StateSpace

namespace Manager

instance : HasCells Manager := ⟨fun d => d.nodes.size⟩

variable {ordered : Prop} {d d' d'' : Manager} {e e' : Edge} {i : Nat} {n : Node}
  {a : UInt32 → Bool}

/-! ## Shaped managers -/

/-- The edge leads to a cell of the manager. -/
def Stored (d : Manager) (e : Edge) : Prop := 0 < e.index ∧ e.index < d.nodes.cells.size

/-- The place of an edge in the order: its variable, below all of them for the terminal. -/
def rank (d : Manager) (e : Edge) : Nat :=
  if e.isTerminal then 2 ^ 32 - 1
  else match d.nodes.value? e.index with
    | some n => n.var.toNat
    | none => 0

/-- The child of a node where its variable has a truth value. -/
def child (n : Node) (b : Bool) : Edge := if b then n.high else n.low

/-- The node of cell `i` decides on a variable, between two different older edges of which the high
one is plain. -/
structure NodeShaped (ordered : Prop) (d : Manager) (i : Nat) (n : Node) : Prop where
  var_pos : 0 < n.var.toNat
  var_lt : n.var.toNat < 2 ^ 32 - 1
  low_pos : 0 < n.low.index
  low_lt : n.low.index < i
  high_pos : 0 < n.high.index
  high_lt : n.high.index < i
  plain : n.high.isComplemented = false
  reduced : n.low ≠ n.high
  increasing : ordered → n.var.toNat < d.rank n.low ∧ n.var.toNat < d.rank n.high

/-- The cells are the terminal, which is on no chain, and nodes, which are all on chains. -/
structure Shaped (ordered : Prop) (d : Manager) : Prop where
  wellFormed : d.nodes.WellFormed
  free : d.nodes.free = []
  terminal : d.nodes.value? 1 = some default
  fits : d.nodes.cells.size ≤ 2 ^ 31
  hashed : ∃ chain, d.nodes.Hashed chain ∧
    ∀ i, 2 ≤ i → i < d.nodes.cells.size → ∃ b, i ∈ chain b
  node : ∀ i n, 2 ≤ i → d.nodes.value? i = some n → NodeShaped ordered d i n

theorem Shaped.two_le (h : Shaped ordered d) : 2 ≤ d.nodes.cells.size :=
  Table.lt_size_of_value? h.terminal

theorem Shaped.stored_one (h : Shaped ordered d) : d.Stored .one := ⟨by decide, h.two_le⟩

theorem Shaped.stored_zero (h : Shaped ordered d) : d.Stored .zero := ⟨by decide, h.two_le⟩

theorem Stored.neg (h : d.Stored e) : d.Stored (-e) := by
  unfold Stored
  rwa [Edge.index_neg]

theorem Stored.lt (h : d.Stored e) (hd : Shaped ordered d) : e.index < 2 ^ 31 :=
  Nat.lt_of_lt_of_le h.2 hd.fits

theorem Stored.isComplemented_neg (h : d.Stored e) (hd : Shaped ordered d) :
    (-e).isComplemented = !e.isComplemented := Edge.isComplemented_neg h.1 (h.lt hd)

theorem Shaped.nodeShaped (hd : Shaped ordered d) (h : d.Stored e) (hne : e.index ≠ 1)
    (hn : d.nodes.value? e.index = some n) : NodeShaped ordered d e.index n := by
  have := h.1
  exact hd.node _ n (by omega) hn

/-- An edge that does not lead to the terminal leads to a node. -/
theorem Shaped.exists_node (hd : Shaped ordered d) (h : d.Stored e) (hne : e.index ≠ 1) :
    ∃ n, d.nodes.value? e.index = some n ∧ NodeShaped ordered d e.index n := by
  obtain ⟨n, hn⟩ := hd.wellFormed.full hd.free h.1 h.2
  exact ⟨n, hn, hd.nodeShaped h hne hn⟩

theorem NodeShaped.child_lt (hn : NodeShaped ordered d i n) (b : Bool) :
    (child n b).index < i := by
  cases b
  · exact hn.low_lt
  · exact hn.high_lt

theorem NodeShaped.stored_child (hn : NodeShaped ordered d i n) (hi : i < d.nodes.cells.size)
    (b : Bool) : d.Stored (child n b) := by
  refine ⟨?_, Nat.lt_trans (hn.child_lt b) hi⟩
  cases b
  · exact hn.low_pos
  · exact hn.high_pos

theorem rank_terminal (h : e.index = 1) : d.rank e = 2 ^ 32 - 1 := by
  unfold rank
  rw [if_pos (Edge.isTerminal_iff.2 h)]

theorem rank_node (h : e.index ≠ 1) (hn : d.nodes.value? e.index = some n) :
    d.rank e = n.var.toNat := by
  unfold rank
  rw [Edge.isTerminal_eq_false_iff.2 h, hn]
  rfl

@[simp] theorem rank_neg (d : Manager) (e : Edge) : d.rank (-e) = d.rank e := by
  unfold rank Edge.isTerminal
  rw [Edge.index_neg]

/-! ## Reading nodes -/

/-- The sign of an edge carries over to the children of its node. -/
def signed (e c : Edge) : Edge := if e.isComplemented then -c else c

@[simp] theorem index_signed (e c : Edge) : (signed e c).index = c.index := by
  unfold signed
  split
  · exact Edge.index_neg c
  · rfl

theorem index_of_signed {c f : Edge} (h : signed e c = f) : c.index = f.index := by
  rw [← h, index_signed]

theorem Stored.signed {c : Edge} (h : d.Stored c) (e : Edge) : d.Stored (signed e c) := by
  unfold Stored
  rwa [index_signed]

theorem variableOf_eq (hn : d.nodes.value? e.index = some n) : d.variableOf e = .ok n.var := by
  unfold variableOf
  rw [Table.get_of_value? hn]
  rfl

theorem low_eq (hn : d.nodes.value? e.index = some n) : d.low e = .ok (signed e n.low) := by
  unfold low
  rw [Table.get_of_value? hn]
  rfl

theorem high_eq (hn : d.nodes.value? e.index = some n) : d.high e = .ok (signed e n.high) := by
  unfold high
  rw [Table.get_of_value? hn]
  rfl

/-! ## Values -/

/-- The truth value of an edge under an assignment. -/
def value (d : Manager) (a : UInt32 → Bool) (e : Edge) : Bool :=
  match d.eval a e with
  | .ok b => b
  | .error _ => false

theorem evalWithin_succ (d : Manager) (a : UInt32 → Bool) (fuel : Nat) (e : Edge)
    (hne : e.index ≠ 1) (hn : d.nodes.value? e.index = some n) :
    d.evalWithin a (fuel + 1) e =
      d.evalWithin a fuel (signed e (child n (a n.var))) := by
  rw [evalWithin, Edge.isTerminal_eq_false_iff.2 hne, variableOf_eq hn, low_eq hn, high_eq hn]
  show (if a n.var = true then d.evalWithin a fuel (signed e n.high)
    else d.evalWithin a fuel (signed e n.low)) = _
  cases a n.var <;> rfl

theorem evalWithin_terminal (d : Manager) (a : UInt32 → Bool) (fuel : Nat) (h : e.index = 1) :
    d.evalWithin a (fuel + 1) e = .ok (e = .one) := by
  unfold evalWithin
  rw [if_pos (Edge.isTerminal_iff.2 h)]

/-- A walk ends at the terminal: its result does not depend on the fuel, if that is enough. -/
theorem exists_evalWithin_eq (hd : Shaped ordered d) (a : UInt32 → Bool) (h : d.Stored e) :
    ∃ b, ∀ fuel, e.index < fuel → d.evalWithin a fuel e = .ok b := by
  obtain ⟨k, hk⟩ : ∃ k, e.index = k := ⟨_, rfl⟩
  induction k using Nat.strongRecOn generalizing e with
  | _ k ih =>
    by_cases h1 : e.index = 1
    · refine ⟨e = .one, fun fuel hfuel => ?_⟩
      obtain ⟨fuel, rfl⟩ : ∃ m, fuel = m + 1 := ⟨fuel - 1, by omega⟩
      exact evalWithin_terminal d a fuel h1
    · obtain ⟨n, hn, hs⟩ := hd.exists_node h h1
      have hlt := hs.child_lt (a n.var)
      have hc := (hs.stored_child h.2 (a n.var)).signed e
      obtain ⟨b, hb⟩ := ih _ (by rwa [index_signed, ← hk]) hc rfl
      refine ⟨b, fun fuel hfuel => ?_⟩
      obtain ⟨fuel, rfl⟩ : ∃ m, fuel = m + 1 := ⟨fuel - 1, by omega⟩
      rw [evalWithin_succ d a fuel e h1 hn]
      exact hb fuel (by rw [index_signed]; omega)

theorem evalWithin_eq (hd : Shaped ordered d) (a : UInt32 → Bool) (h : d.Stored e) {fuel : Nat}
    (hfuel : e.index < fuel) : d.evalWithin a fuel e = .ok (d.value a e) := by
  obtain ⟨b, hb⟩ := exists_evalWithin_eq hd a h
  rw [hb fuel hfuel]
  unfold value eval
  rw [hb _ (Nat.lt_succ_self _)]

theorem eval_eq (hd : Shaped ordered d) (a : UInt32 → Bool) (h : d.Stored e) :
    d.eval a e = .ok (d.value a e) := evalWithin_eq hd a h (Nat.lt_succ_self _)

@[simp] theorem value_one (d : Manager) (a : UInt32 → Bool) : d.value a .one = true := rfl

@[simp] theorem value_zero (d : Manager) (a : UInt32 → Bool) : d.value a .zero = false := rfl

/-- An edge to a node has the value of the child that the assignment selects. -/
theorem value_node (hd : Shaped ordered d) (h : d.Stored e) (hne : e.index ≠ 1)
    (hn : d.nodes.value? e.index = some n) :
    d.value a e = d.value a (signed e (child n (a n.var))) := by
  have hs := hd.nodeShaped h hne hn
  have hc := (hs.stored_child h.2 (a n.var)).signed e
  have hlt : (signed e (child n (a n.var))).index < e.index := by
    rw [index_signed]
    exact hs.child_lt _
  have heval := eval_eq hd a h
  unfold eval at heval
  rw [evalWithin_succ d a _ e hne hn, evalWithin_eq hd a hc hlt] at heval
  exact (Except.ok.inj heval).symm

theorem value_neg (hd : Shaped ordered d) (h : d.Stored e) : d.value a (-e) = !d.value a e := by
  obtain ⟨k, hk⟩ : ∃ k, e.index = k := ⟨_, rfl⟩
  induction k using Nat.strongRecOn generalizing e with
  | _ k ih =>
    by_cases h1 : e.index = 1
    · rcases Edge.eq_one_or_eq_zero h1 with rfl | rfl <;> rfl
    · obtain ⟨n, hn, hs⟩ := hd.exists_node h h1
      have hn' : d.nodes.value? (-e).index = some n := by rwa [Edge.index_neg]
      rw [value_node hd h h1 hn, value_node hd h.neg (by rwa [Edge.index_neg]) hn']
      have := ih _ (hk ▸ hs.child_lt (a n.var)) (hs.stored_child h.2 _) rfl
      unfold signed
      rw [h.isComplemented_neg hd]
      cases e.isComplemented
      · simpa using this
      · simp [this]

theorem value_signed (hd : Shaped ordered d) {c : Edge} (h : d.Stored c) (e : Edge) :
    d.value a (signed e c) = (e.isComplemented ^^ d.value a c) := by
  unfold signed
  cases e.isComplemented
  · simp
  · simp [value_neg hd h]

/-! ## Extending a manager -/

/-- Every cell of `d` is a cell of `d'` with the same node. -/
def Extends (d d' : Manager) : Prop :=
  ∀ i n, d.nodes.value? i = some n → d'.nodes.value? i = some n

theorem Extends.refl (d : Manager) : Extends d d := fun _ _ h => h

theorem Extends.trans (h : Extends d d') (h' : Extends d' d'') : Extends d d'' :=
  fun i n hn => h' i n (h i n hn)

theorem Extends.of_nodes (h : d'.nodes = d.nodes) : Extends d d' := by
  intro i n hn
  rwa [h]

theorem Stored.mono (h : d.Stored e) (hd : Shaped ordered d) (he : Extends d d') :
    d'.Stored e := by
  obtain ⟨n, hn⟩ := hd.wellFormed.full hd.free h.1 h.2
  exact ⟨h.1, Table.lt_size_of_value? (he _ n hn)⟩

theorem rank_extends (h : d.Stored e) (hd : Shaped ordered d) (he : Extends d d') :
    d'.rank e = d.rank e := by
  obtain ⟨n, hn⟩ := hd.wellFormed.full hd.free h.1 h.2
  unfold rank
  rw [hn, he _ n hn]

/-- Old edges keep their values. -/
theorem value_extends {ordered' : Prop} (h : d.Stored e) (hd : Shaped ordered d)
    (hd' : Shaped ordered' d') (he : Extends d d') : d'.value a e = d.value a e := by
  obtain ⟨k, hk⟩ : ∃ k, e.index = k := ⟨_, rfl⟩
  induction k using Nat.strongRecOn generalizing e with
  | _ k ih =>
    by_cases h1 : e.index = 1
    · rcases Edge.eq_one_or_eq_zero h1 with rfl | rfl <;> rfl
    · obtain ⟨n, hn, hs⟩ := hd.exists_node h h1
      rw [value_node hd h h1 hn, value_node hd' (h.mono hd he) h1 (he _ n hn)]
      refine ih _ ?_ ((hs.stored_child h.2 _).signed e) rfl
      rw [index_signed, ← hk]
      exact hs.child_lt _

/-! ## Ordered edges -/

/-- Variables increase on every way down from the edge, and none of them is smaller than `v`. -/
inductive Ordered (d : Manager) : Nat → Edge → Prop where
  | terminal {v : Nat} {e : Edge} (h1 : e.index = 1) : Ordered d v e
  | node {v : Nat} {e : Edge} {n : Node} (h1 : e.index ≠ 1) (hn : d.nodes.value? e.index = some n)
      (hv : v ≤ n.var.toNat) (hc : ∀ b, Ordered d (n.var.toNat + 1) (child n b)) : Ordered d v e

variable {v u : Nat}

theorem ordered_one (d : Manager) (v : Nat) : Ordered d v .one := .terminal rfl

theorem ordered_zero (d : Manager) (v : Nat) : Ordered d v .zero := .terminal rfl

/-- The sign of an edge does not matter. -/
theorem Ordered.of_index (h : Ordered d v e) (hi : e'.index = e.index) : Ordered d v e' := by
  cases h with
  | terminal h1 => exact .terminal (hi.trans h1)
  | node h1 hn hv hc => exact .node (hi ▸ h1) (hi ▸ hn) hv hc

theorem Ordered.neg (h : Ordered d v e) : Ordered d v (-e) := h.of_index (Edge.index_neg e)

theorem Ordered.signed {c : Edge} (h : Ordered d v c) (e : Edge) : Ordered d v (signed e c) :=
  h.of_index (index_signed e c)

theorem Ordered.anti (h : Ordered d v e) (hu : u ≤ v) : Ordered d u e := by
  cases h with
  | terminal h1 => exact .terminal h1
  | node h1 hn hv hc => exact .node h1 hn (Nat.le_trans hu hv) hc

/-- An edge is ordered from its own variable on. -/
theorem Ordered.raise (h : Ordered d v e) (hu : u ≤ d.rank e) : Ordered d u e := by
  cases h with
  | terminal h1 => exact .terminal h1
  | node h1 hn hv hc => exact .node h1 hn (rank_node h1 hn ▸ hu) hc

theorem Ordered.le_rank (h : Ordered d v e) : min v (2 ^ 32 - 1) ≤ d.rank e := by
  cases h with
  | terminal h1 => exact rank_terminal h1 ▸ Nat.min_le_right ..
  | node h1 hn hv hc => exact rank_node h1 hn ▸ Nat.le_trans (Nat.min_le_left ..) hv

theorem Ordered.child (h : Ordered d v e) (h1 : e.index ≠ 1) (hn : d.nodes.value? e.index = some n)
    (b : Bool) : Ordered d (n.var.toNat + 1) (child n b) := by
  cases h with
  | terminal h1' => exact absurd h1' h1
  | node _ hn' _ hc =>
    rw [hn, Option.some.injEq] at hn'
    exact hn' ▸ hc b

/-- In an ordered manager all edges are. -/
theorem Shaped.ordered_rank (hd : Shaped ordered d) (ho : ordered) (h : d.Stored e) :
    Ordered d (d.rank e) e := by
  obtain ⟨k, hk⟩ : ∃ k, e.index = k := ⟨_, rfl⟩
  induction k using Nat.strongRecOn generalizing e with
  | _ k ih =>
    by_cases h1 : e.index = 1
    · exact .terminal h1
    · obtain ⟨n, hn, hs⟩ := hd.exists_node h h1
      refine .node h1 hn (Nat.le_of_eq (rank_node h1 hn)) fun b => ?_
      refine (ih _ (hk ▸ hs.child_lt b) (hs.stored_child h.2 b) rfl).anti ?_
      cases b
      · exact (hs.increasing ho).1
      · exact (hs.increasing ho).2

theorem Ordered.extends (h : Ordered d v e) (hx : Extends d d') : Ordered d' v e := by
  induction h with
  | terminal h1 => exact .terminal h1
  | node h1 hn hv _ ih => exact .node h1 (hx _ _ hn) hv ih

/-- Old edges are in order if they were. -/
theorem Ordered.of_extends (h : Ordered d' v e) (hs : d.Stored e) (hd : Shaped ordered d)
    (hx : Extends d d') : Ordered d v e := by
  induction h with
  | terminal h1 => exact .terminal h1
  | node h1 hn hv _ ih =>
    obtain ⟨n, hn', hshaped⟩ := hd.exists_node hs h1
    rw [hx _ _ hn', Option.some.injEq] at hn
    exact .node h1 (hn ▸ hn') hv fun b => ih b (hn ▸ hshaped.stored_child hs.2 b)

end Manager

end StateSpace
