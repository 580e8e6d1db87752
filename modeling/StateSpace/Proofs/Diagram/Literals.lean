import Mathlib.Logic.Function.DependsOn
import StateSpace.Proofs.Diagram.Canonical

/-!
# Satisfying paths

The children of a node differ, so a walk that avoids the constant false can always go on, and ends at the
constant true. It asks each variable for the value that keeps the function satisfiable (`Leads`).

1. From every edge other than the constant false there is a walk, and it is found whatever the bound on
   its length, if that is above the index of the edge (`exists_leads`, `Leads.pathWithin_eq`).
2. Variables increase along the walk, and the function is true wherever its literals are.
3. If the function is a conjunction of literals, each node on the walk decides on one of them, and its
   other child is the constant false; so the walk lists them all (`Leads.perm`).

A literal is a signed number, so this is about functions of variables below 2 ^ 31 (`Narrow`). Calls that
leave the order to the manager, and make such variables only, return such functions.
-/

namespace StateSpace.Manager

open StateSpace.Action Function

variable {ordered : Prop} {d d' : Manager} {e : Edge} {es es' : List Edge} {n : Node} {k u : Nat}
  {lits cube : List Int32} {lit : Int32} {a b : UInt32 → Bool} {v : UInt32} {c : Bool}

/-! ## Literals -/

/-- The literal that asks a variable for a truth value. -/
def literalOf (v : UInt32) (b : Bool) : Int32 := if b then v.toInt32 else -v.toInt32

theorem toInt_literalOf (hv : v.toNat < 2 ^ 31) (b : Bool) :
    (literalOf v b).toInt = if b then (v.toNat : Int) else -v.toNat := by
  have htrue : v.toInt32.toInt = v.toNat := by
    show v.toBitVec.toInt = _
    rw [BitVec.toInt_eq_toNat_of_lt (by show 2 * v.toNat < 2 ^ 32; omega)]
    rfl
  cases b with
  | true => exact htrue
  | false =>
    show (-v.toInt32).toInt = -(v.toNat : Int)
    rw [Int32.toInt_neg, htrue]
    exact Int.bmod_eq_of_le (by omega) (by omega)

theorem literalVar_literalOf (hv : v.toNat < 2 ^ 31) (b : Bool) : literalVar (literalOf v b) = v := by
  rw [← UInt32.toNat_inj, toNat_literalVar, toInt_literalOf hv]
  cases b
  · exact (Int.natAbs_neg _).trans (Int.natAbs_natCast _)
  · exact Int.natAbs_natCast _

theorem literalOf_neg_iff (hv : v.toNat < 2 ^ 31) (h0 : 0 < v.toNat) :
    literalOf v c < 0 ↔ c = false := by
  rw [Int32.lt_iff_toInt_lt, toInt_literalOf hv]
  cases c
  · simpa using h0
  · simp

theorem literalOf_ne_zero (hv : v.toNat < 2 ^ 31) (h0 : 0 < v.toNat) : literalOf v c ≠ 0 := by
  intro h
  have hvar := literalVar_literalOf hv c
  rw [h] at hvar
  rw [← hvar] at h0
  exact absurd h0 (by decide)

theorem literalHolds_iff : literalHolds a lit = true ↔ a (literalVar lit) = !decide (lit < 0) := by
  unfold literalHolds
  by_cases h : lit < 0
  · simp [h]
  · simp [h]

theorem literalHolds_literalOf (hv : v.toNat < 2 ^ 31) (h0 : 0 < v.toNat) :
    literalHolds a (literalOf v c) = (a v == c) := by
  rw [Bool.eq_iff_iff, literalHolds_iff, literalVar_literalOf hv, beq_iff_eq]
  cases c <;> simp [literalOf_neg_iff hv h0]

/-- A literal is given by its variable and its sign. -/
theorem eq_literalOf (hv : (literalVar lit).toNat < 2 ^ 31) :
    lit = literalOf (literalVar lit) (!decide (lit < 0)) := by
  have hneg : lit < 0 ↔ lit.toInt < 0 := Int32.lt_iff_toInt_lt
  rw [← Int32.toInt_inj, toInt_literalOf hv, toNat_literalVar]
  by_cases h : lit < 0
  · have := hneg.1 h
    rw [decide_eq_true h, Bool.not_true, if_neg Bool.false_ne_true]
    omega
  · have := mt hneg.2 h
    rw [decide_eq_false h, Bool.not_false, if_pos rfl]
    omega

/-- Literals of other variables do not change. -/
theorem all_literalHolds_update (h : v ∉ cube.map literalVar) :
    cube.all (literalHolds (update a v c)) = cube.all (literalHolds a) := by
  rw [Bool.eq_iff_iff, List.all_eq_true, List.all_eq_true]
  refine forall₂_congr fun lit hlit => ?_
  have hne : literalVar lit ≠ v := by
    rintro rfl
    exact h (List.mem_map_of_mem hlit)
  unfold literalHolds
  rw [update_of_ne hne]

/-- Literals of different variables can all be true. -/
theorem exists_all_literalHolds (hnodup : (cube.map literalVar).Nodup) :
    ∃ a, cube.all (literalHolds a) = true := by
  induction cube with
  | nil => exact ⟨fun _ => false, rfl⟩
  | cons lit cube ih =>
    rw [List.map_cons, List.nodup_cons] at hnodup
    obtain ⟨a, ha⟩ := ih hnodup.2
    refine ⟨update a (literalVar lit) (!decide (lit < 0)), ?_⟩
    rw [List.all_cons, all_literalHolds_update hnodup.1, ha, Bool.and_true, literalHolds_iff,
      update_self]

/-! ## Walks -/

/-- Whether the walk takes the high branch of a node, which it does unless that is the constant false. -/
def takesHigh (e : Edge) (n : Node) : Bool := decide (signed e n.high ≠ .zero)

/-- The edge from which the walk goes on. -/
def next (e : Edge) (n : Node) : Edge := signed e (child n (takesHigh e n))

/-- The walk from an edge to the constant true, and the literals on its way. -/
inductive Leads (d : Manager) : Edge → List Int32 → Prop where
  | one : Leads d .one []
  | node {e : Edge} {n : Node} {lits : List Int32} (h1 : e.index ≠ 1)
      (hn : d.nodes.value? e.index = some n) (h : Leads d (next e n) lits) :
      Leads d e (literalOf n.var (takesHigh e n) :: lits)

/-- The walk does not come to the constant false. -/
theorem NodeShaped.next_ne_zero {i : Nat} (hs : NodeShaped ordered d i n) (e : Edge) :
    next e n ≠ .zero := by
  unfold next takesHigh
  by_cases hhigh : signed e n.high = .zero
  · rw [decide_eq_false (not_not.2 hhigh)]
    exact fun hlow => hs.reduced (signed_inj.1 (hlow.trans hhigh.symm))
  · rwa [decide_eq_true hhigh]

theorem NodeShaped.stored_next (hs : NodeShaped ordered d e.index n) (he : d.Stored e) :
    d.Stored (next e n) := (hs.stored_child he.2 _).signed e

theorem NodeShaped.index_next_lt (hs : NodeShaped ordered d e.index n) :
    (next e n).index < e.index := by
  unfold next
  rw [index_signed]
  exact hs.child_lt _

theorem pathWithin_succ (h1 : e.index ≠ 1) (hn : d.nodes.value? e.index = some n) :
    d.pathWithin (k + 1) e =
      (d.pathWithin k (next e n)).map (literalOf n.var (takesHigh e n) :: ·) := by
  have hone : e ≠ .one := by
    rintro rfl
    exact h1 rfl
  have hmap : ∀ (x : Except Fault (List Int32)) (lit : Int32),
      (x >>= fun rest => .ok (lit :: rest)) = x.map (lit :: ·) := by
    intro x lit
    cases x <;> rfl
  rw [pathWithin, if_neg hone, variableOf_eq hn, high_eq hn, low_eq hn]
  show (if signed e n.high = .zero then
      d.pathWithin k (signed e n.low) >>= fun rest => .ok (-n.var.toInt32 :: rest)
    else d.pathWithin k (signed e n.high) >>= fun rest => .ok (n.var.toInt32 :: rest)) = _
  unfold next takesHigh
  by_cases hhigh : signed e n.high = .zero
  · rw [if_pos hhigh, decide_eq_false (not_not.2 hhigh)]
    exact hmap _ _
  · rw [if_neg hhigh, decide_eq_true hhigh]
    exact hmap _ _

/-- There is a walk from every edge but the constant false. -/
theorem exists_leads (hd : Shaped ordered d) (he : d.Stored e) (hne : e ≠ .zero) :
    ∃ lits, d.Leads e lits := by
  obtain ⟨k, hk⟩ : ∃ k, e.index = k := ⟨_, rfl⟩
  induction k using Nat.strongRecOn generalizing e with
  | _ k ih =>
    by_cases h1 : e.index = 1
    · obtain rfl := (Edge.eq_one_or_eq_zero h1).resolve_right hne
      exact ⟨[], .one⟩
    · obtain ⟨n, hn, hs⟩ := hd.exists_node he h1
      obtain ⟨lits, h⟩ := ih _ (hk ▸ hs.index_next_lt) (hs.stored_next he) (hs.next_ne_zero e) rfl
      exact ⟨_, .node h1 hn h⟩

/-- The walk is found, whatever the bound on its length. -/
theorem Leads.pathWithin_eq (hd : Shaped ordered d) (he : d.Stored e) (h : d.Leads e lits)
    (hk : e.index < k) : d.pathWithin k e = .ok lits := by
  induction h generalizing k with
  | one =>
    obtain ⟨k, rfl⟩ : ∃ m, k = m + 1 := ⟨k - 1, by omega⟩
    rw [pathWithin, if_pos rfl]
  | @node e n lits h1 hn h ih =>
    have hs := hd.nodeShaped he h1 hn
    have hlt := hs.index_next_lt
    obtain ⟨k, rfl⟩ : ∃ m, k = m + 1 := ⟨k - 1, by omega⟩
    rw [pathWithin_succ h1 hn, ih (hs.stored_next he) (by omega)]
    rfl

theorem Leads.satisfyingPath_eq (hd : Shaped ordered d) (he : d.Stored e) (h : d.Leads e lits) :
    d.satisfyingPath e = .ok (some lits) := by
  have hzero : e ≠ .zero := by
    rintro rfl
    cases h with
    | node h1 => exact h1 rfl
  rw [satisfyingPath, if_neg hzero, h.pathWithin_eq hd he (Nat.lt_succ_self _)]
  rfl

/-! ## Functions of small variables -/

/-- The edge is in order, and its function depends on no variable from 2 ^ 31 on. -/
structure Narrow (d : Manager) (e : Edge) : Prop extends d.Tidy e where
  dependsOn : DependsOn (fun a => d.value a e) {v | v.toNat < 2 ^ 31}

theorem Narrow.child (hd : Shaped ordered d) (he : d.Narrow e) (h1 : e.index ≠ 1)
    (hn : d.nodes.value? e.index = some n) (c : Bool) : d.Narrow (signed e (child n c)) where
  toTidy := he.toTidy.child (hd.nodeShaped he.stored h1 hn) h1 hn c
  dependsOn a b hab := by
    show d.value a _ = d.value b _
    rw [value_child hd he.toTidy h1 hn, value_child hd he.toTidy h1 hn]
    refine he.dependsOn fun w hw => ?_
    by_cases hwv : w = n.var
    · rw [hwv, update_self, update_self]
    · rw [update_of_ne hwv, update_of_ne hwv, hab w hw]

/-- The function depends on the variable of its node: otherwise the children would be equal. -/
theorem Tidy.depends_on_var (hd : Shaped ordered d) (he : d.Tidy e) (h1 : e.index ≠ 1)
    (hn : d.nodes.value? e.index = some n) :
    ∃ a, d.value (update a n.var false) e ≠ d.value (update a n.var true) e := by
  by_contra hall
  have hs := hd.nodeShaped he.stored h1 hn
  have hlow := he.child hs h1 hn false
  have hhigh := he.child hs h1 hn true
  refine hs.reduced (signed_inj.1 (hlow.eq_of_value_eq hd hhigh fun a => ?_))
  have hsame := not_not.1 (not_exists.1 hall a)
  rwa [← value_child hd he h1 hn, ← value_child hd he h1 hn] at hsame

theorem Narrow.var_lt (hd : Shaped ordered d) (he : d.Narrow e) (h1 : e.index ≠ 1)
    (hn : d.nodes.value? e.index = some n) : n.var.toNat < 2 ^ 31 := by
  by_contra hge
  obtain ⟨a, ha⟩ := he.toTidy.depends_on_var hd h1 hn
  refine ha (he.dependsOn fun w hw => ?_)
  have hne : w ≠ n.var := by
    rintro rfl
    exact hge hw
  rw [update_of_ne hne, update_of_ne hne]

/-- What holds of the constant true, and of an edge if it holds where the walk goes on, holds of all
edges with a walk. -/
theorem Leads.narrow_induction {P : Edge → List Int32 → Prop} (hd : Shaped ordered d)
    (he : d.Narrow e) (h : d.Leads e lits) (one : P .one [])
    (node : ∀ e n lits, d.Narrow e → e.index ≠ 1 → d.nodes.value? e.index = some n →
      NodeShaped ordered d e.index n → n.var.toNat < 2 ^ 31 → P (next e n) lits →
      P e (literalOf n.var (takesHigh e n) :: lits)) : P e lits := by
  induction h with
  | one => exact one
  | @node e n lits h1 hn h ih =>
    exact node e n lits he h1 hn (hd.nodeShaped he.stored h1 hn) (he.var_lt hd h1 hn)
      (ih (he.child hd h1 hn _))

/-! ## What a walk tells -/

theorem Leads.ne_zero (hd : Shaped ordered d) (he : d.Narrow e) (h : d.Leads e lits) :
    ∀ lit ∈ lits, lit ≠ 0 := by
  refine h.narrow_induction (P := fun _ lits => ∀ lit ∈ lits, lit ≠ 0) hd he (by simp)
    fun e n lits _ _ _ hs hlt ih => ?_
  exact List.forall_mem_cons.2 ⟨literalOf_ne_zero hlt hs.var_pos, ih⟩

/-- The variables on the walk increase, from that of the edge on. -/
theorem Leads.ascending (hd : Shaped ordered d) (he : d.Narrow e) (h : d.Leads e lits) :
    (∀ u, d.Ordered u e → ∀ v ∈ lits.map literalVar, u ≤ v.toNat) ∧
      (lits.map literalVar).Pairwise (· < ·) := by
  refine h.narrow_induction (P := fun e lits =>
    (∀ u, d.Ordered u e → ∀ v ∈ lits.map literalVar, u ≤ v.toNat) ∧
      (lits.map literalVar).Pairwise (· < ·)) hd he ⟨by simp, .nil⟩
    fun e n lits he h1 hn hs hlt ⟨hle, hasc⟩ => ?_
  have htop : ∀ u, d.Ordered u e → u ≤ n.var.toNat := by
    intro u ho
    have := ho.le_rank
    rw [rank_node h1 hn] at this
    omega
  have hbelow := hle _ ((he.ordered.child h1 hn _).signed e)
  rw [List.map_cons, literalVar_literalOf hlt]
  refine ⟨fun u ho => List.forall_mem_cons.2 ⟨htop u ho, fun v hv => ?_⟩,
    List.pairwise_cons.2 ⟨fun v hv => UInt32.lt_iff_toNat_lt.2 (hbelow v hv), hasc⟩⟩
  have := htop u ho
  have := hbelow v hv
  omega

/-- The function is true wherever the literals are. -/
theorem Leads.value_eq_true (hd : Shaped ordered d) (he : d.Narrow e) (h : d.Leads e lits) :
    lits.all (literalHolds a) = true → d.value a e = true := by
  refine h.narrow_induction
    (P := fun e lits => lits.all (literalHolds a) = true → d.value a e = true) hd he
    (fun _ => value_one d a) fun e n lits he h1 hn hs hlt ih ha => ?_
  rw [List.all_cons, Bool.and_eq_true, literalHolds_literalOf hlt hs.var_pos, beq_iff_eq] at ha
  rw [value_node hd he.stored h1 hn, ha.1]
  exact ih ha.2

/-! ## Conjunctions of literals -/

/-- A node decides on one of the literals. -/
theorem exists_literal (hd : Shaped ordered d) (he : d.Tidy e) (h1 : e.index ≠ 1)
    (hn : d.nodes.value? e.index = some n)
    (hval : ∀ a, d.value a e = cube.all (literalHolds a)) : ∃ lit ∈ cube, literalVar lit = n.var := by
  by_contra hnone
  have hvar : n.var ∉ cube.map literalVar := fun hmem => hnone (List.mem_map.1 hmem)
  obtain ⟨a, ha⟩ := he.depends_on_var hd h1 hn
  rw [hval, hval, all_literalHolds_update hvar, all_literalHolds_update hvar] at ha
  exact ha rfl

/-- The walk takes the branch of that literal, because the other one is the constant false. -/
theorem takesHigh_eq (hd : Shaped ordered d) (he : d.Tidy e) (h1 : e.index ≠ 1)
    (hn : d.nodes.value? e.index = some n)
    (hval : ∀ a, d.value a e = cube.all (literalHolds a)) (hlit : lit ∈ cube)
    (hvar : literalVar lit = n.var) : takesHigh e n = !decide (lit < 0) := by
  by_contra hside
  have hs := hd.nodeShaped he.stored h1 hn
  have hnext : d.Tidy (next e n) := he.child hs h1 hn _
  refine hs.next_ne_zero e (hnext.eq_of_value_eq hd hd.tidy_zero fun a => ?_)
  rw [next, value_child hd he h1 hn, hval, value_zero, List.all_eq_false]
  refine ⟨lit, hlit, ?_⟩
  rwa [literalHolds_iff, hvar, update_self]

theorem eq_nil_of_all (h : ∀ a, cube.all (literalHolds a) = true) : cube = [] := by
  rw [List.eq_nil_iff_forall_not_mem]
  intro lit hlit
  have hlit := List.all_eq_true.1 (h fun _ => decide (lit < 0)) lit hlit
  rw [literalHolds_iff] at hlit
  exact absurd hlit (by simp)

/-- From a conjunction of literals of different variables, the walk lists them all. -/
theorem Leads.perm (hd : Shaped ordered d) (he : d.Narrow e) (h : d.Leads e lits) :
    ∀ cube : List Int32, (cube.map literalVar).Nodup →
      (∀ a, d.value a e = cube.all (literalHolds a)) → lits.Perm cube := by
  refine h.narrow_induction (P := fun e lits => ∀ cube : List Int32, (cube.map literalVar).Nodup →
    (∀ a, d.value a e = cube.all (literalHolds a)) → lits.Perm cube) hd he (fun cube _ hval => ?_)
    fun e n lits he h1 hn hs hlt ih cube hnodup hval => ?_
  · rw [eq_nil_of_all fun a => (hval a).symm.trans (value_one d a)]
  · obtain ⟨lit, hlit, hvar⟩ := exists_literal hd he.toTidy h1 hn hval
    have hside := takesHigh_eq hd he.toTidy h1 hn hval hlit hvar
    have heq : literalOf n.var (takesHigh e n) = lit := by
      rw [hside, ← hvar]
      exact (eq_literalOf (hvar ▸ hlt)).symm
    have hcube : cube.Perm (lit :: cube.erase lit) := List.perm_cons_erase hlit
    have hrest := List.nodup_cons.1 ((hcube.map literalVar).nodup_iff.1 hnodup)
    have hfirst : ∀ a, literalHolds (update a n.var (takesHigh e n)) lit = true := by
      intro a
      rw [literalHolds_iff, hvar, update_self, hside]
    rw [heq]
    refine ((ih _ hrest.2 fun a => ?_).cons lit).trans hcube.symm
    rw [next, value_child hd he.toTidy h1 hn, hval, hcube.all_eq, List.all_cons, hfirst,
      Bool.true_and, all_literalHolds_update (hvar ▸ hrest.1)]

/-- The literals imply the function, and their variables increase. If the function is a conjunction of
literals, these are all. -/
structure Implicant (d : Manager) (e : Edge) (lits : List Int32) : Prop where
  ne_zero : ∀ lit ∈ lits, lit ≠ 0
  ascending : (lits.map literalVar).Pairwise (· < ·)
  implies : ∀ a, lits.all (literalHolds a) = true → d.eval a e = .ok true
  cube : ∀ cube : List Int32, (cube.map literalVar).Nodup →
    (∀ a, d.eval a e = .ok (cube.all (literalHolds a))) → lits.Perm cube

theorem Leads.implicant (hd : Shaped ordered d) (he : d.Narrow e) (h : d.Leads e lits) :
    Implicant d e lits where
  ne_zero := h.ne_zero hd he
  ascending := (h.ascending hd he).2
  implies a ha := by rw [eval_eq hd a he.stored, h.value_eq_true hd he ha]
  cube cube hnodup hval := h.perm hd he cube hnodup fun a =>
    Except.ok.inj ((eval_eq hd a he.stored).symm.trans (hval a))

/-- There is no path exactly if the function is the constant false. Otherwise the path is found, whatever
the bound on its length. -/
theorem Narrow.exists_satisfyingPath (hd : Shaped ordered d) (he : d.Narrow e) :
    ∃ r, d.satisfyingPath e = .ok r ∧ (r = none ↔ ∀ a, d.eval a e = .ok false) ∧
      ∀ lits, r = some lits →
        (∀ k, e.index < k → d.pathWithin k e = .ok lits) ∧ Implicant d e lits := by
  by_cases hzero : e = .zero
  · subst hzero
    exact ⟨none, if_pos rfl, iff_of_true rfl fun a => eval_eq hd a he.stored, by simp⟩
  · obtain ⟨lits, h⟩ := exists_leads hd he.stored hzero
    refine ⟨some lits, h.satisfyingPath_eq hd he.stored,
      iff_of_false (by simp) fun hfalse => hzero ?_, fun lits' hlits => ?_⟩
    · refine he.toTidy.eq_of_value_eq hd hd.tidy_zero fun a => ?_
      exact Except.ok.inj ((eval_eq hd a he.stored).symm.trans (hfalse a))
    · cases hlits
      exact ⟨fun k hk => h.pathWithin_eq hd he.stored hk, h.implicant hd he⟩

/-! ## Edges that calls return -/

/-- The call leaves the order to the manager, and its variable is the number of a literal. -/
def Call.Signable : Call → Prop
  | .var v => 0 < v.toNat ∧ v.toNat < 2 ^ 31
  | .node _ _ _ => False
  | .cube _ => False
  | _ => True

theorem Call.Signable.inOrder {c : Call} (hc : c.Signable) : c.Ordered := by
  cases c with
  | var v => exact ⟨⟨hc.1, Nat.lt_trans hc.2 (by decide)⟩, trivial⟩
  | node v low high => exact hc.elim
  | cube lits => exact hc.elim
  | not f => exact ⟨trivial, trivial⟩
  | ite f g h => exact ⟨trivial, trivial⟩
  | and f g => exact ⟨trivial, trivial⟩
  | andMany fs => exact ⟨trivial, trivial⟩

theorem Call.meaning_congr {c : Call} {value value' : Edge → Bool} (hc : c.Signable)
    (hab : ∀ v : UInt32, v.toNat < 2 ^ 31 → a v = b v)
    (hval : ∀ e ∈ c.operands, value e = value' e) : c.meaning a value = c.meaning b value' := by
  cases c with
  | var v => exact hab v hc.2
  | node v low high => exact hc.elim
  | cube lits => exact hc.elim
  | not f => simp only [meaning, hval f (by simp [operands])]
  | ite f g h =>
    simp only [meaning, hval f (by simp [operands]), hval g (by simp [operands]),
      hval h (by simp [operands])]
  | and f g => simp only [meaning, hval f (by simp [operands]), hval g (by simp [operands])]
  | andMany fs =>
    rw [Bool.eq_iff_iff]
    simp only [meaning, List.all_eq_true]
    exact forall₂_congr fun e he => by rw [hval e he]

theorem Narrow.extends (he : d.Narrow e) (hd : Shaped ordered d) (hd' : Shaped ordered d')
    (hx : Extends d d') : d'.Narrow e where
  toTidy := he.toTidy.extends hd hx
  dependsOn a b hab := by
    show d'.value a e = d'.value b e
    rw [value_extends he.stored hd hd' hx, value_extends he.stored hd hd' hx]
    exact he.dependsOn hab

theorem Calls.narrow (h : Calls Call.Signable d es d' es') (hd : Sound True d)
    (hs : ∀ e ∈ es, d.Narrow e) : Sound True d' ∧ ∀ e ∈ es', d'.Narrow e := by
  induction h with
  | nil => exact ⟨hd, hs⟩
  | @call d₁ d₂ es₁ c r h hc hop hrun hfit ih =>
    obtain ⟨hd₁, hs₁⟩ := ih
    obtain ⟨r', d', hrun', hgrown, hval⟩ := Call.run_spec hd₁ hc.inOrder.1 (fun _ => hc.inOrder.2)
      (fun e he => (hs₁ e (hop e he)).stored) (by rwa [after_ok hrun])
    cases hrun.symm.trans hrun'
    have h₂ := hgrown.sound.toShaped
    refine ⟨hgrown.sound, List.forall_mem_cons.2 ⟨⟨h₂.tidy hgrown.stored, fun a b hab => ?_⟩,
      fun e he => (hs₁ e he).extends hd₁.toShaped h₂ hgrown.extend⟩⟩
    show d₂.value a r = d₂.value b r
    rw [hval, hval]
    exact Call.meaning_congr hc hab fun e he => (hs₁ e (hop e he)).dependsOn hab

theorem Reached.narrow (h : Reached Call.Signable d es) :
    Sound True d ∧ ∀ e ∈ es, d.Narrow e := by
  obtain ⟨bits, d₀, hcreate, hcalls⟩ := h
  have hd₀ : Sound True d₀ := create_sound hcreate
  refine hcalls.narrow hd₀ fun e he => ?_
  rcases List.mem_pair.1 he with rfl | rfl
  · exact ⟨hd₀.tidy_one, fun a b _ => rfl⟩
  · exact ⟨hd₀.tidy_zero, fun a b _ => rfl⟩

end StateSpace.Manager
