import StateSpace.Proofs.Diagram.Calls

/-!
# Canonicity

An edge in order depends on no variable above its own, a plain edge is true where every variable is,
and no two cells hold the same node. So edges in order with the same value under every assignment have
the same sign and decide on the same variable between the same children: they are equal. In an ordered
manager that holds of all edges.
-/

namespace StateSpace.Manager

open StateSpace.Action

variable {ordered ordered' : Prop} {d d' : Manager} {e f : Edge} {es : List Edge} {i j : Nat}
  {n m : Node} {a b : UInt32 → Bool} {v : UInt32}

/-! ## What the value of an edge depends on -/

/-- The edge leads to a cell of the manager, and is in order. -/
structure Tidy (d : Manager) (e : Edge) : Prop where
  stored : d.Stored e
  ordered : d.Ordered 0 e

theorem Shaped.tidy (hd : Shaped True d) (he : d.Stored e) : d.Tidy e :=
  ⟨he, (hd.ordered_rank trivial he).anti (Nat.zero_le _)⟩

theorem Shaped.tidy_one (hd : Shaped ordered d) : d.Tidy .one := ⟨hd.stored_one, ordered_one d 0⟩

theorem Shaped.tidy_zero (hd : Shaped ordered d) : d.Tidy .zero := ⟨hd.stored_zero, ordered_zero d 0⟩

theorem Tidy.extends (he : d.Tidy e) (hd : Shaped ordered d) (hx : Extends d d') : d'.Tidy e :=
  ⟨he.stored.mono hd hx, he.ordered.extends hx⟩

theorem Tidy.child (he : d.Tidy e) (hs : NodeShaped ordered d e.index n) (h1 : e.index ≠ 1)
    (hn : d.nodes.value? e.index = some n) (c : Bool) : d.Tidy (signed e (child n c)) :=
  ⟨(hs.stored_child he.stored.2 c).signed e,
    ((he.ordered.child h1 hn c).anti (Nat.zero_le _)).signed e⟩

/-- Variables above an edge do not matter. -/
theorem value_congr (hd : Shaped ordered d) (he : d.Stored e) {u : Nat} (ho : d.Ordered u e)
    (hab : ∀ v : UInt32, u ≤ v.toNat → a v = b v) : d.value a e = d.value b e := by
  induction ho with
  | terminal h1 =>
    rcases Edge.eq_one_or_eq_zero h1 with rfl | rfl
    · rw [value_one, value_one]
    · rw [value_zero, value_zero]
  | @node u e n h1 hn hu _ ih =>
    have hc := (hd.nodeShaped he h1 hn).stored_child he.2 (a n.var)
    rw [value_node hd he h1 hn, value_node hd he h1 hn, ← hab n.var hu, value_signed hd hc,
      value_signed hd hc, ih _ hc fun v hv => hab v (by omega)]

theorem value_update (hd : Shaped ordered d) (he : d.Stored e) (ho : d.Ordered (v.toNat + 1) e)
    (c : Bool) : d.value (Function.update a v c) e = d.value a e := by
  refine value_congr hd he ho fun w hw => Function.update_of_ne ?_ _ _
  rintro rfl
  omega

/-- The value of a child is that of the edge where the variable is set. -/
theorem value_child (hd : Shaped ordered d) (he : d.Tidy e) (h1 : e.index ≠ 1)
    (hn : d.nodes.value? e.index = some n) (c : Bool) :
    d.value a (signed e (child n c)) = d.value (Function.update a n.var c) e := by
  have hs := hd.nodeShaped he.stored h1 hn
  rw [value_node hd he.stored h1 hn, Function.update_self, value_update hd]
  · exact (he.child hs h1 hn c).stored
  · exact (he.ordered.child h1 hn c).signed e

/-- An edge is plain if and only if it is true where every variable is. -/
theorem value_true (hd : Shaped ordered d) (he : d.Stored e) :
    d.value (fun _ => true) e = !e.isComplemented := by
  obtain ⟨k, hk⟩ : ∃ k, e.index = k := ⟨_, rfl⟩
  induction k using Nat.strongRecOn generalizing e with
  | _ k ih =>
    by_cases h1 : e.index = 1
    · rcases Edge.eq_one_or_eq_zero h1 with rfl | rfl <;> rfl
    · obtain ⟨n, hn, hs⟩ := hd.exists_node he h1
      have hhigh := hs.stored_child he.2 true
      have hval := ih _ (hk ▸ hs.child_lt true) hhigh rfl
      rw [value_node hd he h1 hn, value_signed hd hhigh, hval,
        show child n true = n.high from rfl, hs.plain]
      cases e.isComplemented <;> rfl

/-! ## Equal functions are equal edges -/

/-- No two cells hold the same node. -/
theorem Shaped.index_unique (hd : Shaped ordered d) (hi : d.nodes.value? i = some n)
    (hj : d.nodes.value? j = some n) : i = j := by
  obtain ⟨chain, hh, hall⟩ := hd.hashed
  have hterm : ∀ {k}, d.nodes.value? k = some n → n.var.toNat = 0 → k = 1 := by
    intro k hk h0
    have := Table.pos_of_value? hk
    by_contra hk1
    have := (hd.node k n (by omega) hk).var_pos
    omega
  by_cases h0 : n.var.toNat = 0
  · rw [hterm hi h0, hterm hj h0]
  · have htwo : ∀ {k}, d.nodes.value? k = some n → 2 ≤ k := by
      intro k hk
      have := Table.pos_of_value? hk
      have : k ≠ 1 := by
        rintro rfl
        rw [hd.terminal, Option.some.injEq] at hk
        exact h0 (by rw [← hk]; rfl)
      omega
    obtain ⟨b, hb⟩ := hall i (htwo hi) (Table.lt_size_of_value? hi)
    obtain ⟨b', hb'⟩ := hall j (htwo hj) (Table.lt_size_of_value? hj)
    exact hh.index_unique hb hb' hi hj

theorem Shaped.rank_le (hd : Shaped ordered d) (he : d.Stored e) : d.rank e ≤ 2 ^ 32 - 1 := by
  by_cases h1 : e.index = 1
  · exact Nat.le_of_eq (rank_terminal h1)
  · exact Nat.le_of_lt (hd.rank_lt he h1)

theorem signed_inj {c c' : Edge} : signed e c = signed e c' ↔ c = c' := by
  unfold signed
  split
  · exact Edge.neg_inj
  · exact Iff.rfl

/-- An edge with the function of an edge below it would have equal children. The other edge may be one
of another manager. -/
theorem rank_le_of_value_eq (hd : Shaped ordered d) (hd' : Shaped ordered' d') (he : d.Tidy e)
    (hf : d'.Tidy f) (hval : ∀ a, d.value a e = d'.value a f)
    (ih : ∀ c c', d.Tidy c → d.Tidy c' → c.index < e.index → c'.index < e.index →
      (∀ a, d.value a c = d.value a c') → c = c') : d'.rank f ≤ d.rank e := by
  by_contra hlt
  have h1 : e.index ≠ 1 := by
    intro h1
    rw [rank_terminal h1] at hlt
    exact hlt (hd'.rank_le hf.stored)
  obtain ⟨n, hn, hs⟩ := hd.exists_node he.stored h1
  rw [rank_node h1 hn] at hlt
  have hbelow : d'.Ordered (n.var.toNat + 1) f := hf.ordered.raise (Nat.lt_of_not_le hlt)
  have hchild : ∀ c a, d.value a (signed e (child n c)) = d'.value a f := by
    intro c a
    rw [value_child hd he h1 hn, hval, value_update hd' hf.stored hbelow]
  have hshorter : ∀ c, (signed e (child n c)).index < e.index := by
    intro c
    rw [index_signed]
    exact hs.child_lt c
  exact hs.reduced (signed_inj.1 (ih _ _ (he.child hs h1 hn false) (he.child hs h1 hn true)
    (hshorter false) (hshorter true) fun a => (hchild false a).trans (hchild true a).symm))

/-- Edges on the same variable with the same function have the same sign and the same children. -/
theorem eq_of_rank_eq (hd : Shaped ordered d) (he : d.Tidy e) (hf : d.Tidy f)
    (hval : ∀ a, d.value a e = d.value a f) (hrank : d.rank e = d.rank f)
    (ih : ∀ c c', d.Tidy c → d.Tidy c' → c.index < e.index → c'.index < f.index →
      (∀ a, d.value a c = d.value a c') → c = c') : e = f := by
  have hsign : e.isComplemented = f.isComplemented := by
    have := hval fun _ => true
    rwa [value_true hd he.stored, value_true hd hf.stored, Bool.not_inj_iff] at this
  refine Edge.ext_index ?_ hsign
  by_cases h1 : e.index = 1
  · rw [rank_terminal h1] at hrank
    by_contra hne
    have hlt := hd.rank_lt hf.stored fun h => hne (h1.trans h.symm)
    omega
  · have h1' : f.index ≠ 1 := by
      intro h1'
      rw [rank_terminal h1'] at hrank
      have := hd.rank_lt he.stored h1
      omega
    obtain ⟨n, hn, hs⟩ := hd.exists_node he.stored h1
    obtain ⟨m, hm, hs'⟩ := hd.exists_node hf.stored h1'
    rw [rank_node h1 hn, rank_node h1' hm] at hrank
    have hvar : n.var = m.var := UInt32.toNat_inj.1 hrank
    have hchild : ∀ c, child n c = child m c := by
      intro c
      have hsigned : signed e (child n c) = signed f (child m c) := by
        refine ih _ _ (he.child hs h1 hn c) (hf.child hs' h1' hm c) ?_ ?_ fun a => ?_
        · rw [index_signed]
          exact hs.child_lt c
        · rw [index_signed]
          exact hs'.child_lt c
        · rw [value_child hd he h1 hn, value_child hd hf h1' hm, hval, hvar]
      unfold signed at hsigned
      rw [hsign] at hsigned
      split at hsigned
      · exact Edge.neg_inj.1 hsigned
      · exact hsigned
    have hnm : n = m := by
      cases n
      cases m
      exact congr (congr (congrArg Node.mk hvar) (hchild false)) (hchild true)
    subst hnm
    exact hd.index_unique hn hm

/-- Edges in order with the same value under every assignment are equal, even if others are not. -/
theorem Tidy.eq_of_value_eq (hd : Shaped ordered d) (he : d.Tidy e) (hf : d.Tidy f)
    (hval : ∀ a, d.value a e = d.value a f) : e = f := by
  obtain ⟨k, hk⟩ : ∃ k, max e.index f.index = k := ⟨_, rfl⟩
  induction k using Nat.strongRecOn generalizing e f with
  | _ k ih =>
    have hle : d.rank f ≤ d.rank e := rank_le_of_value_eq hd hd he hf hval
      fun c c' hc hc' hlt hlt' hcc => ih _ (by omega) hc hc' hcc rfl
    have hge : d.rank e ≤ d.rank f := rank_le_of_value_eq hd hd hf he (fun a => (hval a).symm)
      fun c c' hc hc' hlt hlt' hcc => ih _ (by omega) hc hc' hcc rfl
    exact eq_of_rank_eq hd he hf hval (Nat.le_antisymm hge hle)
      fun c c' hc hc' hlt hlt' hcc => ih _ (by omega) hc hc' hcc rfl

/-- Edges with the same value under every assignment are equal. -/
theorem eq_of_value_eq (hd : Shaped True d) (he : d.Stored e) (hf : d.Stored f)
    (hval : ∀ a, d.value a e = d.value a f) : e = f :=
  (hd.tidy he).eq_of_value_eq hd (hd.tidy hf) hval

end StateSpace.Manager
