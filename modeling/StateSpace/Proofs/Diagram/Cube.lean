import Mathlib
import StateSpace.Proofs.Diagram.Literals

/-!
# Cubes

A cube is built from its literals without if-then-else, one node on top of the other, from the largest
variable upwards. So it is in order if and only if the variables of the literals are different
(`Stacked.ordered_iff`). Otherwise a node has a child on its own variable, and the cube is no edge in order:
it has the function of the conjunction that and makes of the same literals, but is another edge
(`cube_eq_conjunction_iff`). In particular a cube of opposite literals is false under every assignment, and
yet it is not the constant false.
-/

namespace StateSpace.Manager

open StateSpace.Action

variable {ordered : Prop} {d d' : Manager} {e c r : Edge} {es : List Edge} {vs : List UInt32}
  {lits : List Int32} {lit : Int32}

/-! ## One node on top of the other -/

theorem Ordered.le_var {u : Nat} {n : Node} (h : d.Ordered u e) (h1 : e.index ≠ 1)
    (hn : d.nodes.value? e.index = some n) : u ≤ n.var.toNat := by
  cases h with
  | terminal h1' => exact absurd h1' h1
  | node _ hn' hu _ => exact Option.some.inj (hn.symm.trans hn') ▸ hu

/-- From the edge down, nodes decide on the variables one after the other, and their other children are
constants. -/
inductive Stacked (d : Manager) : Edge → List UInt32 → Prop where
  | one : Stacked d .one []
  | node {e c : Edge} {n : Node} {vs : List UInt32} (b : Bool) (h1 : e.index ≠ 1)
      (hn : d.nodes.value? e.index = some n) (hnext : (child n b).index = c.index)
      (hother : (child n !b).index = 1) (h : Stacked d c vs) : Stacked d e (n.var :: vs)

theorem Stacked.extends (h : Stacked d e vs) (hx : Extends d d') : Stacked d' e vs := by
  induction h with
  | one => exact .one
  | node b h1 hn hnext hother _ ih => exact .node b h1 (hx _ _ hn) hnext hother ih

theorem Stacked.ne_zero (h : Stacked d e vs) : e ≠ .zero := by
  cases h with
  | one => exact Edge.one_ne_zero
  | node b h1 =>
    rintro rfl
    exact h1 rfl

/-- Such an edge is in order if and only if the variables increase. -/
theorem Stacked.ordered_iff (h : Stacked d e vs) {u : Nat} :
    d.Ordered u e ↔ vs.Pairwise (· < ·) ∧ ∀ v ∈ vs, u ≤ v.toNat := by
  induction h generalizing u with
  | one => exact iff_of_true (ordered_one d u) ⟨.nil, by simp⟩
  | @node e c n vs b h1 hn hnext hother _ ih =>
    rw [List.pairwise_cons, List.forall_mem_cons]
    constructor
    · intro ho
      have hu := ho.le_var h1 hn
      obtain ⟨hinc, hle⟩ := ih.1 ((ho.child h1 hn b).of_index hnext.symm)
      exact ⟨⟨fun v hv => UInt32.lt_iff_toNat_lt.2 (hle v hv), hinc⟩, hu, fun v hv =>
        Nat.le_trans hu (Nat.le_of_succ_le (hle v hv))⟩
    · rintro ⟨⟨hlt, hinc⟩, hu, -⟩
      have hnextOrdered : d.Ordered (n.var.toNat + 1) c :=
        ih.2 ⟨hinc, fun v hv => UInt32.lt_iff_toNat_lt.1 (hlt v hv)⟩
      refine .node h1 hn hu fun b' => ?_
      by_cases hb : b' = b
      · exact hb ▸ hnextOrdered.of_index hnext
      · rw [Bool.eq_not_of_ne hb]
        exact .terminal hother

/-! ## Cubes -/

/-- A literal goes on top. -/
theorem addLiteral_stacked (hd : Sound False d) (he : d.Stored e) (hs : Stacked d e vs)
    (h0 : lit ≠ 0) : EnsuresFit (addLiteral e lit) d fun r d' =>
      Grown False d r d' ∧ Stacked d' r (literalVar lit :: vs) := by
  have hv := inOrder_literalVar h0
  have hz := hd.stored_zero
  unfold addLiteral
  split
  · refine (node_of_ne hd hv.1 hv.2 he hz hs.ne_zero False.elim).mono
      fun r d' ⟨hgrown, h1, n, hn, hvar, hchild⟩ => ⟨hgrown, hvar ▸ ?_⟩
    exact .node false h1 hn (index_of_signed (hchild false)) (index_of_signed (hchild true))
      (hs.extends hgrown.extend)
  · refine (node_of_ne hd hv.1 hv.2 hz he hs.ne_zero.symm False.elim).mono
      fun r d' ⟨hgrown, h1, n, hn, hvar, hchild⟩ => ⟨hgrown, hvar ▸ ?_⟩
    exact .node true h1 hn (index_of_signed (hchild true)) (index_of_signed (hchild false))
      (hs.extends hgrown.extend)

theorem foldlM_addLiteral_stacked (hd : Sound False d) (he : d.Stored e) (hs : Stacked d e vs)
    (h0 : ∀ lit ∈ lits, lit ≠ 0) : EnsuresFit (lits.foldlM addLiteral e) d fun r d' =>
      Grown False d r d' ∧ Stacked d' r ((lits.map literalVar).reverse ++ vs) := by
  induction lits generalizing d e vs with
  | nil => exact EnsuresFit.pure ⟨.refl hd he, hs⟩
  | cons lit lits ih =>
    rw [List.forall_mem_cons] at h0
    rw [List.foldlM_cons]
    refine (addLiteral_stacked hd he hs h0.1).bind (grows_foldlM grows_addLiteral lits)
      fun e₁ d₁ ⟨hgrown₁, hs₁⟩ => (ih hgrown₁.sound hgrown₁.stored hs₁ h0.2).mono
        fun r d' ⟨hgrown, hs'⟩ => ⟨hgrown.after hgrown₁.extend, ?_⟩
    rwa [List.map_cons, List.reverse_cons, List.append_assoc]

/-- In a cube the variables of the literals are stacked in order, equal ones on top of each other. -/
theorem cube_stacked (hd : Sound False d) (h0 : ∀ lit ∈ lits, lit ≠ 0) :
    EnsuresFit (cube lits) d fun c d' => ∃ vs, Stacked d' c vs ∧ vs.Perm (lits.map literalVar) ∧
      vs.Pairwise (· ≤ ·) := by
  have hperm := List.mergeSort_perm lits fun a b => decide (literalVar b ≤ literalVar a)
  have hsorted : (lits.mergeSort fun a b => decide (literalVar b ≤ literalVar a)).Pairwise
      fun a b => literalVar b ≤ literalVar a := by
    refine (List.pairwise_mergeSort (fun a b c hab hbc => ?_) (fun a b => ?_) lits).imp of_decide_eq_true
    · exact decide_eq_true (UInt32.le_trans (of_decide_eq_true hbc) (of_decide_eq_true hab))
    · simpa using UInt32.le_total (literalVar b) (literalVar a)
  refine (foldlM_addLiteral_stacked hd hd.stored_one .one fun lit hlit =>
    h0 lit (hperm.mem_iff.1 hlit)).mono fun c d' ⟨_, hs⟩ => ⟨_, hs, ?_, ?_⟩
  · rw [List.append_nil]
    exact (List.reverse_perm _).trans (hperm.map literalVar)
  · rw [List.append_nil, List.pairwise_reverse, List.pairwise_map]
    exact hsorted

/-! ## Conjunctions -/

/-- The edge of a literal: that of its variable, or the complement. -/
def literalEdge (lit : Int32) : Action Manager Edge := do
  let x ← var (literalVar lit)
  pure (if lit < 0 then -x else x)

/-- The conjunction of the edges of literals. -/
def conjunction (lits : List Int32) : Action Manager Edge := do
  let fs ← lits.mapM literalEdge
  andMany fs

@[simp] theorem grows_literalEdge (lit : Int32) : Grows (literalEdge lit) :=
  grows_bind (grows_node _ _ _) fun _ => grows_pure _

@[simp] theorem grows_mapM_literalEdge (lits : List Int32) : Grows (lits.mapM literalEdge) := by
  induction lits with
  | nil => exact grows_pure _
  | cons lit lits ih =>
    rw [List.mapM_cons]
    exact grows_bind (grows_literalEdge lit) fun _ => grows_bind ih fun _ => grows_pure _

@[simp] theorem grows_conjunction (lits : List Int32) : Grows (conjunction lits) :=
  grows_bind (grows_mapM_literalEdge lits) grows_andMany

theorem literalEdge_spec (hd : Sound ordered d) (h0 : lit ≠ 0) :
    EnsuresFit (literalEdge lit) d fun f d' => Grown ordered d f d' ∧ d'.Tidy f ∧
      ∀ a, d'.value a f = literalHolds a lit := by
  have hv := inOrder_literalVar h0
  refine (var_spec hd hv.1 hv.2).bind (fun _ => grows_pure _) fun x d' ⟨hgrown, hval, ho⟩ =>
    EnsuresFit.pure ?_
  have ho := ho.anti (Nat.zero_le _)
  unfold literalHolds
  split
  · refine ⟨hgrown.neg, ⟨hgrown.stored.neg, ho.neg⟩, fun a => ?_⟩
    rw [value_neg hgrown.sound.toShaped hgrown.stored, hval]
  · exact ⟨hgrown, ⟨hgrown.stored, ho⟩, hval⟩

theorem mapM_literalEdge_spec (hd : Sound ordered d) (h0 : ∀ lit ∈ lits, lit ≠ 0) :
    EnsuresFit (lits.mapM literalEdge) d fun fs d' => Sound ordered d' ∧ Extends d d' ∧
      (∀ f ∈ fs, d'.Tidy f) ∧ ∀ a, fs.all (d'.value a) = lits.all (literalHolds a) := by
  induction lits generalizing d with
  | nil => exact EnsuresFit.pure ⟨hd, .refl d, by simp, fun _ => rfl⟩
  | cons lit lits ih =>
    rw [List.forall_mem_cons] at h0
    rw [List.mapM_cons]
    refine (literalEdge_spec hd h0.1).bind (fun _ => grows_bind (grows_mapM_literalEdge lits) fun _ =>
      grows_pure _) fun f d₁ ⟨hgrown₁, hf, hval₁⟩ => ?_
    refine (ih hgrown₁.sound h0.2).bind (fun _ => grows_pure _) fun fs d₂ ⟨hd₂, hx₂, hfs, hval₂⟩ =>
      EnsuresFit.pure ⟨hd₂, hgrown₁.extend.trans hx₂, ?_, fun a => ?_⟩
    · exact List.forall_mem_cons.2 ⟨hf.extends hgrown₁.sound.toShaped hx₂, hfs⟩
    · rw [List.all_cons, List.all_cons, hval₂,
        value_extends hf.stored hgrown₁.sound.toShaped hd₂.toShaped hx₂, hval₁]

/-- The conjunction of edges in order is in order. -/
theorem andMany_tidy {fs : List Edge} (hd : Sound ordered d) (hs : ∀ f ∈ fs, d.Tidy f) :
    EnsuresFit (andMany fs) d fun r d' => Grown ordered d r d' ∧ d'.Tidy r ∧
      ∀ a, d'.value a r = fs.all (d.value a) := by
  have h0 := hd.toShaped
  refine (foldlM_spec (m := fun a f => d.value a f) True grows_and hd h0.stored_one
    fun d₁ e f hf hx hd₁ he => ?_).mono fun r d' ⟨hgrown, hval, ho⟩ =>
      ⟨hgrown, ⟨hgrown.stored, ho trivial (ordered_one d 0)⟩, fun a => ?_⟩
  · have hf₁ := (hs f hf).extends h0 hx
    refine (and_spec hd₁ he hf₁.stored).mono fun r d₂ ⟨hgrown, hval, ho⟩ =>
      ⟨hgrown, fun a => ?_, fun _ hoe => ho 0 hoe hf₁.ordered⟩
    rw [hval, value_extends (hs f hf).stored h0 hd₁.toShaped hx]
  · rw [hval, value_one, Bool.true_and]

theorem conjunction_spec (hd : Sound ordered d) (h0 : ∀ lit ∈ lits, lit ≠ 0) :
    EnsuresFit (conjunction lits) d fun r d' => Grown ordered d r d' ∧ d'.Tidy r ∧
      ∀ a, d'.value a r = lits.all (literalHolds a) := by
  refine (mapM_literalEdge_spec hd h0).bind grows_andMany fun fs d₁ ⟨hd₁, hx₁, hfs, hval₁⟩ =>
    (andMany_tidy hd₁ hfs).mono fun r d' ⟨hgrown, hr, hval⟩ => ⟨hgrown.after hx₁, hr, fun a => ?_⟩
  rw [hval, hval₁]

/-! ## Cubes and conjunctions -/

/-- Literals can all be true if and only if no two of them are opposite. -/
theorem forall_all_eq_false_iff (h0 : ∀ lit ∈ lits, lit ≠ 0) :
    (∀ a, lits.all (literalHolds a) = false) ↔
      ∃ l ∈ lits, ∃ m ∈ lits, m.toInt = -l.toInt := by
  constructor
  · intro hfalse
    -- variables are true if a literal asks for it
    have hall := hfalse fun v => decide (∃ l ∈ lits, ¬l < 0 ∧ literalVar l = v)
    obtain ⟨l, hl, hlfalse⟩ := List.all_eq_false.1 hall
    rw [literalHolds_iff] at hlfalse
    by_cases hneg : l < 0
    · rw [decide_eq_true hneg, Bool.not_true, decide_eq_false_iff_not, not_not] at hlfalse
      obtain ⟨m, hm, hmpos, hvar⟩ := hlfalse
      rw [← UInt32.toNat_inj, toNat_literalVar, toNat_literalVar] at hvar
      rw [Int32.lt_iff_toInt_lt, Int32.toInt_zero] at hneg hmpos
      exact ⟨l, hl, m, hm, by omega⟩
    · rw [decide_eq_false hneg, Bool.not_false, decide_eq_true_iff] at hlfalse
      exact absurd ⟨l, hl, hneg, rfl⟩ hlfalse
  · rintro ⟨l, hl, m, hm, hopp⟩ a
    rw [List.all_eq_false]
    have hvar : literalVar m = literalVar l := by
      rw [← UInt32.toNat_inj, toNat_literalVar, toNat_literalVar, hopp, Int.natAbs_neg]
    have hl0 : l.toInt ≠ 0 := fun h => h0 l hl (Int32.toInt_inj.1 h)
    have hsign : m < 0 ↔ ¬l < 0 := by
      rw [Int32.lt_iff_toInt_lt, Int32.lt_iff_toInt_lt, Int32.toInt_zero]
      omega
    by_cases hlit : literalHolds a l = true
    · refine ⟨m, hm, ?_⟩
      rw [literalHolds_iff] at hlit ⊢
      rw [hvar, hlit, decide_eq_decide.2 hsign, decide_not]
      exact Bool.self_ne_not _
    · exact ⟨l, hl, hlit⟩

/-- How a cube and the conjunction of the same literals compare. -/
structure CubeOf (d : Manager) (lits : List Int32) (c r : Edge) : Prop where
  eval_eq : ∀ a, d.eval a c = d.eval a r
  /-- They are the same edge if and only if no variable is repeated. -/
  eq_iff : c = r ↔ (lits.map literalVar).Nodup
  /-- The conjunction of opposite literals is the constant false, and no other one is. -/
  zero_iff : r = .zero ↔ ∃ l ∈ lits, ∃ m ∈ lits, m.toInt = -l.toInt
  ne_zero : c ≠ .zero

theorem Stacked.cubeOf (hd : Shaped ordered d) (h0 : ∀ lit ∈ lits, lit ≠ 0) (hc : d.Stored c)
    (hs : Stacked d c vs) (hperm : vs.Perm (lits.map literalVar)) (hle : vs.Pairwise (· ≤ ·))
    (hcval : ∀ a, d.value a c = lits.all (literalHolds a)) (hr : d.Tidy r)
    (hrval : ∀ a, d.value a r = lits.all (literalHolds a)) : CubeOf d lits c r where
  eval_eq a := by rw [eval_eq hd a hc, eval_eq hd a hr.stored, hcval, hrval]
  eq_iff := by
    rw [← hperm.nodup_iff]
    constructor
    · rintro rfl
      exact (hs.ordered_iff.1 hr.ordered).1.imp UInt32.ne_of_lt
    · intro hnodup
      have hlt : vs.Pairwise (· < ·) := (hle.and hnodup).imp fun h => UInt32.lt_of_le_of_ne h.1 h.2
      have htidy : d.Tidy c := ⟨hc, hs.ordered_iff.2 ⟨hlt, fun _ _ => Nat.zero_le _⟩⟩
      exact htidy.eq_of_value_eq hd hr fun a => (hcval a).trans (hrval a).symm
  zero_iff := by
    rw [← forall_all_eq_false_iff h0]
    refine ⟨fun hzero a => ?_, fun hfalse => hr.eq_of_value_eq hd hd.tidy_zero fun a => ?_⟩
    · rw [← hrval, hzero, value_zero]
    · rw [hrval, hfalse, value_zero]
  ne_zero := hs.ne_zero

/-- A cube and the conjunction of its literals have the same function, whichever is made first. They are
the same edge if and only if the variables of the literals are different. -/
theorem cube_eq_conjunction_iff (h : Reached Call.Admissible d es) (h0 : ∀ lit ∈ lits, lit ≠ 0) :
    EnsuresFit (do let c ← cube lits; let r ← conjunction lits; pure (c, r)) d
        (fun p d' => CubeOf d' lits p.1 p.2) ∧
      EnsuresFit (do let r ← conjunction lits; let c ← cube lits; pure (c, r)) d
        fun p d' => CubeOf d' lits p.1 p.2 := by
  obtain ⟨hd, -⟩ : Sound False d ∧ ∀ e ∈ es, d.Stored e := h.sound (fun _ => id) False.elim
  have hcube : ∀ {d}, Sound False d → EnsuresFit (cube lits) d fun c d' => Grown False d c d' ∧
      (∀ a, d'.value a c = lits.all (literalHolds a)) ∧ ∃ vs, Stacked d' c vs ∧
        vs.Perm (lits.map literalVar) ∧ vs.Pairwise (· ≤ ·) := by
    intro d hd hfit
    obtain ⟨c, d₁, hrun, hgrown, hval⟩ := cube_spec not_false hd h0 hfit
    obtain ⟨c', d₁', hrun', hstacked⟩ := cube_stacked hd h0 hfit
    cases hrun.symm.trans hrun'
    exact ⟨c, d₁, hrun, hgrown, hval, hstacked⟩
  constructor
  · refine (hcube hd).bind (fun _ => grows_bind (grows_conjunction lits) fun _ => grows_pure _)
      fun c d₁ ⟨hgrown₁, hcval, vs, hs, hperm, hle⟩ => ?_
    refine (conjunction_spec hgrown₁.sound h0).bind (fun _ => grows_pure _)
      fun r d₂ ⟨hgrown₂, hr, hrval⟩ => EnsuresFit.pure ?_
    have h₁ := hgrown₁.sound.toShaped
    have h₂ := hgrown₂.sound.toShaped
    refine (hs.extends hgrown₂.extend).cubeOf h₂ h0 (hgrown₁.stored.mono h₁ hgrown₂.extend) hperm hle
      (fun a => ?_) hr hrval
    rw [value_extends hgrown₁.stored h₁ h₂ hgrown₂.extend, hcval]
  · refine (conjunction_spec hd h0).bind (fun _ => grows_bind (grows_cube lits) fun _ => grows_pure _)
      fun r d₁ ⟨hgrown₁, hr, hrval⟩ => ?_
    refine (hcube hgrown₁.sound).bind (fun _ => grows_pure _)
      fun c d₂ ⟨hgrown₂, hcval, vs, hs, hperm, hle⟩ => EnsuresFit.pure ?_
    have h₁ := hgrown₁.sound.toShaped
    have h₂ := hgrown₂.sound.toShaped
    refine hs.cubeOf h₂ h0 hgrown₂.stored hperm hle hcval (hr.extends h₁ hgrown₂.extend) fun a => ?_
    rw [value_extends hr.stored h₁ h₂ hgrown₂.extend, hrval]

/-- The variable 2 is repeated, so the cube is another edge than the conjunction. -/
theorem cube_eq_conjunction_iff_repeated : ∃ d c r d',
    Reached Call.Admissible d [.one, .zero] ∧ (∀ lit ∈ ([2, -1, 2] : List Int32), lit ≠ 0) ∧
    (do let c ← cube [2, -1, 2]; let r ← conjunction [2, -1, 2]; pure (c, r)) d = .ok (c, r) d' ∧
    c ≠ r ∧ r ≠ .zero := by
  obtain ⟨d, hd, hfit⟩ := exists_ok_of_any (x := create 4) (p := fun d => decide
    (Fits ((do let c ← cube [2, -1, 2]; let r ← conjunction [2, -1, 2]; pure (c, r) :
      Action Manager (Edge × Edge)).after d))) (by cbv)
  have hnew : Reached Call.Admissible d [.one, .zero] := ⟨4, d, hd, .nil⟩
  have hlits : ∀ lit ∈ ([2, -1, 2] : List Int32), lit ≠ 0 := by simp
  obtain ⟨⟨c, r⟩, d', hrun, h⟩ := (cube_eq_conjunction_iff hnew hlits).1 (of_decide_eq_true hfit)
  exact ⟨d, c, r, d', hnew, hlits, hrun, mt h.eq_iff.1 (by decide), mt h.zero_iff.1 (by decide)⟩

/-- A variable and its complement: the conjunction is the constant false, but the cube is not. -/
theorem cube_of_opposites : ∃ d c r d', create 4 = .ok d ∧
    (do let x ← var 1; let c ← cube [1, -1]; let r ← andMany [x, -x]; pure (c, r) :
      Action Manager (Edge × Edge)) d = .ok (c, r) d' ∧ r = .zero ∧ c ≠ r := by
  obtain ⟨d, hd, hrun⟩ := exists_ok_of_any (x := create 4)
    (p := fun d => ((do let x ← var 1; let c ← cube [1, -1]; let r ← andMany [x, -x]; pure (c, r) :
      Action Manager (Edge × Edge)).outcome d).1.toOption.any fun p => p.2 = .zero ∧ p.1 ≠ p.2) (by cbv)
  obtain ⟨⟨c, r⟩, d', hrun, hedges⟩ := exists_ok_of_outcome hrun
  obtain ⟨hr, hc⟩ := of_decide_eq_true hedges
  exact ⟨d, c, r, d', hd, hrun, hr, hc⟩

end StateSpace.Manager
