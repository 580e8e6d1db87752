import StateSpace.Proofs.Expr.Timed

/-!
# Guards without their clocks

The truth of a guard is found by an evaluator of its own: conjunctions, disjunctions and negations are
taken apart, and what is left is unknown if it mentions a clock. It is sound: where a guard has a value
under some assignment to the clocks, the guard may hold if the value is true, and its negation may hold
if the value is false. It is exact where no clock is mentioned: then it tells the value of the
expression, or why there is none.
-/

namespace StateSpace

variable {row : List Int32} {clocks : Nat → Int64} {e : Expr} {v : Int64}

/-! ## Known truth values -/

namespace Truth

theorem not_ofBool (v : Int64) : (ofBool (v ≠ 0)).not = ofBool (UnaryOp.not.apply v ≠ 0) := by
  by_cases h : v = 0
  · simp [h, ofBool, Truth.not, UnaryOp.apply, truthValue]
  · simp [h, ofBool, Truth.not, UnaryOp.apply, truthValue]

theorem and_ofBool (v v' : Int64) :
    (ofBool (v ≠ 0)).and (ofBool (v' ≠ 0)) = ofBool (truthValue (v ≠ 0 ∧ v' ≠ 0) ≠ 0) := by
  by_cases h : v = 0 <;> by_cases h' : v' = 0 <;> simp [h, h', ofBool, Truth.and, truthValue]

theorem or_ofBool (v v' : Int64) :
    (ofBool (v ≠ 0)).or (ofBool (v' ≠ 0)) = ofBool (truthValue (v ≠ 0 ∨ v' ≠ 0) ≠ 0) := by
  by_cases h : v = 0 <;> by_cases h' : v' = 0 <;> simp [h, h', ofBool, Truth.or, truthValue]

theorem ofBool_ne_no (b : Bool) : decide (ofBool b ≠ no) = b := by
  cases b <;> rfl

end Truth

namespace Expr

/-! ## Without clocks -/

theorem leafTruth_eq (h : e.mentionsClock = false) :
    e.leafTruth row = (e.eval row).map fun v => .ofBool (v ≠ 0) := by
  unfold leafTruth
  rw [if_neg (by rw [h]; exact Bool.false_ne_true)]
  cases e.eval row <;> rfl

/-- A connective of two values tells its truth from theirs; without either value both sides fail for the
same reason, since both go through the operands from left to right. -/
theorem truth_both {x y : Except EvalError Int64} {op : BinaryOp} {f : Truth → Truth → Truth}
    (hop : ∀ a b : Int64, ((op.apply a b).map fun v => Truth.ofBool (v ≠ 0)) =
      .ok (f (.ofBool (a ≠ 0)) (.ofBool (b ≠ 0)))) :
    (do
      let a ← x.map fun v => Truth.ofBool (v ≠ 0)
      let b ← y.map fun v => Truth.ofBool (v ≠ 0)
      .ok (f a b)) =
      (do
        let a ← x
        let b ← y
        op.apply a b).map fun v => Truth.ofBool (v ≠ 0) := by
  cases x with
  | error err => rfl
  | ok a =>
    cases y with
    | error err => rfl
    | ok b => exact (hop a b).symm

/-- Both evaluators fail for the same reason. -/
theorem truth_eq (h : e.mentionsClock = false) :
    e.truth row = (e.eval row).map fun v => .ofBool (v ≠ 0) := by
  have hbinary : ∀ (op : BinaryOp) (l r : Expr), (binary op l r).eval row = (do
      let a ← l.eval row
      let b ← r.eval row
      op.apply a b) := fun _ _ _ => rfl
  fun_induction truth row e with
  | case1 l r ihl ihr =>
    obtain ⟨hl, hr⟩ := Bool.or_eq_false_iff.1 h
    rw [ihl hl, ihr hr, hbinary]
    exact truth_both fun a b => congrArg Except.ok (Truth.and_ofBool a b).symm
  | case2 l r ihl ihr =>
    obtain ⟨hl, hr⟩ := Bool.or_eq_false_iff.1 h
    rw [ihl hl, ihr hr, hbinary]
    exact truth_both fun a b => congrArg Except.ok (Truth.or_ofBool a b).symm
  | case3 e ih =>
    rw [ih h, show (unary .not e).eval row = (do
      let a ← e.eval row
      .ok (UnaryOp.not.apply a)) from rfl]
    cases e.eval row with
    | error err => rfl
    | ok a => exact congrArg Except.ok (Truth.not_ofBool a)
  | case4 e => exact leafTruth_eq h

/-- A guard without clocks holds if its value is not zero. -/
theorem holds_eq (h : e.mentionsClock = false) :
    e.holds row = (e.eval row).map fun v => decide (v ≠ 0) := by
  unfold holds
  rw [truth_eq h]
  cases e.eval row with
  | error err => rfl
  | ok v => exact congrArg Except.ok (Truth.ofBool_ne_no _)

/-! ## With clocks -/

/-- If a guard is false under some assignment to the clocks, its negation is not definitely false. -/
theorem not_holds_of_timed (h : e.evalIn (.timed row clocks) = .ok 0) :
    (unary .not e).holds row = .ok true :=
  holds_of_timed (v := UnaryOp.not.apply 0) (except_bind_eq_ok.2 ⟨0, h, rfl⟩) (by decide)

/-- On every row, and under every assignment to the clocks: a guard that has a value there is not
reported as failed, and may hold if that value is true, as its negation may if it is false. A guard
without clocks holds exactly if it has a value and that is true; it fails exactly if it has none, for
the same reason. -/
theorem holds_abstracts (row : List Int32) (e : Expr) :
    (∀ (clocks : Nat → Int64) (v : Int64), e.evalIn (.timed row clocks) = .ok v →
      (v ≠ 0 → e.holds row = .ok true) ∧
      (v = 0 → (unary .not e).holds row = .ok true)) ∧
    (e.mentionsClock = false →
      (∀ b, e.holds row = .ok b ↔ ∃ v, e.eval row = .ok v ∧ b = decide (v ≠ 0)) ∧
      ∀ err, e.holds row = .error err ↔ e.eval row = .error err) := by
  refine ⟨fun clocks v h => ⟨holds_of_timed h, ?_⟩, fun hfree => ?_⟩
  · rintro rfl
    exact not_holds_of_timed h
  · rw [holds_eq hfree]
    cases e.eval row with
    | ok v => simp [Except.map, eq_comm]
    | error err => simp [Except.map]

/-- The guard `x < 3 && v == 1` has both values where `v` is 1, as the clock is 2 or 5; so it may hold,
and so may its negation. Without its clock, `v / 0 == 1` has no value. -/
theorem holds_abstracts_either :
    (binary .and (binary .lt (clock 0) (const 3)) (binary .eq (int 0) (const 1))).holds [1] =
      .ok true ∧
    (unary .not
      (binary .and (binary .lt (clock 0) (const 3)) (binary .eq (int 0) (const 1)))).holds [1] =
      .ok true ∧
    (binary .eq (binary .div (int 0) (const 0)) (const 1)).holds [1] = .error .divisionByZero :=
  ⟨((holds_abstracts [1] _).1 (fun _ => 2) 1 (by decide)).1 (by decide),
    ((holds_abstracts [1] _).1 (fun _ => 5) 0 (by decide)).2 rfl,
    (((holds_abstracts [1] _).2 (by decide)).2 .divisionByZero).2 (by decide)⟩

end Expr

end StateSpace
