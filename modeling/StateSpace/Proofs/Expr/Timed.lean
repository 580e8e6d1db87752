import StateSpace.Proofs.Expr.Scope

/-!
# Expressions with clock values

An expression has a value for each assignment of values to the clocks. The truth of a guard whose
clocks are abstracted describes all these values: where it is definite, so is the value. An expression
without clocks has the same value under every assignment, and one with a clock has none without it.
-/

namespace StateSpace

variable {row : List Int32} {clocks : Nat → Int64} {e : Expr} {v : Int64}

/-- The environment of a row of variable values with values of the clocks. -/
def Environment.timed (row : List Int32) (clocks : Nat → Int64) : Environment where
  int := (Environment.ofRow row).int
  clock id := .ok (clocks id)

/-! ## Truth values -/

namespace Truth

/-- The truth value is right about a value: what is definite agrees with it. -/
def Describes : Truth → Int64 → Prop
  | no, v => v = 0
  | yes, v => v ≠ 0
  | unknown, _ => True

theorem describes_ofBool (v : Int64) : (ofBool (v ≠ 0)).Describes v := by
  by_cases h : v = 0
  · simp [h, ofBool, Describes]
  · simp [h, ofBool, Describes]

theorem truthValue_eq_zero_iff {b : Bool} : truthValue b = 0 ↔ b = false := by
  cases b <;> decide

theorem Describes.not {t : Truth} (h : t.Describes v) : t.not.Describes (UnaryOp.not.apply v) := by
  unfold UnaryOp.apply
  cases t with
  | no => simpa [Truth.not, Describes, truthValue_eq_zero_iff] using h
  | yes => simpa [Truth.not, Describes, truthValue_eq_zero_iff] using h
  | unknown => trivial

theorem Describes.and {t t' : Truth} {v' : Int64} (h : t.Describes v) (h' : t'.Describes v') :
    (t.and t').Describes (truthValue (v ≠ 0 ∧ v' ≠ 0)) := by
  cases t <;> cases t' <;> simp_all [Truth.and, Describes, truthValue_eq_zero_iff]

theorem Describes.or {t t' : Truth} {v' : Int64} (h : t.Describes v) (h' : t'.Describes v') :
    (t.or t').Describes (truthValue (v ≠ 0 ∨ v' ≠ 0)) := by
  cases t <;> cases t' <;> simp_all [Truth.or, Describes, truthValue_eq_zero_iff]

end Truth

namespace Expr

/-! ## Expressions with and without clocks -/

theorem evalIn_timed (h : e.mentionsClock = false) (clocks : Nat → Int64) :
    e.evalIn (.timed row clocks) = e.eval row := by
  unfold eval
  induction e with
  | const n => rfl
  | int id => rfl
  | clock id => cases h
  | unary op e ih => rw [evalIn, evalIn, ih h]
  | binary op l r ihl ihr =>
    obtain ⟨hl, hr⟩ := Bool.or_eq_false_iff.1 h
    rw [evalIn, evalIn, ihl hl, ihr hr]

/-- What mentions a clock has no value without clock values. -/
theorem eval_ne_ok (h : e.mentionsClock = true) : e.eval row ≠ .ok v := by
  unfold eval
  induction e generalizing v with
  | const n => cases h
  | int id => cases h
  | clock id =>
    intro heq
    cases heq
  | unary op e ih =>
    intro heq
    obtain ⟨a, ha, -⟩ := except_bind_eq_ok.1 heq
    exact ih h ha
  | binary op l r ihl ihr =>
    intro heq
    obtain ⟨a, ha, heq⟩ := except_bind_eq_ok.1 heq
    obtain ⟨b, hb, -⟩ := except_bind_eq_ok.1 heq
    rcases Bool.or_eq_true_iff.1 h with h | h
    · exact ihl h ha
    · exact ihr h hb

/-! ## Guards -/

theorem leafTruth_describes (h : e.evalIn (.timed row clocks) = .ok v) :
    ∃ t, e.leafTruth row = .ok t ∧ t.Describes v := by
  unfold leafTruth
  split
  · exact ⟨.unknown, rfl, trivial⟩
  · rename_i hfree
    rw [evalIn_timed (Bool.not_eq_true _ ▸ hfree)] at h
    exact ⟨_, except_bind_eq_ok.2 ⟨v, h, rfl⟩, Truth.describes_ofBool v⟩

/-- If a guard has a value under some assignment to the clocks, its abstract truth describes it. -/
theorem truth_describes (h : e.evalIn (.timed row clocks) = .ok v) :
    ∃ t, e.truth row = .ok t ∧ t.Describes v := by
  fun_induction truth row e generalizing v with
  | case1 l r ihl ihr =>
    obtain ⟨a, ha, h⟩ := except_bind_eq_ok.1 h
    obtain ⟨b, hb, h⟩ := except_bind_eq_ok.1 h
    cases h
    obtain ⟨t, ht, hta⟩ := ihl ha
    obtain ⟨t', ht', htb⟩ := ihr hb
    exact ⟨t.and t', by rw [ht, ht']; rfl, hta.and htb⟩
  | case2 l r ihl ihr =>
    obtain ⟨a, ha, h⟩ := except_bind_eq_ok.1 h
    obtain ⟨b, hb, h⟩ := except_bind_eq_ok.1 h
    cases h
    obtain ⟨t, ht, hta⟩ := ihl ha
    obtain ⟨t', ht', htb⟩ := ihr hb
    exact ⟨t.or t', by rw [ht, ht']; rfl, hta.or htb⟩
  | case3 e ih =>
    obtain ⟨a, ha, h⟩ := except_bind_eq_ok.1 h
    cases h
    obtain ⟨t, ht, hta⟩ := ih ha
    exact ⟨t.not, by rw [ht]; rfl, hta.not⟩
  | case4 e => exact leafTruth_describes h

/-- A guard that holds under some assignment to the clocks is not definitely false. -/
theorem holds_of_timed (h : e.evalIn (.timed row clocks) = .ok v) (hv : v ≠ 0) :
    e.holds row = .ok true := by
  obtain ⟨t, ht, hdesc⟩ := truth_describes h
  have hne : t ≠ .no := by
    rintro rfl
    exact hv hdesc
  refine except_bind_eq_ok.2 ⟨t, ht, ?_⟩
  simp [hne]

end Expr

end StateSpace
