import StateSpace.Proofs.Expr.Reading
import StateSpace.Step

/-!
# Scopes of expressions

An expression is in scope if its variables and clocks are numbered below given bounds. What the parser
reads is in the scope of its resolver, and an expression in scope never reads past the end of a row
that has a value for every variable.
-/

namespace StateSpace

variable {ints clocks : Nat} {row : List Int32} {e : Expr}

/-- All variables and clocks are numbered below the bounds. -/
def Expr.Within (ints clocks : Nat) : Expr → Prop
  | .const _ => True
  | .int id => id < ints
  | .clock id => id < clocks
  | .unary _ e => e.Within ints clocks
  | .binary _ l r => l.Within ints clocks ∧ r.Within ints clocks

/-- The target and the value of an assignment are numbered below the bounds. -/
def Update.Within (ints clocks : Nat) : Update → Prop
  | .int id e => id < ints ∧ e.Within ints clocks
  | .clock id e => id < clocks ∧ e.Within ints clocks

/-- A resolver answers with numbers below the bounds. -/
structure Resolves (ints clocks : Nat) (resolve : String → Option Symbol) : Prop where
  int : ∀ name id, resolve name = some (.int id) → id < ints
  clock : ∀ name id, resolve name = some (.clock id) → id < clocks

theorem Expr.Within.mono {ints' clocks' : Nat} (h : e.Within ints clocks) (hi : ints ≤ ints')
    (hc : clocks ≤ clocks') : e.Within ints' clocks' := by
  induction e with
  | const _ => trivial
  | int id => exact Nat.lt_of_lt_of_le h hi
  | clock id => exact Nat.lt_of_lt_of_le h hc
  | unary _ e ih => exact ih h
  | binary _ l r ihl ihr => exact ⟨ihl h.1, ihr h.2⟩

theorem Update.Within.mono {u : Update} {ints' clocks' : Nat} (h : u.Within ints clocks)
    (hi : ints ≤ ints') (hc : clocks ≤ clocks') : u.Within ints' clocks' := by
  cases u with
  | int id e => exact ⟨Nat.lt_of_lt_of_le h.1 hi, h.2.mono hi hc⟩
  | clock id e => exact ⟨Nat.lt_of_lt_of_le h.1 hc, h.2.mono hi hc⟩

/-! ## Reading -/

variable {resolve : String → Option Symbol} {text : List Char}

theorem Resolves.closed (hr : Resolves ints clocks resolve) :
    Parser.Closed resolve (Expr.Within ints clocks) where
  const _ _ := trivial
  int := hr.int
  clock := hr.clock
  unary _ _ he := he
  binary _ _ _ hl hr := ⟨hl, hr⟩

theorem Expr.parse_within (hr : Resolves ints clocks resolve) (h : Expr.parse resolve text = .ok e) :
    e.Within ints clocks :=
  Expr.parse_induct hr.closed h

theorem Update.parse_within {u : Update} (hr : Resolves ints clocks resolve)
    (h : Update.parse resolve text = .ok u) : u.Within ints clocks := by
  obtain ⟨name, _, e, he, ⟨id, hres, rfl⟩ | ⟨id, hres, rfl⟩⟩ := Update.parse_cases h
  · exact ⟨hr.int _ _ hres, Expr.parse_within hr he⟩
  · exact ⟨hr.clock _ _ hres, Expr.parse_within hr he⟩

theorem Update.parseAll_within {us : List Update} (hr : Resolves ints clocks resolve)
    (h : Update.parseAll resolve text = .ok us) : ∀ u ∈ us, u.Within ints clocks := by
  intro u hu
  obtain ⟨part, -, hp⟩ := mem_of_mapM_eq_ok h hu
  exact Update.parse_within hr hp

/-! ## Evaluating -/

/-- Nothing past the end of a row was asked for. -/
def Bounded {α : Type} (r : Except EvalError α) : Prop := ∀ id, r ≠ .error (.unbound id)

theorem Bounded.ok {α : Type} (a : α) : Bounded (.ok a) := fun _ h => by cases h

theorem Bounded.bind {α β : Type} {x : Except EvalError α} {f : α → Except EvalError β}
    (hx : Bounded x) (hf : ∀ a, Bounded (f a)) : Bounded (x >>= f) := by
  cases x with
  | error e =>
    intro id h
    exact hx id (by cases h; rfl)
  | ok a => exact hf a

theorem BinaryOp.apply_bounded (op : BinaryOp) (a b : Int64) : Bounded (op.apply a b) := by
  intro id h
  unfold BinaryOp.apply at h
  split at h <;> first | cases h | (split at h <;> cases h)

namespace Expr

theorem eval_bounded (h : e.Within row.length clocks) : Bounded (e.eval row) := by
  unfold eval
  induction e with
  | const n => exact .ok n
  | int id =>
    obtain ⟨v, hv⟩ : ∃ v, row[id]? = some v := ⟨_, List.getElem?_eq_getElem h⟩
    have hread : evalIn (.ofRow row) (.int id) = .ok v.toInt64 := by
      simp only [evalIn, Environment.ofRow, hv]
    exact hread ▸ .ok _
  | clock id =>
    intro id h
    cases h
  | unary op e ih => exact (ih h).bind fun a => .ok _
  | binary op l r ihl ihr => exact (ihl h.1).bind fun a => (ihr h.2).bind (op.apply_bounded a)

theorem leafTruth_bounded (h : e.Within row.length clocks) : Bounded (e.leafTruth row) := by
  unfold leafTruth
  split
  · exact .ok _
  · exact (eval_bounded h).bind fun a => .ok _

theorem truth_bounded (h : e.Within row.length clocks) : Bounded (e.truth row) := by
  fun_induction truth row e with
  | case1 l r ihl ihr => exact (ihl h.1).bind fun a => (ihr h.2).bind fun b => .ok _
  | case2 l r ihl ihr => exact (ihl h.1).bind fun a => (ihr h.2).bind fun b => .ok _
  | case3 e ih => exact (ih h).bind fun a => .ok _
  | case4 e => exact leafTruth_bounded h

/-- An expression in scope has a value or none. -/
theorem exists_value? (h : e.Within row.length clocks) : ∃ v, e.value? row = .ok v := by
  have hb := eval_bounded h
  unfold value?
  cases hr : e.eval row with
  | ok v => exact ⟨_, rfl⟩
  | error err =>
    cases err with
    | unbound id => exact absurd hr (hb id)
    | divisionByZero => exact ⟨_, rfl⟩
    | clockValue => exact ⟨_, rfl⟩

/-- A guard in scope may hold or not. -/
theorem exists_allows (h : e.Within row.length clocks) : ∃ b, e.allows row = .ok b := by
  have hb : Bounded (e.holds row) := (truth_bounded h).bind fun a => .ok _
  unfold allows
  cases hr : e.holds row with
  | ok v => exact ⟨_, rfl⟩
  | error err =>
    cases err with
    | unbound id => exact absurd hr (hb id)
    | divisionByZero => exact ⟨_, rfl⟩
    | clockValue => exact ⟨_, rfl⟩

theorem exists_allAllow {es : List Expr} (h : ∀ e ∈ es, e.Within row.length clocks) :
    ∃ b, allAllow row es = .ok b := by
  induction es with
  | nil => exact ⟨true, rfl⟩
  | cons e es ih =>
    obtain ⟨b, hb⟩ := exists_allows (h e List.mem_cons_self)
    obtain ⟨b', hb'⟩ := ih fun e' he' => h e' (List.mem_cons_of_mem _ he')
    unfold allAllow
    rw [hb]
    cases b with
    | false => exact ⟨false, rfl⟩
    | true => exact ⟨b', hb'⟩

end Expr

end StateSpace
