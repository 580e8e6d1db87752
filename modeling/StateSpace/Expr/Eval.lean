import StateSpace.Expr.Basic

/-!
# Values of expressions

Arithmetic wraps at 64 bits and division truncates. Both operands are evaluated, the left one first.
`evalIn` reads variables and clocks from an environment; `eval` has no clock values. A guard holds
unless it is definitely false: a comparison that mentions a clock has an unknown truth value.
-/

namespace StateSpace

/-- Why an expression has no value. -/
inductive EvalError where
  | divisionByZero
  | clockValue
  /-- The row of values is too short for this variable. -/
  | unbound (id : Nat)
deriving DecidableEq, Repr

/-- The diagnostic of a failed evaluation; a row that is too short has none. -/
def EvalError.message? : EvalError → Option String
  | divisionByZero => some "division by zero"
  | clockValue => some "clock values are not available"
  | unbound _ => none

/-- A truth value as an integer. -/
def truthValue (b : Bool) : Int64 := if b then 1 else 0

namespace UnaryOp

/-- The value of an operator on its operand. -/
def apply : UnaryOp → Int64 → Int64
  | neg, a => -a
  | not, a => truthValue (a == 0)

end UnaryOp

namespace BinaryOp

/-- The value of an operator on its operands. -/
def apply (op : BinaryOp) (a b : Int64) : Except EvalError Int64 :=
  match op with
  | add => .ok (a + b)
  | sub => .ok (a - b)
  | mul => .ok (a * b)
  | div => if b = 0 then .error .divisionByZero else .ok (a / b)
  | mod => if b = 0 then .error .divisionByZero else .ok (a % b)
  | eq => .ok (truthValue (a = b))
  | ne => .ok (truthValue (a ≠ b))
  | lt => .ok (truthValue (a < b))
  | le => .ok (truthValue (a ≤ b))
  | gt => .ok (truthValue (b < a))
  | ge => .ok (truthValue (b ≤ a))
  | and => .ok (truthValue (a ≠ 0 ∧ b ≠ 0))
  | or => .ok (truthValue (a ≠ 0 ∨ b ≠ 0))

end BinaryOp

/-- Where the values of variables and clocks come from. -/
structure Environment where
  int : Nat → Except EvalError Int64
  clock : Nat → Except EvalError Int64

/-- The environment of a row of variable values, without clocks. -/
def Environment.ofRow (row : List Int32) : Environment where
  int id := match row[id]? with
    | some v => .ok v.toInt64
    | none => .error (.unbound id)
  clock _ := .error .clockValue

/-- The three truth values of a guard whose clocks are abstracted. -/
inductive Truth where
  | no
  | yes
  | unknown
deriving DecidableEq, Repr

namespace Truth

/-- A known truth value. -/
def ofBool (b : Bool) : Truth := if b then yes else no

/-- Negation. -/
def not : Truth → Truth
  | no => yes
  | yes => no
  | unknown => unknown

/-- Conjunction: false as soon as one side is. -/
def and : Truth → Truth → Truth
  | no, _ => no
  | _, no => no
  | yes, yes => yes
  | _, _ => unknown

/-- Disjunction: true as soon as one side is. -/
def or : Truth → Truth → Truth
  | yes, _ => yes
  | _, yes => yes
  | no, no => no
  | _, _ => unknown

end Truth

namespace Expr

/-- The value of an expression in an environment. -/
def evalIn (env : Environment) : Expr → Except EvalError Int64
  | const n => .ok n
  | int id => env.int id
  | clock id => env.clock id
  | unary op e => do
    let a ← e.evalIn env
    .ok (op.apply a)
  | binary op l r => do
    let a ← l.evalIn env
    let b ← r.evalIn env
    op.apply a b

/-- The value of an expression on a row of variable values. -/
def eval (row : List Int32) (e : Expr) : Except EvalError Int64 := e.evalIn (.ofRow row)

/-- The truth of an expression whose value is needed as it stands. -/
def leafTruth (row : List Int32) (e : Expr) : Except EvalError Truth :=
  if e.mentionsClock then .ok .unknown
  else do
    let a ← e.eval row
    .ok (.ofBool (a ≠ 0))

/-- The truth of a guard whose clock constraints are unknown. -/
def truth (row : List Int32) : Expr → Except EvalError Truth
  | binary .and l r => do
    let a ← l.truth row
    let b ← r.truth row
    .ok (a.and b)
  | binary .or l r => do
    let a ← l.truth row
    let b ← r.truth row
    .ok (a.or b)
  | unary .not e => do
    let a ← e.truth row
    .ok a.not
  | e => e.leafTruth row

/-- Whether a guard may hold: it is not definitely false. -/
def holds (row : List Int32) (e : Expr) : Except EvalError Bool := do
  let a ← e.truth row
  .ok (a ≠ .no)

end Expr

end StateSpace
