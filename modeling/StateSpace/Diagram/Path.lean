import StateSpace.Diagram.Manager

/-!
# Walking a diagram

The value of a function under an assignment is read off by walking down from its edge. A walk that
prefers high branches finds a satisfying path; for a conjunction of literals that path lists exactly
these literals.
-/

namespace StateSpace.Manager

/-- The value of an edge under an assignment, found within `fuel` nodes. -/
def evalWithin (d : Manager) (a : UInt32 → Bool) : Nat → Edge → Except Fault Bool
  | 0, _ => .ok false
  | fuel + 1, e =>
    if e.isTerminal then .ok (e = .one)
    else do
      let v ← d.variableOf e
      let e ← if a v then d.high e else d.low e
      d.evalWithin a fuel e

/-- The value of an edge under an assignment. Children are stored before their parents, so a walk
is no longer than the index it starts from. -/
def eval (d : Manager) (a : UInt32 → Bool) (e : Edge) : Except Fault Bool :=
  d.evalWithin a (e.index + 1) e

/-- The values of an edge under all assignments to the variables from 1 to `n`. The assignment with
number `m` makes the variable `v` true when bit `v - 1` of `m` is set. -/
def truthTable (d : Manager) (e : Edge) (n : Nat) : Except Fault (List Bool) :=
  (List.range (1 <<< n)).mapM fun m =>
    d.eval (fun v => 1 ≤ v.toNat && v.toNat ≤ n && m.testBit (v.toNat - 1)) e

/-- The literals on the way from an edge to the constant true, found within `fuel` nodes. -/
def pathWithin (d : Manager) : Nat → Edge → Except Fault (List Int32)
  | 0, _ => .ok []
  | fuel + 1, e =>
    if e = .one then .ok []
    else do
      let v ← d.variableOf e
      let h ← d.high e
      if h = .zero then
        let l ← d.low e
        let rest ← d.pathWithin fuel l
        .ok (-v.toInt32 :: rest)
      else
        let rest ← d.pathWithin fuel h
        .ok (v.toInt32 :: rest)

/-- One satisfying path as signed literals, none for the constant false. -/
def satisfyingPath (d : Manager) (e : Edge) : Except Fault (Option (List Int32)) :=
  if e = .zero then .ok none else (d.pathWithin (e.index + 1) e).map some

end StateSpace.Manager
