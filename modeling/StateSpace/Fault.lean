/-!
# Faults

A fault is a request that breaks the contract of an operation: a handle that was given back, a
variable that does not exist, an index past the end. Operations that can fault are actions on the
state they work on, so what was done before a fault stays done.
-/

namespace StateSpace

/-- The ways in which a request can break the contract of an operation. -/
inductive Fault where
  /-- Index 0 of a table is a sentry and holds no value. -/
  | zeroIndex
  /-- The cell at this index is not occupied. -/
  | vacant (index : Nat)
  /-- Variables are numbered from 1. -/
  | zeroVariable
  /-- A table has at most `2^31` cells of initial room. -/
  | tableBits
  /-- An operation cache has at most `2^31` slots. -/
  | cacheBits
  /-- An exhausted iterator has no current edge. -/
  | exhausted
  /-- Reclamation was resumed more often than it was paused. -/
  | notPaused
  /-- The last reference of this slot was already given back. -/
  | overReleased (slot : Nat)
  /-- An occupied slot holds no state. -/
  | stateless (slot : Nat)
  /-- A position lies past the end of a sequence. -/
  | outOfRange
  /-- There are more states than the bound of the engine admits. -/
  | unbounded
deriving DecidableEq, Repr, Inhabited

namespace Fault

/-- The diagnostic of a fault, for those that have one. -/
def message? : Fault → Option String
  | zeroIndex => some "Index is 0"
  | vacant i => some s!"Index {i} is not occupied"
  | zeroVariable => some "Variable index should not be zero"
  | tableBits => some "Table bits should be in the range 0..=31"
  | cacheBits => some "Bits should be in the range 0..=31"
  | exhausted => some "dst() called on an exhausted iterator"
  | notPaused => some "reclamation is not paused"
  | overReleased s => some s!"state @{s} released too many times"
  | stateless _ => none
  | outOfRange => none
  | unbounded => none

end Fault

/-- An action on a state `σ` that may fault; a fault keeps the state reached so far. -/
abbrev Action (σ α : Type) := EStateM Fault σ α

namespace Action

/-- A reading of the state, as an action that leaves the state alone. -/
@[inline] def reading {σ α : Type} (f : σ → Except Fault α) : Action σ α := fun s =>
  match f s with
  | .ok a => .ok a s
  | .error e => .error e s

/-- A value or a fault, as an action that leaves the state alone. -/
@[inline] def ofExcept {σ α : Type} (r : Except Fault α) : Action σ α := fun s =>
  match r with
  | .ok a => .ok a s
  | .error e => .error e s

/-- An action that cannot fault. -/
@[inline] def total {σ α : Type} (f : σ → α × σ) : Action σ α := fun s =>
  match f s with
  | (a, s) => .ok a s

/-- Runs an action and tells its outcome apart from the state it leaves. -/
@[inline] def outcome {σ α : Type} (x : Action σ α) (s : σ) : Except Fault α × σ :=
  match x s with
  | .ok a s => (.ok a, s)
  | .error e s => (.error e, s)

end Action

end StateSpace
