import StateSpace.Engine.Basic

/-!
# Tabulated engines

An engine whose states and steps are listed. A state is named by its position in the list, and each
position is one object.
-/

namespace StateSpace

/-- A listed step. -/
structure TabulatedStep where
  source : Nat
  target : Nat
  transition : Transition
deriving DecidableEq, Repr

/-- Listed states, initial ones among them, and listed steps. -/
structure Tabulated where
  network : Network
  semantics : ZoneSemantics
  states : Array ForeignState
  initial : List Nat
  steps : List TabulatedStep
  paused : Nat := 0

namespace Tabulated

/-- The object at a position; a position past the end is a fault. -/
def object (t : Tabulated) (position : Nat) : Except Fault Shared :=
  match t.states[position]? with
  | some f => .ok ⟨position, .foreign f⟩
  | none => .error .outOfRange

/-- The position of a state. -/
def position : EngineState → Nat
  | .configuration _ => 0
  | .foreign f => f.serial

/-- The successors of a state, in the order of the list. -/
def successors (t : Tabulated) (s : EngineState) : Except Fault (List (Shared × Transition)) :=
  (t.steps.filter (·.source == position s)).mapM fun step =>
    (t.object step.target).map (·, step.transition)

instance : Engine Tabulated where
  network t := t.network
  semantics t := t.semantics
  initial := Action.reading fun t => t.initial.mapM t.object
  outgoing _ s := Action.reading (·.successors s)
  formatState _ s := .ok ("#" ++ toString (position s))
  reclaim _ t := (0, t)
  pause t := { t with paused := t.paused + 1 }
  resume := fun t =>
    if t.paused = 0 then .error .notPaused t else .ok () { t with paused := t.paused - 1 }
  bound t := t.states.size

end Tabulated

end StateSpace
