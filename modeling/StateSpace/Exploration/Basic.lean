/-!
# Explorations

An exploration is the part of a structure that was visited: its states in the order of their
discovery, and the edges between them.
-/

namespace StateSpace

/-- A visited state. -/
structure ExploredState where
  label : String
  condition : String
  /-- Whether the engine has no successor for it. -/
  dead : Bool
deriving DecidableEq, Repr

/-- An edge between visited states. -/
structure ExploredEdge where
  source : Nat
  target : Nat
  condition : String
deriving DecidableEq, Repr

/-- Visited states and edges. -/
structure Exploration where
  name : String
  states : Array ExploredState := #[]
  edges : Array ExploredEdge := #[]
  /-- Whether the limit kept a state out. -/
  truncated : Bool := false
deriving DecidableEq, Repr

/-- The number of dead states. -/
def Exploration.deadCount (x : Exploration) : Nat := x.states.toList.countP (·.dead)

end StateSpace
