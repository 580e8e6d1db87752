import StateSpace.Configuration
import StateSpace.Network.Basic
import StateSpace.Semantics

/-!
# Engines

An engine enumerates the states of a network under a zone semantics. It may drop states of its own
accord that nobody refers to; whoever asks for successors therefore tells which tokens are in use,
and reclamation can be paused.
-/

namespace StateSpace

/-- The tokens of the state objects that are referred to from outside the engine; asked for only
when states are about to be dropped. -/
abbrev InUse := Unit → List Nat

/-- What the exploration of a network needs from an engine. -/
class Engine (ε : Type) where
  network : ε → Network
  semantics : ε → ZoneSemantics
  /-- All initial states. -/
  initial : Action ε (List Shared)
  /-- The successors of a state with the edges that lead there. -/
  outgoing : InUse → EngineState → Action ε (List (Shared × Transition))
  /-- A state as text. -/
  formatState : ε → EngineState → Except Fault String
  /-- Drops the states whose tokens are not in use and counts them. -/
  reclaim : List Nat → ε → Nat × ε
  pause : ε → ε
  resume : Action ε Unit
  /-- A bound on the number of different states that can be reached. -/
  bound : ε → Nat

end StateSpace
