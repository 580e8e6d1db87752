import StateSpace.Fault
import StateSpace.Pairing

/-!
# States of an engine

A configuration is a location for each process and a value for each variable. Other engines may
bring states of their own, which answer the same questions but carry their hash and a key that tells
them apart. Engines hand states out as shared objects: two objects are the same one exactly when
their tokens agree.
-/

namespace StateSpace

/-- The discrete part of a network's state. -/
structure Configuration where
  locations : List Nat
  ints : List Int32
deriving DecidableEq, Repr

/-- A configuration is hashed as its locations and its values with a separator between. -/
def Configuration.hash (c : Configuration) : UInt64 :=
  mixWords (c.locations.map UInt64.ofNat ++ 0xFFFFFFFFFFFFFFFF ::
    c.ints.map fun v => v.toUInt32.toUInt64)

/-- A state that no network produced: its hash is given, and its key is its identity. -/
structure ForeignState where
  locations : List Nat
  ints : List Int32
  hash : UInt64
  key : Int
  /-- The position at which the state was given. -/
  serial : Nat
deriving DecidableEq, Repr

/-- A state of some engine. -/
inductive EngineState where
  | configuration (c : Configuration)
  | foreign (f : ForeignState)
deriving DecidableEq, Repr

/-- An element of a list; a position past its end is a fault. -/
def item {α : Type} (xs : List α) (i : Nat) : Except Fault α :=
  match xs[i]? with
  | some a => .ok a
  | none => .error .outOfRange

namespace EngineState

/-- The locations by process. -/
def locations : EngineState → List Nat
  | configuration c => c.locations
  | foreign f => f.locations

/-- The values by variable. -/
def ints : EngineState → List Int32
  | configuration c => c.ints
  | foreign f => f.ints

/-- The location of a process. -/
def location (s : EngineState) (process : Nat) : Except Fault Nat := item s.locations process

/-- The value of a variable. -/
def int (s : EngineState) (var : Nat) : Except Fault Int32 := item s.ints var

/-- The hash of a state. -/
def hash : EngineState → UInt64
  | configuration c => c.hash
  | foreign f => f.hash

/-- Whether a list differs from what is read at the positions from `i` on; reading stops at the
first difference. -/
def readsOtherwise {α : Type} [DecidableEq α] (read : Nat → Except Fault α) :
    Nat → List α → Except Fault Bool
  | _, [] => .ok false
  | i, a :: as => do
    if (← read i) = a then readsOtherwise read (i + 1) as else .ok true

/-- Whether two states differ. A configuration compares its parts with what another kind of state
answers; a foreign state differs from every configuration. -/
def differs : EngineState → EngineState → Except Fault Bool
  | configuration a, configuration b => .ok (a ≠ b)
  | configuration a, foreign b => do
    if ← readsOtherwise (foreign b).location 0 a.locations then .ok true
    else readsOtherwise (foreign b).int 0 a.ints
  | foreign a, foreign b => .ok (a.key ≠ b.key)
  | foreign _, configuration _ => .ok true

end EngineState

/-- A state object with its identity. -/
structure Shared where
  token : Nat
  state : EngineState
deriving DecidableEq, Repr

/-- The edges that are taken together in one step. -/
abbrev Transition := List Nat

end StateSpace
