import StateSpace.Configuration
import StateSpace.Table

/-!
# Pools of states

Whoever explores a structure holds its states through handles. A handle names a slot of a pool with
the state, its hash and the number of references to it; the slot is freed with the last reference
and may then be used for another state.
-/

namespace StateSpace

/-- The name of a slot. Slots are numbered by 32 bits, which only memory could exhaust: the number is
not cut off here. -/
structure Handle where
  slot : Nat
deriving DecidableEq, Repr, Inhabited

/-- A handle is shown as its slot behind an at sign. -/
def Handle.render (s : Handle) : String := "@" ++ toString s.slot

/-- A pooled state with its references. -/
structure Slot where
  hash : UInt64
  /-- The number of references, which starts over at 0 after the last number. -/
  refs : UInt32
  state : Option Shared
deriving Repr, Inhabited

/-- Slots, and counts of the states that came and went. -/
structure Pool where
  /-- Pools are told apart by their number. -/
  id : Nat
  slots : Table Slot
  wrapped : Nat
  freed : Nat

namespace Pool

/-- Room of a pool that nobody sized. -/
def defaultBits : Nat := 10

/-- An empty pool. -/
def create (id bits : Nat) : Except Fault Pool := do
  .ok { id, slots := ← Table.create bits, wrapped := 0, freed := 0 }

/-- An action on the slots. -/
def onSlots {α : Type} (x : Action (Table Slot) α) : Action Pool α :=
  fun { id, slots, wrapped, freed } =>
    match x slots with
    | .ok a slots => .ok a { id, slots, wrapped, freed }
    | .error e slots => .error e { id, slots, wrapped, freed }

/-! ## Taking and giving references -/

/-- A fresh handle with one reference to a state. -/
def wrap (s : Shared) : Action Pool Handle := do
  let i ← onSlots (Table.add { hash := s.state.hash, refs := 1, state := some s })
  modify fun p => { p with wrapped := p.wrapped + 1 }
  pure ⟨i⟩

/-- Takes another reference. -/
def clone (s : Handle) : Action Pool Handle := do
  onSlots (Table.modify s.slot fun slot => { slot with refs := slot.refs + 1 })
  pure s

/-- Gives a reference back; tells whether it was the last one, with which the slot is freed. -/
def release (s : Handle) : Action Pool Bool := do
  let refs ← Action.reading fun p => (p.slots.get s.slot).map (·.refs)
  if refs = 0 then throw (.overReleased s.slot)
  if 1 < refs then
    onSlots (Table.modify s.slot fun slot => { slot with refs := slot.refs - 1 })
    pure false
  else
    let _ ← onSlots (Table.take s.slot)
    modify fun p => { p with freed := p.freed + 1 }
    pure true

/-! ## Reading -/

/-- The hash of a state. -/
def hash (p : Pool) (s : Handle) : Except Fault UInt64 := (p.slots.get s.slot).map (·.hash)

/-- The number of references to a state. -/
def refCount (p : Pool) (s : Handle) : Except Fault Nat := (p.slots.get s.slot).map (·.refs.toNat)

/-- Whether a handle has a reference left. -/
def isLive (p : Pool) (s : Handle) : Bool :=
  match p.slots.occupied s.slot with
  | .ok b => b
  | .error _ => false

/-- The state object behind a handle. -/
def get (p : Pool) (s : Handle) : Except Fault Shared := do
  match (← p.slots.get s.slot).state with
  | some o => .ok o
  | none => .error (.stateless s.slot)

/-- Compares two states: a handle equals itself, different hashes decide, and of states with the
same hash the one is greater unless they do not differ. -/
def compare (p : Pool) (a b : Handle) : Except Fault Ordering :=
  if a = b then .ok .eq
  else do
    let ha ← p.hash a
    let hb ← p.hash b
    if ha < hb then .ok .lt
    else if hb < ha then .ok .gt
    else do
      let x ← p.get a
      let y ← p.get b
      if ← x.state.differs y.state then .ok .gt else .ok .eq

/-- The number of handles with references. -/
def live (p : Pool) : Nat := p.slots.live

/-- The tokens of the pooled states. -/
def tokens (p : Pool) : List Nat :=
  p.slots.cells.toList.filterMap fun c => if c.occupied then c.value.state.map (·.token) else none

/-- The counters of a pool, as text. -/
def debugText (p : Pool) : String :=
  "StatePool \x7b live: " ++ toString p.live ++ ", wrapped: " ++ toString p.wrapped ++
    ", freed: " ++ toString p.freed ++ " \x7d"

end Pool

end StateSpace
