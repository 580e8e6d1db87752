import StateSpace.Diagram.Edge
import StateSpace.Pool

/-!
# Successor iterators

A cursor walks a list of successors and can be set back. An iterator yields the successors of one
state as handles, each edge under the same condition. It either follows a cursor and wraps every
destination afresh, or it holds a reference to the state itself and yields this one destination,
whatever its cursor has.
-/

namespace StateSpace

/-- A list of successors with the part not yet passed. -/
structure Cursor where
  items : List (Shared × Transition)
  rest : List (Shared × Transition)
deriving Repr

namespace Cursor

/-- A cursor before the first of a list of successors. -/
def ofList (items : List (Shared × Transition)) : Cursor := ⟨items, items⟩

/-- A cursor without successors. -/
def empty : Cursor := ofList []

/-- Whether all successors are passed. -/
def atEnd (c : Cursor) : Bool := c.rest.isEmpty

/-- Passes one successor. -/
def advance (c : Cursor) : Cursor := { c with rest := c.rest.tail }

/-- Goes back to the first successor. -/
def rewind (c : Cursor) : Cursor := { c with rest := c.items }

/-- The successor at the cursor; there is none at the end. -/
def current (c : Cursor) : Except Fault (Shared × Transition) :=
  match c.rest with
  | [] => .error .outOfRange
  | x :: _ => .ok x

/-- The number of successors. -/
def size (c : Cursor) : Nat := c.items.length

end Cursor

/-- The successors of one state. -/
structure Iterator where
  /-- The number of the pool that the handles belong to. -/
  home : Nat
  cursor : Cursor
  /-- The condition of every edge. -/
  cond : Edge
  /-- The state itself, if it is its only successor; the iterator has a reference to it. -/
  selfLoop : Option Handle
  /-- Whether the self-loop is passed. -/
  looped : Bool
deriving Repr

namespace Iterator

/-- An iterator before its first successor. -/
def fresh (home : Nat) (cursor : Cursor) (cond : Edge) (selfLoop : Option Handle) : Iterator :=
  { home, cursor, cond, selfLoop, looped := false }

/-- Whether the iterator yields the state itself. -/
def isSelfLoop (it : Iterator) : Bool := it.selfLoop.isSome

/-- Whether all successors are passed. -/
def done (it : Iterator) : Bool := if it.isSelfLoop then it.looped else it.cursor.atEnd

/-- Goes to the first successor and tells whether there is one. -/
def first (it : Iterator) : Bool × Iterator :=
  if it.isSelfLoop then (true, { it with looped := false })
  else
    let cursor := it.cursor.rewind
    (!cursor.atEnd, { it with cursor })

/-- Goes to the next successor and tells whether there is one. -/
def next (it : Iterator) : Bool × Iterator :=
  if it.isSelfLoop then (false, { it with looped := true })
  else
    let cursor := it.cursor.advance
    (!cursor.atEnd, { it with cursor })

/-- The edges that lead to the current successor, none for a self-loop. -/
def transition? (it : Iterator) : Option Transition :=
  if it.isSelfLoop then none
  else match it.cursor.current with
    | .ok x => some x.2
    | .error _ => none

/-- The current successor, as a reference for the caller. -/
def destination (it : Iterator) : Action Pool Handle :=
  if it.done then throw .exhausted
  else match it.selfLoop with
    | some s => Pool.clone s
    | none =>
      match it.cursor.current with
      | .ok x => Pool.wrap x.1
      | .error e => throw e

/-- Gives the reference of a self-loop back, which ends the iterator's life. -/
def close (it : Iterator) : Action Pool Unit :=
  match it.selfLoop with
  | none => pure ()
  | some s => do
    let _ ← Pool.release s

/-- Gives the reference of a self-loop back and starts over with other successors. -/
def recycle (it : Iterator) (cursor : Cursor) (cond : Edge) (selfLoop : Option Handle) :
    Action Pool Iterator := do
  it.close
  pure (fresh it.home cursor cond selfLoop)

/-- The iterator without its self-loop: what is left when the reference was given back and nothing
else was changed. -/
def withoutLoop (it : Iterator) : Iterator := { it with selfLoop := none }

/-- The tokens of the successors that the iterator refers to. -/
def tokens (it : Iterator) : List Nat := it.cursor.items.map (·.1.token)

end Iterator

end StateSpace
