import StateSpace.Exploration.Basic
import StateSpace.Kripke.Basic
import Std.Data.HashMap

/-!
# Breadth-first search

States are numbered in the order of their discovery and visited in the order of their numbers, so
the array of their handles is the queue. A destination is recognised by its hash and the comparison
of its pool. For every recognised state the search holds one reference besides that of the queue; a
visit gives the queue's reference back, and the end of the search gives back the others, also when a
visit faults.
-/

namespace StateSpace

/-- A search in progress. -/
structure Search (ε : Type) where
  world : World ε
  /-- The recognised states and their numbers, by hash. -/
  known : Std.HashMap UInt64 (List (Handle × Nat))
  /-- The handles held to recognise states. -/
  held : List Handle
  /-- The handle of each state. -/
  queue : Array Handle
  found : Exploration

namespace Search

open World

variable {ε α : Type}

/-- An action on the structure. -/
def onWorld (x : Action (World ε) α) : Action (Search ε) α :=
  fun ⟨world, known, held, queue, found⟩ =>
    match x world with
    | .ok a world => .ok a ⟨world, known, held, queue, found⟩
    | .error e world => .error e ⟨world, known, held, queue, found⟩

/-- A change of what was found. -/
def updateFound (f : Exploration → Exploration) : Action (Search ε) Unit :=
  fun ⟨world, known, held, queue, found⟩ => .ok () ⟨world, known, held, queue, f found⟩

/-! ## Recognising states -/

/-- The number of the first state of a bucket that equals a state. -/
def findIn (p : Pool) (s : Handle) : List (Handle × Nat) → Except Fault (Option Nat)
  | [] => .ok none
  | (t, i) :: rest => do
    if (← p.compare s t) = .eq then .ok (some i) else findIn p s rest

/-- The number of a state, if it was discovered before. -/
def find (s : Handle) : Action (Search ε) (Option Nat) := Action.reading fun x => do
  let h ← x.world.kripke.pool.hash s
  findIn x.world.kripke.pool s (x.known.getD h [])

/-- Recognises a state from now on, holding a reference of its own. -/
def recognise (s : Handle) (i : Nat) : Action (Search ε) Unit := do
  let s ← onWorld (onPool (Pool.clone s))
  let h ← Action.reading fun x => x.world.kripke.pool.hash s
  modify fun x => { x with known := x.known.alter h fun b => some (b.getD [] ++ [(s, i)])
                           held := s :: x.held }

variable [Engine ε]

/-- Numbers a state and puts it into the queue. -/
def discover (s : Handle) : Action (Search ε) Nat := do
  let i := (← get).found.states.size
  recognise s i
  let label ← Action.reading fun x => Kripke.formatState x.world s
  let c ← onWorld (Kripke.stateCondition s)
  let condition ← Action.reading fun x => x.world.dict.formatCondition c
  updateFound fun f => { f with states := f.states.push { label, condition, dead := false } }
  modify fun x => { x with queue := x.queue.push s }
  pure i

/-- Whether a limit keeps further states out. -/
def isFull (limit : Option Nat) (found : Exploration) : Bool :=
  limit.any (· ≤ found.states.size)

/-- The number of a destination, which is discovered unless the limit keeps it out. -/
def place (limit : Option Nat) (d : Handle) : Action (Search ε) (Option Nat) := do
  match ← find d with
  | some i => do
    let _ ← onWorld (onPool (Pool.release d))
    pure (some i)
  | none => do
    if isFull limit (← get).found then
      updateFound fun f => { f with truncated := true }
      let _ ← onWorld (onPool (Pool.release d))
      pure none
    else
      let i ← discover d
      pure (some i)

/-! ## Visiting states -/

/-- Follows the current edge of an iterator. -/
def followEdge (limit : Option Nat) (source : Nat) (it : Iterator) :
    Action (Search ε) Unit := do
  let d ← onWorld (onPool it.destination)
  let condition ← Action.reading fun x => x.world.dict.formatCondition it.cond
  match ← place limit d with
  | some target =>
    updateFound fun f => { f with edges := f.edges.push { source, target, condition } }
  | none => pure ()

/-- Follows the edges of an iterator from the current one on, at most `fuel` of them. -/
def followEdges (limit : Option Nat) (source : Nat) :
    Nat → Iterator → Action (Search ε) Unit
  | 0, _ => pure ()
  | fuel + 1, it => do
    followEdge limit source it
    let (more, it) := it.next
    if more then followEdges limit source fuel it

/-- Nothing but the pool refers to states. -/
def noOthers : InUse := fun _ => []

/-- Visits a state: follows its edges and gives the queue's reference back. -/
def visit (limit : Option Nat) (i : Nat) (s : Handle) : Action (Search ε) Unit := do
  let it ← onWorld (Kripke.successors noOthers s)
  let (any, it) := it.first
  updateFound fun f => { f with states := f.states.modify i fun st =>
    { st with dead := it.isSelfLoop || !any } }
  if any then
    tryCatch (followEdges limit i (it.cursor.size + 1) it) fun e => do
      onWorld (onPool it.close)
      throw e
  onWorld (Kripke.giveBack it)
  let _ ← onWorld (onPool (Pool.release s))

/-- Visits the states from number `i` on, at most `fuel` of them; further states are a fault. -/
def visitFrom (limit : Option Nat) : Nat → Nat → Action (Search ε) Unit
  | 0, i => do
    match (← get).queue[i]? with
    | none => pure ()
    | some _ => throw .unbounded
  | fuel + 1, i => do
    match (← get).queue[i]? with
    | none => pure ()
    | some s => do
      visit limit i s
      visitFrom limit fuel (i + 1)

/-- Gives back the references held to recognise states. Their order decides only in which order the
slots are taken again. -/
def releaseAll : List Handle → Action (World ε) Unit
  | [] => pure ()
  | s :: rest => do
    let _ ← onPool (Pool.release s)
    releaseAll rest

/-- Explores from the initial state. States that the engine can reach are no more than its bound, so
that many visits are enough. -/
def run (limit : Option Nat) : Action (Search ε) (Except Kripke.StartError Unit) := do
  match ← onWorld Kripke.initialState with
  | .error e => pure (.error e)
  | .ok s => do
    let _ ← discover s
    let bound := Engine.bound (← get).world.kripke.engine
    visitFrom limit bound 0
    pure (.ok ())

/-- A search that has not begun. -/
def start (world : World ε) : Search ε where
  world
  known := ∅
  held := []
  queue := #[]
  found := { name := (Engine.network world.kripke.engine).name }

/-- Ends a search: gives its references back and closes the session. -/
def finish (held : List Handle) : Action (World ε) Unit := do
  releaseAll held
  Kripke.closeSession

/-- Runs a search on a structure and ends it, whether it faults or not. -/
def within (limit : Option Nat) :
    Action (World ε) (Except Kripke.StartError Exploration) := fun world =>
  match run limit (start world) with
  | .ok r ⟨world, _, held, _, found⟩ =>
    match finish held world with
    | .ok _ world => .ok (r.map fun _ => found) world
    | .error e world => .error e world
  | .error e ⟨world, _, held, _, _⟩ =>
    match finish held world with
    | .ok _ world => .error e world
    | .error _ world => .error e world

end Search

/-- Explores a structure breadth-first, up to a limit on the number of states. -/
def Kripke.explore {ε : Type} [Engine ε] (limit : Option Nat) :
    Action (World ε) (Except Kripke.StartError Exploration) := do
  Kripke.openSession
  Search.within limit

end StateSpace
