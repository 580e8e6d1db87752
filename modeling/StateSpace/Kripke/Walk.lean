import StateSpace.Kripke.Basic

/-!
# Walking a structure

Two things that consumers do with an iterator: list all successors of a state, or go to one of them.
An iterator whose walk faults is closed.
-/

namespace StateSpace

/-- A successor as a consumer sees it. -/
structure SuccessorView where
  label : String
  condition : String
  selfLoop : Bool
  transition : Option Transition
deriving Repr

namespace Kripke

open World

variable {ε α : Type} [Engine ε]

/-- Runs a walk and closes the iterator if the walk faults. -/
def closingOnFault (it : Iterator) (x : Action (World ε) α) : Action (World ε) α :=
  tryCatch x fun e => do
    onPool it.close
    throw e

/-- Shows the current successor and gives its handle back. -/
def viewDestination (it : Iterator) : Action (World ε) SuccessorView := do
  let d ← onPool it.destination
  let label ← Action.reading (formatState · d)
  let condition ← Action.reading (·.dict.formatCondition it.cond)
  let _ ← onPool (Pool.release d)
  pure { label, condition, selfLoop := it.isSelfLoop, transition := it.transition? }

/-- Shows the successors from the current one on, at most `fuel` of them. -/
def viewFrom : Nat → Iterator → Action (World ε) (List SuccessorView)
  | 0, _ => pure []
  | fuel + 1, it => do
    let v ← viewDestination it
    let (more, it) := it.next
    let vs ← if more then viewFrom fuel it else pure []
    pure (v :: vs)

/-- All successors of a state. -/
def viewSuccessors (others : InUse) (s : Handle) : Action (World ε) (List SuccessorView) := do
  let it ← successors others s
  let (any, it) := it.first
  let vs ← closingOnFault it (if any then viewFrom (it.cursor.size + 1) it else pure [])
  giveBack it
  pure vs

/-- Passes `n` successors and tells whether there is another one. -/
def skip : Nat → Bool × Iterator → Bool × Iterator
  | 0, x => x
  | n + 1, (more, it) => if more then skip n it.next else (more, it)

/-- Goes on to the successor with a number in place of the state; the state stays if there is no
such successor. -/
def followSuccessor (others : InUse) (s : Handle) (n : Nat) :
    Action (World ε) (Option Handle) := do
  let it ← successors others s
  let (there, it) := skip n it.first
  if there then
    let d ← closingOnFault it (onPool it.destination)
    giveBack it
    let _ ← onPool (Pool.release s)
    pure (some d)
  else
    giveBack it
    pure none

end Kripke

end StateSpace
