import StateSpace.Exploration.Search
import StateSpace.Kripke.Walk

/-!
# Workspaces

Several structures over one dictionary, with the iterators that their consumers hold. An iterator
belongs to the structure that made it. Structures are named by their position, iterators by a text.
A structure that is closed answers to its position no more. Its registrations last as long as its
sessions do, and its pool as long as there are iterators.
-/

namespace StateSpace

/-- Structures that share a dictionary, and the iterators in use. -/
structure Workspace (ε : Type) where
  dict : Dictionary
  /-- The structures by position; none where one could not be built. -/
  structures : Array (Option (Kripke ε)) := #[]
  /-- The positions of the structures that were closed. -/
  closed : List Nat := []
  iterators : List (String × Iterator) := []

namespace Workspace

open World

variable {ε α : Type}

/-- The structure at a position, unless it is closed. -/
def structure? (w : Workspace ε) (k : Nat) : Option (Kripke ε) :=
  if k ∈ w.closed then none else (w.structures[k]?).join

/-- The structure at a position, which has to be open. -/
def openStructure (w : Workspace ε) (k : Nat) : Except Fault (Kripke ε) :=
  match w.structure? k with
  | some s => .ok s
  | none => .error .outOfRange

/-- An action on the dictionary. -/
def onDict (x : Action Dictionary α) : Action (Workspace ε) α :=
  fun ⟨dict, structures, closed, iterators⟩ =>
    match x dict with
    | .ok a dict => .ok a ⟨dict, structures, closed, iterators⟩
    | .error e dict => .error e ⟨dict, structures, closed, iterators⟩

/-- An action on the structure at a position, be it closed or not. -/
def onPlaced (k : Nat) (x : Action (World ε) α) : Action (Workspace ε) α :=
  fun ⟨dict, structures, closed, iterators⟩ =>
    match (structures[k]?).join with
    | none => .error .outOfRange ⟨dict, structures, closed, iterators⟩
    | some kripke =>
      let structures := structures.setIfInBounds k none
      match x ⟨dict, kripke⟩ with
      | .ok a ⟨dict, kripke⟩ =>
        .ok a ⟨dict, structures.setIfInBounds k (some kripke), closed, iterators⟩
      | .error e ⟨dict, kripke⟩ =>
        .error e ⟨dict, structures.setIfInBounds k (some kripke), closed, iterators⟩

/-- An action on the open structure at a position. -/
def onStructure (k : Nat) (x : Action (World ε) α) : Action (Workspace ε) α := do
  if k ∈ (← get).closed then throw .outOfRange
  onPlaced k x

/-- An action on the pool that an iterator belongs to. -/
def onHome (it : Iterator) (x : Action Pool α) : Action (Workspace ε) α :=
  onPlaced it.home (onPool x)

/-- What the iterators of a structure refer to. -/
def othersOf (iterators : List (String × Iterator)) (k : Nat) : InUse := fun _ =>
  (iterators.filter (·.2.home == k)).flatMap (·.2.tokens)

/-! ## Structures -/

/-- Takes the next position for a structure; a failure takes it too. -/
def place (k : Option (Kripke ε)) : Action (Workspace ε) Unit :=
  modify fun w => { w with structures := w.structures.push k }

/-- Builds a structure at the next position. -/
def build [Engine ε] (engine : ε) (names : List String) (o : Options) :
    Action (Workspace ε) (Except (List Diagnostic) Nat) := do
  let k := (← get).structures.size
  match ← onDict (Kripke.create k engine names o) with
  | .ok s => do
    place (some s)
    pure (.ok k)
  | .error ds => do
    place none
    pure (.error ds)

/-- Gives the registrations of a structure up if it is closed and has no session left. -/
def retract (k : Nat) : Action (Workspace ε) Unit := do
  let w ← get
  match (w.structures[k]?).join with
  | some s => if k ∈ w.closed ∧ !s.isExploring then onDict s.close
  | none => pure ()

/-- Closes a structure; tells whether there was one. -/
def closeStructure (k : Nat) : Action (Workspace ε) Bool := do
  match (← get).structure? k with
  | none => pure false
  | some _ => do
    modify fun w => { w with closed := k :: w.closed }
    retract k
    pure true

/-- Opens a session of a structure. -/
def openSession [Engine ε] (k : Nat) : Action (Workspace ε) Unit :=
  onStructure k Kripke.openSession

/-- Closes a session of a structure; tells whether another one is left. -/
def closeSession [Engine ε] (k : Nat) : Action (Workspace ε) Bool := do
  let exploring ← onPlaced k do
    Kripke.closeSession
    pure (← get).kripke.isExploring
  retract k
  pure exploring

/-- Drops the states of a structure's engine that nothing refers to, and counts them. -/
def reclaim [Engine ε] (k : Nat) : Action (Workspace ε) Nat := do
  let others := othersOf (← get).iterators k
  onStructure k do
    let pool := (← get).kripke.pool
    onEngine (Action.total (Engine.reclaim (Kripke.inUse pool others ())))

/-! ## Iterators -/

/-- The iterator with a name. -/
def iterator? (w : Workspace ε) (name : String) : Option Iterator := w.iterators.lookup name

/-- Puts an iterator under a name. -/
def putIterator (name : String) (it : Iterator) : Action (Workspace ε) Unit :=
  modify fun w => { w with iterators := (name, it) :: w.iterators.filter (·.1 != name) }

/-- Takes an iterator away from its name. -/
def takeIterator (name : String) : Action (Workspace ε) (Option Iterator) := do
  let it := (← get).iterator? name
  modify fun w => { w with iterators := w.iterators.filter (·.1 != name) }
  pure it

/-- Ends the life of an iterator. -/
def closeIterator (it : Iterator) : Action (Workspace ε) Unit := onHome it it.close

/-- Iterates over the successors of a state; an older iterator of the same name is closed
afterwards. -/
def iterate [Engine ε] (k : Nat) (s : Handle) (name : String) : Action (Workspace ε) Unit := do
  let others := othersOf (← get).iterators k
  let it ← onStructure k (Kripke.successors others s)
  let old ← takeIterator name
  putIterator name it
  match old with
  | some old => closeIterator old
  | none => pure ()

/-- Gives an iterator to a structure; one that it does not keep is closed. -/
def giveIterator [Engine ε] (k : Nat) (name : String) : Action (Workspace ε) Unit := do
  match ← takeIterator name with
  | none => pure ()
  | some it => do
    if !(← onStructure k (Kripke.retire it)) then closeIterator it

/-- Closes the iterator with a name; tells whether there was one. -/
def dropIterator (name : String) : Action (Workspace ε) Bool := do
  match ← takeIterator name with
  | none => pure false
  | some it => do
    closeIterator it
    pure true

/-- Closes all iterators. -/
def closeIterators : Action (Workspace ε) Unit := do
  let its := (← get).iterators
  modify fun w => { w with iterators := [] }
  its.forM fun x => closeIterator x.2

/-- Moves the iterator with a name. -/
def moveIterator (name : String) (f : Iterator → Bool × Iterator) :
    Action (Workspace ε) (Option Bool) := do
  match (← get).iterator? name with
  | none => pure none
  | some it => do
    let (b, it) := f it
    putIterator name it
    pure (some b)

/-- The destination of an iterator, as a handle of its pool. -/
def destination (it : Iterator) : Action (Workspace ε) Handle := onHome it it.destination

/-- All successors of a state. -/
def viewSuccessors [Engine ε] (k : Nat) (s : Handle) :
    Action (Workspace ε) (List SuccessorView) := do
  let others := othersOf (← get).iterators k
  onStructure k (Kripke.viewSuccessors others s)

/-- Goes on to one successor of a state. -/
def followSuccessor [Engine ε] (k : Nat) (s : Handle) (n : Nat) :
    Action (Workspace ε) (Option Handle) := do
  let others := othersOf (← get).iterators k
  onStructure k (Kripke.followSuccessor others s n)

end Workspace

end StateSpace
