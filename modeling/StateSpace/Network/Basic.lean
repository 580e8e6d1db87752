import StateSpace.Expr.Basic
import StateSpace.Network.Names

/-!
# Networks of timed automata

A network has processes, each with locations joined by edges that carry events. Processes share
bounded integer variables and clocks. An event of a process that is named by a synchronisation is
only taken together with the other events of that synchronisation.

A network grows by declarations. A declaration that does not fit is refused; what it changed before
it was refused stays. Declarations of a kind are numbered from 0 on, by 32 bits where they are stored;
only memory could exhaust these, so the numbers are not cut off here.
-/

namespace StateSpace

/-- The values that a variable may take. -/
structure Domain where
  min : Int32
  max : Int32
  initial : Int32
deriving DecidableEq, Repr

namespace Domain

/-- Whether a variable may take a value. -/
def contains (d : Domain) (v : Int64) : Bool := d.min.toInt64 ≤ v && v ≤ d.max.toInt64

/-- The number of values, computed with 64 bits. -/
def size (d : Domain) : Nat := (d.max.toInt64 - d.min.toInt64 + 1).toUInt64.toNat

end Domain

namespace Network

/-- A location of a process. -/
structure Location where
  id : Nat
  process : Nat
  name : String
  initial : Bool := false
  committed : Bool := false
  invariant : Expr := .always
deriving DecidableEq, Repr

/-- An edge between two locations of a process. -/
structure Edge where
  id : Nat
  process : Nat
  source : Nat
  target : Nat
  event : Nat
  guard : Expr := .always
  updates : List Update := []
deriving DecidableEq, Repr

end Network

/-- Declared processes, locations, edges, variables, clocks, events and synchronisations. Numbers are
those of declarations, in the order in which they came. -/
structure Network where
  name : String
  events : NameTable := {}
  processes : NameTable := {}
  ints : NameTable := {}
  domains : Array Domain := #[]
  clocks : NameTable := {}
  locations : Array Network.Location := #[]
  /-- The numbers of the locations of each process by name, the newest first. -/
  byProcess : Array (List (String × Nat)) := #[]
  edges : Array Network.Edge := #[]
  /-- The edges that leave each location, in the order of their declaration. -/
  leaving : Array (List Nat) := #[]
  /-- Processes with events that are taken together. -/
  syncs : List (List (Nat × Nat)) := []
  /-- Processes with events that are only taken in a synchronisation. -/
  synchronized : List (Nat × Nat) := []

namespace Network

/-! ## Looking things up -/

/-- The number of a location of a process. -/
def findLocation? (n : Network) (process : Nat) (name : String) : Option Nat :=
  (n.byProcess[process]?).bind (·.lookup name)

/-- What an identifier stands for: a variable, else a clock. -/
def resolve (n : Network) (name : String) : Option Symbol :=
  match n.ints.find? name with
  | some id => some (.int id)
  | none => (n.clocks.find? name).map .clock

/-- Whether an event of a process is only taken in a synchronisation. -/
def isSynchronized (n : Network) (process event : Nat) : Bool :=
  n.synchronized.contains (process, event)

/-- The processes with their synchronised events, in ascending order. -/
def synchronizedPairs (n : Network) : List (Nat × Nat) :=
  (List.range n.processes.size).flatMap fun p =>
    ((List.range n.events.size).filter (n.isSynchronized p)).map (p, ·)

/-- The locations in which a process may start. -/
def initialLocations (n : Network) (process : Nat) : List Nat :=
  (n.locations.toList.filter fun l => l.process == process && l.initial).map (·.id)

/-- The edges that leave a location; none if there is no such location, or if its list has a number
that is none of an edge. -/
def edgesFrom? (n : Network) (location : Nat) : Option (List Edge) :=
  (n.leaving[location]?).bind fun ids => ids.mapM fun id => n.edges[id]?

/-! ## Declarations -/

/-- Why a declaration is refused. -/
inductive Refusal where
  | duplicate (name : String)
  | initialOutside (name : String) (domain : Domain)
  | alreadyClock (name : String)
  | alreadyVariable (name : String)
  | unknownProcess (process : Nat)
  | duplicateLocation (location process : String)
  | notInProcess (location process : Nat)
  | repeatedProcess (name : String)
  /-- A process that does not exist is named twice. -/
  | repeatedUnknown (process : Nat)
deriving DecidableEq, Repr

/-- The diagnostic of a refusal; there is none for a process without a name. -/
def Refusal.message? : Refusal → Option String
  | duplicate name => some ("`" ++ name ++ "' is declared twice")
  | initialOutside name d =>
    some ("initial value " ++ toString d.initial.toInt ++ " of `" ++ name ++ "' is outside " ++
      toString d.min.toInt ++ ".." ++ toString d.max.toInt)
  | alreadyClock name => some ("`" ++ name ++ "' is already a clock")
  | alreadyVariable name => some ("`" ++ name ++ "' is already an integer variable")
  | unknownProcess p => some ("unknown process #" ++ toString p)
  | duplicateLocation l p =>
    some ("location `" ++ l ++ "' of process `" ++ p ++ "' is declared twice")
  | notInProcess l p =>
    some ("location #" ++ toString l ++ " does not belong to process #" ++ toString p)
  | repeatedProcess name => some ("process `" ++ name ++ "' appears twice in a synchronisation")
  | repeatedUnknown _ => none

/-- A declaration: it changes the network or is refused. -/
abbrev Declaring (α : Type) := EStateM Refusal Network α

/-- Declares an event. -/
def addEvent (name : String) : Declaring Nat := fun n =>
  match n.events.add? name with
  | some (id, events) => .ok id { n with events }
  | none => .error (.duplicate name) n

/-- Declares a variable. -/
def addVariable (name : String) (d : Domain) : Declaring Nat := fun n =>
  if d.max < d.min ∨ !d.contains d.initial.toInt64 then .error (.initialOutside name d) n
  else if (n.clocks.find? name).isSome then .error (.alreadyClock name) n
  else match n.ints.add? name with
    | some (id, ints) => .ok id { n with ints, domains := n.domains.push d }
    | none => .error (.duplicate name) n

/-- Declares a clock. -/
def addClock (name : String) : Declaring Nat := fun n =>
  if (n.ints.find? name).isSome then .error (.alreadyVariable name) n
  else match n.clocks.add? name with
    | some (id, clocks) => .ok id { n with clocks }
    | none => .error (.duplicate name) n

/-- Declares a process. -/
def addProcess (name : String) : Declaring Nat := fun n =>
  match n.processes.add? name with
  | some (id, processes) => .ok id { n with processes, byProcess := n.byProcess.push [] }
  | none => .error (.duplicate name) n

/-- Declares a location, which gets the next number. -/
def addLocation (l : Location) : Declaring Nat := fun n =>
  match n.byProcess[l.process]? with
  | none => .error (.unknownProcess l.process) n
  | some ids =>
    match ids.lookup l.name with
    | some _ =>
      .error (.duplicateLocation l.name ((n.processes.get? l.process).getD "")) n
    | none =>
      let id := n.locations.size
      .ok id { n with locations := n.locations.push { l with id }
                      byProcess := n.byProcess.modify l.process ((l.name, id) :: ·)
                      leaving := n.leaving.push [] }

/-- Whether a location belongs to a process. -/
def belongs (n : Network) (process location : Nat) : Bool :=
  (n.locations[location]?).any (·.process == process)

/-- Declares an edge, which gets the next number. -/
def addEdge (e : Edge) : Declaring Nat := fun n =>
  if !n.belongs e.process e.source then .error (.notInProcess e.source e.process) n
  else if !n.belongs e.process e.target then .error (.notInProcess e.target e.process) n
  else
    let id := n.edges.size
    .ok id { n with edges := n.edges.push { e with id }
                    leaving := n.leaving.modify e.source (· ++ [id]) }

/-- Marks the events of a synchronisation one by one, up to a process that was `seen` before. -/
def markSynchronized (seen : List Nat) : List (Nat × Nat) → Declaring Unit
  | [] => pure ()
  | (process, event) :: rest => do
    if process ∈ seen then
      match (← get).processes.get? process with
      | some name => throw (.repeatedProcess name)
      | none => throw (.repeatedUnknown process)
    modify fun n => { n with synchronized := n.synchronized.insert (process, event) }
    markSynchronized (process :: seen) rest

/-- Declares a synchronisation. -/
def addSync (constraints : List (Nat × Nat)) : Declaring Unit := do
  markSynchronized [] constraints
  modify fun n => { n with syncs := n.syncs ++ [constraints] }

end Network

end StateSpace
