import StateSpace.Configuration
import StateSpace.Expr.Eval
import StateSpace.Network.Basic

/-!
# Discrete steps of a network

A step takes one edge of a process, or one edge for each process of a synchronisation. All its
guards hold on the values before the step; its updates are made one after the other and keep every
variable within its domain; all invariants hold after it. An expression without a value disables the
step. While a process is in a committed location, a step has to leave a committed location.
-/

namespace StateSpace

/-- The value of an expression, none if it has no value. -/
def Expr.value? (row : List Int32) (e : Expr) : Except Fault (Option Int64) :=
  match e.eval row with
  | .ok v => .ok (some v)
  | .error (.unbound _) => .error .outOfRange
  | .error _ => .ok none

/-- Whether a guard may hold; a guard without a value does not. -/
def Expr.allows (row : List Int32) (e : Expr) : Except Fault Bool :=
  match e.holds row with
  | .ok b => .ok b
  | .error (.unbound _) => .error .outOfRange
  | .error _ => .ok false

/-- Whether all guards may hold; the first one that does not ends the test. -/
def Expr.allAllow (row : List Int32) : List Expr → Except Fault Bool
  | [] => .ok true
  | e :: es => do
    if ← e.allows row then allAllow row es else .ok false

namespace Network

/-! ## Firing -/

/-- Whether the invariants of a configuration hold, the first process first. -/
def invariantsHold (n : Network) (row : List Int32) : List Nat → Except Fault Bool
  | [] => .ok true
  | l :: ls =>
    match n.locations[l]? with
    | none => .error .outOfRange
    | some l => do
      if ← l.invariant.allows row then n.invariantsHold row ls else .ok false

/-- The values after one update, none if it is impossible. Clocks have no values. -/
def update (n : Network) (row : List Int32) : Update → Except Fault (Option (List Int32))
  | .clock _ _ => .ok (some row)
  | .int id e => do
    match ← e.value? row with
    | none => .ok none
    | some v =>
      match n.domains[id]? with
      | none => .error .outOfRange
      | some d =>
        if !d.contains v then .ok none
        else if id < row.length then .ok (some (row.set id v.toInt32))
        else .error .outOfRange

/-- The values after updates in sequence. -/
def updateAll (n : Network) (row : List Int32) : List Update → Except Fault (Option (List Int32))
  | [] => .ok (some row)
  | u :: us => do
    match ← n.update row u with
    | none => .ok none
    | some row => n.updateAll row us

/-- The locations after a process has moved along each edge. -/
def moveAll (locations : List Nat) : List Edge → Except Fault (List Nat)
  | [] => .ok locations
  | e :: es =>
    if e.process < locations.length then moveAll (locations.set e.process e.target) es
    else .error .outOfRange

/-- The configuration after taking edges together, none if that is impossible. -/
def fire (n : Network) (c : Configuration) (edges : List Edge) :
    Except Fault (Option Configuration) := do
  if !(← Expr.allAllow c.ints (edges.map (·.guard))) then return none
  match ← n.updateAll c.ints (edges.flatMap (·.updates)) with
  | none => return none
  | some ints =>
    let locations ← moveAll c.locations edges
    if ← n.invariantsHold ints locations then return some { locations, ints } else return none

/-! ## Candidates -/

/-- The edges that leave a location. -/
def edgesFrom (n : Network) (location : Nat) : Except Fault (List Edge) :=
  match n.edgesFrom? location with
  | some es => .ok es
  | none => .error .outOfRange

/-- The edges that processes from number `process` on may take on their own. -/
def soloEdges (n : Network) : Nat → List Nat → Except Fault (List (List Edge))
  | _, [] => .ok []
  | process, l :: ls => do
    let es ← n.edgesFrom l
    let rest ← n.soloEdges (process + 1) ls
    .ok ((es.filter fun e => !n.isSynchronized process e.event).map ([·]) ++ rest)

/-- Every list of the first kind continued by every element of the second. -/
def extendEach {α : Type} (lists : List (List α)) (choices : List α) : List (List α) :=
  lists.flatMap fun xs => choices.map fun x => xs ++ [x]

/-- The edges with which the processes of a synchronisation may continue those chosen so far. -/
def jointEdges (n : Network) (locations : List Nat) :
    List (List Edge) → List (Nat × Nat) → Except Fault (List (List Edge))
  | chosen, [] => .ok chosen
  | chosen, (process, event) :: rest => do
    let es ← n.edgesFrom (← item locations process)
    match extendEach chosen (es.filter (·.event == event)) with
    | [] => .ok []
    | chosen => n.jointEdges locations chosen rest

/-- The edges that the synchronisations offer, in the order of their declaration. -/
def syncEdges (n : Network) (locations : List Nat) :
    List (List (Nat × Nat)) → Except Fault (List (List Edge))
  | [] => .ok []
  | s :: ss => do
    let es ← n.jointEdges locations [[]] s
    let rest ← n.syncEdges locations ss
    .ok (es ++ rest)

/-- Whether a location is committed. -/
def isCommitted (n : Network) (location : Nat) : Bool :=
  (n.locations[location]?).any (·.committed)

/-- The edges that may be taken together: those of single processes, then those of
synchronisations. -/
def candidates (n : Network) (c : Configuration) : Except Fault (List (List Edge)) := do
  let solo ← n.soloEdges 0 c.locations
  let joint ← n.syncEdges c.locations n.syncs
  let all := solo ++ joint
  if c.locations.any n.isCommitted then
    .ok (all.filter fun es => es.any fun e => n.isCommitted e.source)
  else .ok all

/-! ## Starting -/

/-- Every way to let each process start in one of its initial locations. -/
def startVectors (n : Network) : List (List Nat) :=
  (List.range n.processes.size).foldl (fun vs p => extendEach vs (n.initialLocations p)) [[]]

/-- The values at the start. -/
def startValues (n : Network) : List Int32 := n.domains.toList.map (·.initial)

/-! ## Reading and showing states -/

/-- A state as a configuration of the network. -/
def configurationOf (n : Network) : EngineState → Except Fault Configuration
  | .configuration c => .ok c
  | .foreign f => do
    let locations ← (List.range n.processes.size).mapM (EngineState.foreign f).location
    let ints ← (List.range n.ints.size).mapM (EngineState.foreign f).int
    .ok { locations, ints }

/-- The name of the location of a process. -/
def locationName (n : Network) (s : EngineState) (process : Nat) : Except Fault String := do
  match n.locations[← s.location process]? with
  | some l => .ok l.name
  | none => .error .outOfRange

/-- A variable with its value. -/
def valueText (s : EngineState) (name : String × Nat) : Except Fault String := do
  let v ← s.int name.2
  .ok (name.1 ++ "=" ++ toString v.toInt)

/-- A state as text: the locations in angle brackets, then the values. -/
def formatState (n : Network) (s : EngineState) : Except Fault String := do
  let ls ← (List.range n.processes.size).mapM (n.locationName s)
  let vs ← n.ints.names.toList.zipIdx.mapM (valueText s)
  .ok ("<" ++ ",".intercalate ls ++ ">" ++
    (if vs.isEmpty then "" else " " ++ ",".intercalate vs))

end Network

end StateSpace
