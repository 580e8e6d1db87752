import StateSpace.Engine.Basic
import StateSpace.Network.Summary
import StateSpace.Step
import StateSpace.Text.Quoted
import Std.Data.HashMap
import Std.Data.HashSet

/-!
# The discrete graph of a network

The bundled engine abstracts clocks, so it has the same steps under every zone semantics. It keeps
one object for each configuration it has met. Objects nobody refers to are dropped when the graph is
told to, and by itself before a search for successors once their number passes a threshold.
-/

namespace StateSpace

/-- A configuration with the token of its object. -/
structure Interned where
  token : Nat
  configuration : Configuration
deriving DecidableEq, Repr

/-- The object of an interned configuration. -/
def Interned.shared (i : Interned) : Shared := ⟨i.token, .configuration i.configuration⟩

/-- A network with the objects of the configurations met so far. -/
structure Graph where
  network : Network
  semantics : ZoneSemantics
  /-- The interned configurations by hash. -/
  interned : Std.HashMap UInt64 (List Interned)
  /-- The number of interned configurations. -/
  count : Nat
  /-- The number at which the graph starts to drop objects by itself. -/
  threshold : Nat
  /-- How often reclamation was paused and not resumed. -/
  paused : Nat
  nextToken : Nat

namespace Graph

/-- The smallest threshold. -/
def leastThreshold : Nat := 4096

/-- The graph of a network, without any state yet. -/
def create (network : Network) (semantics : ZoneSemantics) : Graph where
  network
  semantics
  interned := ∅
  count := 0
  threshold := leastThreshold
  paused := 0
  nextToken := 0

/-- A network with clocks is explored without them, which is worth a warning. -/
def warnings (n : Network) : List String :=
  if n.clocks.size = 0 then []
  else ["system `" ++ n.name ++ "' has " ++ toString n.clocks.size ++
    " clock(s): clock constraints are abstracted, timing is not explored"]

/-- Whether reclamation is paused. -/
def isPaused (g : Graph) : Bool := 0 < g.paused

/-! ## Interning -/

/-- The object of a configuration. -/
def intern (c : Configuration) : Action Graph Shared :=
  fun { network, semantics, interned, count, threshold, paused, nextToken } =>
    let h := c.hash
    let bucket := interned.getD h []
    match bucket.find? (·.configuration = c) with
    | some i =>
      .ok i.shared { network, semantics, interned, count, threshold, paused, nextToken }
    | none =>
      let i : Interned := ⟨nextToken, c⟩
      let interned := interned.insert h (bucket ++ [i])
      .ok i.shared { network, semantics, interned, count := count + 1, threshold, paused,
                     nextToken := nextToken + 1 }

/-- An object for a state that the graph does not intern. -/
def adopt (s : EngineState) (g : Graph) : Shared × Graph :=
  (⟨g.nextToken, s⟩, { g with nextToken := g.nextToken + 1 })

/-- The configurations of a bucket that are in use; none if the bucket becomes empty. -/
def keepInUse (used : Std.HashSet Nat) (bucket : List Interned) : Option (List Interned) :=
  match bucket.filter (used.contains ·.token) with
  | [] => none
  | kept => some kept

/-- Drops the objects whose tokens are not in use and counts them; none while reclamation is
paused. -/
def reclaim (tokens : List Nat) (g : Graph) : Nat × Graph :=
  if g.isPaused then (0, g)
  else
    let used := Std.HashSet.ofList tokens
    let interned := g.interned.filterMap fun _ bucket => keepInUse used bucket
    let count := interned.fold (fun n _ bucket => n + bucket.length) 0
    (g.count - count, { g with interned, count })

/-- Drops objects if there are enough of them, and sets the next threshold. -/
def reclaimIfDue (inUse : InUse) (g : Graph) : Graph :=
  if g.isPaused || g.count < g.threshold then g
  else
    let (_, g) := g.reclaim (inUse ())
    { g with threshold := max (2 * g.count) leastThreshold }

/-! ## Steps -/

/-- The objects of the start configurations whose invariants hold. -/
def startObjects (n : Network) : List (List Nat) → Action Graph (List Shared)
  | [] => pure []
  | locations :: rest => do
    if ← Action.ofExcept (n.invariantsHold n.startValues locations) then
      let s ← intern { locations, ints := n.startValues }
      let ss ← startObjects n rest
      pure (s :: ss)
    else startObjects n rest

/-- All initial states. -/
def initial : Action Graph (List Shared) := do
  let n := (← get).network
  startObjects n n.startVectors

/-- The objects of the configurations that candidates lead to. -/
def fireAll (n : Network) (c : Configuration) :
    List (List Network.Edge) → Action Graph (List (Shared × Transition))
  | [] => pure []
  | es :: rest => do
    match ← Action.ofExcept (n.fire c es) with
    | none => fireAll n c rest
    | some target =>
      let s ← intern target
      let ss ← fireAll n c rest
      pure ((s, es.map (·.id)) :: ss)

/-- The successors of a state with the edges that lead there. -/
def outgoing (inUse : InUse) (s : EngineState) : Action Graph (List (Shared × Transition)) := do
  modify (·.reclaimIfDue inUse)
  let n := (← get).network
  let c ← Action.ofExcept (n.configurationOf s)
  let candidates ← Action.ofExcept (n.candidates c)
  fireAll n c candidates

/-- Pauses reclamation. -/
def pause (g : Graph) : Graph := { g with paused := g.paused + 1 }

/-- Takes one pause back. -/
def resume : Action Graph Unit := fun g =>
  if g.paused = 0 then .error .notPaused g else .ok () { g with paused := g.paused - 1 }

/-- The counters of a graph, as text. -/
def debugText (g : Graph) : String :=
  "DiscreteGraph \x7b system: " ++ Text.quote g.network.name ++ ", semantics: " ++
    g.semantics.label ++ ", num_interned: " ++ toString g.count ++ ", paused: " ++
    toString g.paused ++ " \x7d"

instance : Engine Graph where
  network g := g.network
  semantics g := g.semantics
  initial := initial
  outgoing := outgoing
  formatState g := g.network.formatState
  reclaim := reclaim
  pause := pause
  resume := resume
  bound g := g.network.configurationBound

end Graph

end StateSpace
