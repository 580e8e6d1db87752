import StateSpace.Engine.Basic
import StateSpace.Kripke.Policy
import StateSpace.Proposition.List
import StateSpace.Successors

/-!
# Kripke structures

A structure offers the states of an engine to a consumer: an initial state, iterators over
successors, and conditions over the observed propositions. The consumer owns every handle that it
receives. Structures that share a dictionary agree on the variables of propositions; each of them
has two parties there, one for its compiled propositions and one for the names it observes.
-/

namespace StateSpace

/-- How a structure is built. -/
structure Options where
  dead : DeadPolicy := .standard
  poolBits : Nat := Pool.defaultBits
  /-- Whether an iterator that was given back is used again. -/
  keepIterator : Bool := true
deriving Repr

/-- What is fixed when a structure is built. -/
structure Profile where
  owner : Owner
  props : PropositionList
  policy : DeadPolicy
  /-- The condition on edges of states that have successors. -/
  alive : Edge
  /-- The condition on loops of states that have none. -/
  dead : Edge
  keepIterator : Bool
deriving Repr

/-- A structure over an engine. -/
structure Kripke (ε : Type) where
  engine : ε
  pool : Pool
  /-- The observed names, in the order in which they came. -/
  aps : List String
  /-- An iterator that was given back. -/
  retired : Option Iterator
  /-- The number of open sessions. -/
  sessions : Nat
  profile : Profile

/-- A structure with the dictionary that it shares. -/
structure World (ε : Type) where
  dict : Dictionary
  kripke : Kripke ε

namespace World

variable {ε α : Type}

/-- An action on the dictionary. -/
def onDict (x : Action Dictionary α) : Action (World ε) α := fun ⟨dict, kripke⟩ =>
  match x dict with
  | .ok a dict => .ok a ⟨dict, kripke⟩
  | .error e dict => .error e ⟨dict, kripke⟩

/-- An action on the engine. -/
def onEngine (x : Action ε α) : Action (World ε) α :=
  fun ⟨dict, ⟨engine, pool, aps, retired, sessions, profile⟩⟩ =>
    match x engine with
    | .ok a engine => .ok a ⟨dict, ⟨engine, pool, aps, retired, sessions, profile⟩⟩
    | .error e engine => .error e ⟨dict, ⟨engine, pool, aps, retired, sessions, profile⟩⟩

/-- An action on the pool. -/
def onPool (x : Action Pool α) : Action (World ε) α :=
  fun ⟨dict, ⟨engine, pool, aps, retired, sessions, profile⟩⟩ =>
    match x pool with
    | .ok a pool => .ok a ⟨dict, ⟨engine, pool, aps, retired, sessions, profile⟩⟩
    | .error e pool => .error e ⟨dict, ⟨engine, pool, aps, retired, sessions, profile⟩⟩

/-- A change of the structure. -/
def updateKripke (f : Kripke ε → Kripke ε) : Action (World ε) Unit := fun ⟨dict, kripke⟩ =>
  .ok () ⟨dict, f kripke⟩

/-- The state behind a handle. -/
def state (s : Handle) : Action (World ε) EngineState :=
  Action.reading fun w => (w.kripke.pool.get s).map (·.state)

end World

namespace Kripke

open World

variable {ε : Type}

/-! ## Building -/

/-- Adds a name to the observed ones, unless it is there already. -/
def addName (aps : List String) (name : String) : List String :=
  if name ∈ aps then aps else aps ++ [name]

/-- The conditions on edges and on loops that a policy asks for. -/
def markers (owner : Owner) : DeadPolicy → Action Dictionary (Edge × Edge)
  | .ignore => pure (.one, .zero)
  | .loop => pure (.one, .one)
  | .labelled name => do
    let v ← Dictionary.register name owner
    let x ← Dictionary.onDiagram (Manager.var v)
    pure (-x, x)

/-- Registers names one by one. -/
def registerNames (owner : Owner) : List String → Action Dictionary Unit
  | [] => pure ()
  | name :: names => do
    let _ ← Dictionary.register name owner
    registerNames owner names

/-- Builds a structure that observes propositions, or tells which of them are none. -/
def create [Engine ε] (id : Nat) (engine : ε) (names : List String) (o : Options) :
    Action Dictionary (Except (List Diagnostic) (Kripke ε)) := do
  match ← PropositionList.compile (Engine.network engine) names o.dead.name? with
  | .error ds => pure (.error ds)
  | .ok props =>
    let owner ← Dictionary.newOwner
    let (alive, dead) ← markers owner o.dead
    match Pool.create id o.poolBits with
    | .error e => do
      props.close
      throw e
    | .ok pool =>
      let names := names ++ o.dead.name?.toList
      registerNames owner names
      pure (.ok {
        engine, pool
        aps := names.foldl addName []
        retired := none
        sessions := 0
        profile := {
          owner, props, alive, dead
          policy := o.dead
          keepIterator := o.keepIterator } })

/-- Ends the life of a structure: the registrations of both its parties are given up. -/
def close (k : Kripke ε) : Action Dictionary Unit := do
  let _ ← Dictionary.unregisterAll k.profile.owner
  k.profile.props.close

/-- Observes one more name and returns its variable. -/
def observe (name : String) : Action (World ε) UInt32 := do
  let owner := (← get).kripke.profile.owner
  let v ← onDict (Dictionary.register name owner)
  updateKripke fun k => { k with aps := addName k.aps name }
  pure v

/-! ## Sessions -/

/-- Whether a session is open. -/
def isExploring (k : Kripke ε) : Bool := 0 < k.sessions

/-- Opens a session: the engine keeps all its states meanwhile. -/
def openSession [Engine ε] : Action (World ε) Unit :=
  updateKripke fun k =>
    { k with engine := Engine.pause k.engine, sessions := k.sessions + 1 }

/-- Closes a session. -/
def closeSession [Engine ε] : Action (World ε) Unit := do
  onEngine Engine.resume
  updateKripke fun k => { k with sessions := k.sessions - 1 }

/-! ## States -/

/-- Why a structure has no initial state. -/
inductive StartError where
  | multiple
  | missing
deriving DecidableEq, Repr

/-- The diagnostic of a missing or ambiguous start. -/
def StartError.message : StartError → String
  | multiple => "Multiple initial states not supported."
  | missing => "the model has no initial state"

/-- The only initial state, as a handle of the caller's. -/
def initialState [Engine ε] : Action (World ε) (Except StartError Handle) := do
  match ← onEngine Engine.initial with
  | [] => pure (.error .missing)
  | [s] => do
    let h ← onPool (Pool.wrap s)
    pure (.ok h)
  | _ => pure (.error .multiple)

/-- The condition of a state: one literal for each compiled proposition. -/
def stateCondition (s : Handle) : Action (World ε) Edge := do
  let state ← World.state s
  let props := (← get).kripke.profile.props
  onDict (props.condition state)

/-- A state as text. -/
def formatState [Engine ε] (w : World ε) (s : Handle) : Except Fault String := do
  Engine.formatState w.kripke.engine (← w.kripke.pool.get s).state

/-! ## Successors -/

/-- What the pool and others refer to. -/
def inUse (pool : Pool) (others : InUse) : InUse := fun _ => pool.tokens ++ others ()

/-- The successors of a state according to the engine. -/
def engineSuccessors [Engine ε] (others : InUse) (state : EngineState) :
    Action (World ε) (List (Shared × Transition)) := do
  let pool := (← get).kripke.pool
  onEngine (Engine.outgoing (inUse pool others) state)

/-- Takes the iterator that was given back. -/
def takeRetired : Action (World ε) (Option Iterator) := fun ⟨dict, kripke⟩ =>
  .ok kripke.retired ⟨dict, { kripke with retired := none }⟩

/-- A fresh iterator, made from the one that was given back if there is one. -/
def freshIterator (cursor : Cursor) (cond : Edge) (selfLoop : Option Handle) :
    Action (World ε) Iterator := do
  match ← takeRetired with
  | some it => onPool (it.recycle cursor cond selfLoop)
  | none => do
    let home := (← get).kripke.pool.id
    pure (.fresh home cursor cond selfLoop)

/-- An iterator over the successors of a state. With successors, all edges carry the condition of the
state and the alive marker. Without, the state is its own successor under its condition and the dead
marker, unless these contradict each other. `others` tells what is referred to apart from the
pool. -/
def successors [Engine ε] (others : InUse) (s : Handle) : Action (World ε) Iterator := do
  let state ← World.state s
  let items ← engineSuccessors others state
  let profile := (← get).kripke.profile
  let cond ← onDict (profile.props.condition state)
  if items.isEmpty then
    let cond ← onDict (Dictionary.onDiagram (Manager.and cond profile.dead))
    if cond = .zero then freshIterator .empty cond none
    else
      let s ← onPool (Pool.clone s)
      freshIterator .empty cond (some s)
  else
    let cond ← onDict (Dictionary.onDiagram (Manager.and cond profile.alive))
    freshIterator (.ofList items) cond none

/-- Keeps an iterator for later, if it is one of this structure's and none is kept yet; tells
whether it was kept. -/
def retire (it : Iterator) : Action (World ε) Bool := do
  let k := (← get).kripke
  if !k.profile.keepIterator || it.home ≠ k.pool.id || k.retired.isSome then pure false
  else
    let it ← onPool (it.recycle .empty .zero none)
    updateKripke fun k => { k with retired := some it }
    pure true

/-- Takes an iterator of this structure's back. -/
def giveBack (it : Iterator) : Action (World ε) Unit := do
  if !(← retire it) then onPool it.close

/-! ## Text -/

/-- The state of a structure, as text. -/
def debugText [Engine ε] (k : Kripke ε) : String :=
  "Kripke \x7b system: " ++ Text.quote (Engine.network k.engine).name ++ ", semantics: " ++
    (Engine.semantics k.engine).label ++ ", dead: " ++ k.profile.policy.debugText ++
    ", propositions: " ++ toString k.profile.props.records.length ++ ", pool: " ++
    k.pool.debugText ++ ", phase: " ++
    (if k.isExploring then "Exploring" else "Constructed") ++ " \x7d"

end Kripke

end StateSpace
