import StateSpace.Table
import StateSpace.OpCache
import StateSpace.Diagram.Edge

/-!
# Decision diagram managers

Boolean functions are shared nodes of a reduced ordered diagram with complement edges. Nodes are
stored once each, the high edge of a stored node is never complemented, and variables are numbered
from 1, smaller ones nearer to the root. A manager holds the nodes and a cache of results.
-/

namespace StateSpace

/-- A decision on a variable. -/
structure Node where
  var : UInt32
  low : Edge
  high : Edge
deriving DecidableEq, Repr, Inhabited

instance : WordHash Node :=
  ⟨fun n => pair3 n.var.toUInt64 n.low.literalCode.toUInt64 n.high.literalCode.toUInt64⟩

/-- The nodes of a diagram and the results of earlier operations on them. -/
structure Manager where
  nodes : Table Node
  cache : OpCache (Edge × Edge × Edge) Edge

namespace Manager

/-- A manager whose only node is the terminal. -/
def create (bits : Nat) : Except Fault Manager := do
  let nodes ← Table.create bits
  let cache ← OpCache.create (min bits 16)
  match Table.add default nodes with
  | .ok _ nodes => .ok { nodes, cache }
  | .error e _ => .error e

/-- Storage bits of a manager that nobody sized. -/
def defaultBits : Nat := 16

/-! ## Reading nodes -/

/-- The variable of an edge's node, 0 for the terminal. -/
def variableOf (d : Manager) (e : Edge) : Except Fault UInt32 :=
  (d.nodes.get e.index).map (·.var)

/-- The place of an edge's node in the order; the terminal is below every variable. -/
def level (d : Manager) (e : Edge) : Except Fault UInt32 :=
  if e.isTerminal then .ok 0xFFFFFFFF else d.variableOf e

/-- The function of an edge where the variable of its node is false. -/
def low (d : Manager) (e : Edge) : Except Fault Edge :=
  (d.nodes.get e.index).map fun n => if e.isComplemented then -n.low else n.low

/-- The function of an edge where the variable of its node is true. -/
def high (d : Manager) (e : Edge) : Except Fault Edge :=
  (d.nodes.get e.index).map fun n => if e.isComplemented then -n.high else n.high

/-- Both restrictions of an edge by the variable `v`, if its node decides on `v`. -/
def cofactors (d : Manager) (e : Edge) (v : UInt32) : Except Fault (Edge × Edge) := do
  if (← d.level e) = v then
    let l ← d.low e
    let h ← d.high e
    .ok (l, h)
  else .ok (e, e)

/-- The number of stored nodes, the terminal among them. -/
def nodeCount (d : Manager) : Nat := d.nodes.live

/-! ## Making nodes -/

/-- The edge to a stored node. -/
def store (n : Node) : Action Manager Edge := fun { nodes, cache } =>
  match Table.put n nodes with
  | .ok i nodes => .ok (.ofIndex i) { nodes, cache }
  | .error e nodes => .error e { nodes, cache }

/-- The function that is `high` where `v` is true and `low` where it is false. Equal branches need
no node, and a complement on the high edge moves to the result. -/
def node (v : UInt32) (low high : Edge) : Action Manager Edge :=
  if v = 0 then throw .zeroVariable
  else if low = high then pure low
  else if high.isComplemented then do
    let e ← store ⟨v, -low, -high⟩
    pure (-e)
  else store ⟨v, low, high⟩

/-- The function of a single variable. -/
def var (v : UInt32) : Action Manager Edge := node v .zero .one

/-- The variable of a signed literal. -/
def literalVar (lit : Int32) : UInt32 := UInt32.ofNat lit.toInt.natAbs

/-- Adds one literal above a conjunction of literals of larger variables. -/
def addLiteral (rest : Edge) (lit : Int32) : Action Manager Edge :=
  if lit < 0 then node (literalVar lit) rest .zero else node (literalVar lit) .zero rest

/-- The conjunction of signed literals, built from the largest variable upwards. -/
def cube (lits : List Int32) : Action Manager Edge :=
  (lits.mergeSort fun a b => literalVar b ≤ literalVar a).foldlM addLiteral .one

/-! ## The cache -/

/-- Asks the cache for a result. -/
def lookUp (key : Edge × Edge × Edge) : Action Manager (Option Edge) := fun { nodes, cache } =>
  match cache.get key with
  | (r, cache) => .ok r { nodes, cache }

/-- Tells the cache a result. -/
def remember (key : Edge × Edge × Edge) (r : Edge) : Action Manager Unit :=
  fun { nodes, cache } => .ok () { nodes, cache := cache.insert key r }

/-- The counters of a manager, as text. -/
def debugText (d : Manager) : String :=
  "Bdd \x7b nodes: " ++ toString d.nodeCount ++ ", cache_hits: " ++ toString d.cache.hits ++
    ", cache_misses: " ++ toString d.cache.misses ++ " \x7d"

end Manager

end StateSpace
