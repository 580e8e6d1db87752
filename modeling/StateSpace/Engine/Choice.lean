import StateSpace.Engine.Graph
import StateSpace.Engine.Tabulated

/-!
# A choice of engines

Structures over different engines can share a workspace when their engines have one type.
-/

namespace StateSpace

/-- One of the engines of this library. -/
inductive EngineChoice where
  | graph (g : Graph)
  | tabulated (t : Tabulated)

namespace EngineChoice

/-- Runs the action that belongs to the chosen engine. -/
def run {α : Type} (onGraph : Action Graph α) (onTable : Action Tabulated α) :
    Action EngineChoice α
  | graph g =>
    match onGraph g with
    | .ok a g => .ok a (graph g)
    | .error e g => .error e (graph g)
  | tabulated t =>
    match onTable t with
    | .ok a t => .ok a (tabulated t)
    | .error e t => .error e (tabulated t)

instance : Engine EngineChoice where
  network
    | graph g => Engine.network g
    | tabulated t => Engine.network t
  semantics
    | graph g => Engine.semantics g
    | tabulated t => Engine.semantics t
  initial := run Engine.initial Engine.initial
  outgoing inUse s := run (Engine.outgoing inUse s) (Engine.outgoing inUse s)
  formatState
    | graph g => Engine.formatState g
    | tabulated t => Engine.formatState t
  reclaim tokens
    | graph g =>
      let (k, g) := Engine.reclaim tokens g
      (k, graph g)
    | tabulated t =>
      let (k, t) := Engine.reclaim tokens t
      (k, tabulated t)
  pause
    | graph g => graph (Engine.pause g)
    | tabulated t => tabulated (Engine.pause t)
  resume := run Engine.resume Engine.resume
  bound
    | graph g => Engine.bound g
    | tabulated t => Engine.bound t

end EngineChoice

end StateSpace
