import Std.Data.ExtTreeMap
import Std.Data.ExtTreeSet
import StateSpace.Diagram.Ite
import StateSpace.Diagram.Path

/-!
# Dictionaries of propositions

Every proposition is represented by one diagram variable. Several parties may register the same
name and share its variable; a name that no party holds any more is forgotten, and its variable is
not issued again before all others were.
-/

namespace StateSpace

/-- A party that registers names. Parties are numbered without a bound: the 2 ^ 64 numbers that there are
do not run out. -/
structure Owner where
  number : Nat
deriving DecidableEq, Repr, Inhabited

/-- An owner is shown by its number. -/
def Owner.render (o : Owner) : String := s!"owner#{o.number}"

instance : Ord Owner := ⟨compareOn Owner.number⟩

instance : Std.TransOrd Owner := inferInstanceAs (Std.TransCmp (compareOn Owner.number))

instance : Std.LawfulEqOrd Owner where
  eq_of_compare {a b} h := by
    have hnumber : a.number = b.number := Std.LawfulEqOrd.eq_of_compare h
    cases a
    cases b
    exact congrArg Owner.mk hnumber

/-- The name of a variable in use, and the parties that hold it. -/
structure Registration where
  name : String
  owners : Std.ExtTreeSet Owner := ∅
deriving DecidableEq

/-- The names with their variables, and the variables in use with their names and parties. The two maps
are kept apart: nothing but the operations has them agree. -/
structure Registry where
  byName : Std.ExtTreeMap String UInt32 := ∅
  vars : Std.ExtTreeMap UInt32 Registration := ∅
  /-- The variable of the next new name, which comes round again when all were issued. -/
  nextVar : UInt32 := 1
  lastOwner : Nat := 0
deriving DecidableEq

namespace Registry

/-- The variable of a registered name. -/
def varOf (r : Registry) (name : String) : Option UInt32 := r.byName[name]?

/-- The name of a variable in use. -/
def nameOf (r : Registry) (v : UInt32) : Option String := r.vars[v]?.map (·.name)

/-- The number of variables in use. -/
def size (r : Registry) : Nat := r.vars.size

/-- A party that was not there before. -/
def newOwner (r : Registry) : Owner × Registry :=
  (⟨r.lastOwner + 1⟩, { r with lastOwner := r.lastOwner + 1 })

/-- Adds a party to those that hold a variable, which gets the name if it was not in use. -/
def join (r : Registry) (v : UInt32) (name : String) (o : Owner) : Registry :=
  let e := r.vars[v]?.getD { name }
  { r with vars := r.vars.insert v { e with owners := e.owners.insert o } }

/-- The variable of a name, which the party holds from now on. -/
def register (r : Registry) (name : String) (o : Owner) : UInt32 × Registry :=
  match r.varOf name with
  | some v => (v, r.join v name o)
  | none =>
    let v := r.nextVar
    (v, join { r with byName := r.byName.insert name v, nextVar := v + 1 } v name o)

/-- The party gives up one variable, which is forgotten with its name when nobody is left. -/
def unregister (r : Registry) (v : UInt32) (o : Owner) : Registry :=
  match r.vars[v]? with
  | none => r
  | some e =>
    if o ∉ e.owners then r
    else if (e.owners.erase o).isEmpty then
      { r with vars := r.vars.erase v, byName := r.byName.erase e.name }
    else { r with vars := r.vars.insert v { e with owners := e.owners.erase o } }

/-- The variables that a party holds, in ascending order. -/
def heldBy (r : Registry) (o : Owner) : List UInt32 :=
  (r.vars.toList.filter fun x => o ∈ x.2.owners).map (·.1)

/-- The party gives up every variable, one after the other; counts how many it held. -/
def unregisterAll (r : Registry) (o : Owner) : Nat × Registry :=
  let vs := r.heldBy o
  (vs.length, vs.foldl (fun r v => r.unregister v o) r)

end Registry

/-- A diagram manager and the names of its variables. -/
structure Dictionary where
  diagram : Manager
  registry : Registry

namespace Dictionary

/-- A dictionary without names. -/
def create (bits : Nat) : Except Fault Dictionary := do
  .ok { diagram := ← Manager.create bits, registry := {} }

/-- An action on the diagram of a dictionary. -/
def onDiagram {α : Type} (x : Action Manager α) : Action Dictionary α :=
  fun { diagram, registry } =>
    match x diagram with
    | .ok a diagram => .ok a { diagram, registry }
    | .error e diagram => .error e { diagram, registry }

/-- An action on the names of a dictionary. -/
def onRegistry {α : Type} (f : Registry → α × Registry) : Action Dictionary α :=
  fun { diagram, registry } =>
    match f registry with
    | (a, registry) => .ok a { diagram, registry }

/-- A party that was not there before. -/
def newOwner : Action Dictionary Owner := onRegistry (·.newOwner)

/-- The variable of a name, which the party holds from now on. -/
def register (name : String) (o : Owner) : Action Dictionary UInt32 :=
  onRegistry (·.register name o)

/-- The party gives up one variable. -/
def unregister (v : UInt32) (o : Owner) : Action Dictionary Unit :=
  onRegistry fun r => ((), r.unregister v o)

/-- The party gives up every variable; counts how many it held. -/
def unregisterAll (o : Owner) : Action Dictionary Nat := onRegistry (·.unregisterAll o)

/-- A literal, named after its variable or numbered if that has no name. -/
def formatLiteral (d : Dictionary) (lit : Int32) : String :=
  let v := Manager.literalVar lit
  let name := (d.registry.nameOf v).getD ("x" ++ toString v)
  if lit < 0 then "!" ++ name else name

/-- A condition as the conjunction of the literals on one satisfying path. -/
def formatCondition (d : Dictionary) (e : Edge) : Except Fault String := do
  match ← d.diagram.satisfyingPath e with
  | none => .ok "0"
  | some [] => .ok "1"
  | some lits => .ok (" & ".intercalate (lits.map d.formatLiteral))

end Dictionary

end StateSpace
