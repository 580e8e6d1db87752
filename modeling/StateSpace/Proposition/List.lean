import StateSpace.Dictionary
import StateSpace.Proposition.Parser

/-!
# Lists of propositions

The propositions of a structure are compiled together, each name once and in order. Either all of
them are registered, by a party of their own, or all rejected ones are reported and none stays
registered. A state is labelled with the conjunction of one literal for each proposition.
-/

namespace StateSpace

/-- Compiled propositions and the party that registered them. -/
structure PropositionList where
  owner : Owner
  records : List Proposition
deriving Repr

namespace PropositionList

/-- Puts a name into an ascending list, unless it is there already. -/
def insertName (a : String) : List String → List String
  | [] => [a]
  | b :: bs =>
    if a = b then b :: bs
    else if a < b then a :: b :: bs
    else b :: insertName a bs

/-- The names of a list in ascending order, each once. -/
def distinctNames (names : List String) : List String := names.foldr insertName []

/-- Registers the names that are propositions; tells the records and the diagnostics. -/
def registerAll (n : Network) (owner : Owner) :
    List String → Action Dictionary (List Proposition × List Diagnostic)
  | [] => pure ([], [])
  | name :: names =>
    match Atom.parse n name.toList with
    | .ok atom => do
      let var ← Dictionary.register name owner
      let (records, diagnostics) ← registerAll n owner names
      pure (⟨atom, var⟩ :: records, diagnostics)
    | .error d => do
      let (records, diagnostics) ← registerAll n owner names
      pure (records, d :: diagnostics)

/-- Compiles propositions about a network, apart from the name of dead states. -/
def compile (n : Network) (names : List String) (dead : Option String) :
    Action Dictionary (Except (List Diagnostic) PropositionList) := do
  let owner ← Dictionary.newOwner
  let names := (distinctNames names).filter fun name => some name ≠ dead
  let (records, diagnostics) ← registerAll n owner names
  if diagnostics.isEmpty then pure (.ok { owner, records })
  else
    let _ ← Dictionary.unregisterAll owner
    pure (.error diagnostics)

/-- The diagnostics of rejected propositions, one to a line. -/
def report (ds : List Diagnostic) : String := String.join (ds.map fun d => d.message ++ "\n")

/-- Ends the life of a list: its registrations are given up. -/
def close (l : PropositionList) : Action Dictionary Unit := do
  let _ ← Dictionary.unregisterAll l.owner

/-- The literal of a proposition on a state, positive if it holds. -/
def literal (s : EngineState) (p : Proposition) : Action Dictionary Edge := do
  let x ← Dictionary.onDiagram (Manager.var p.var)
  if ← Action.ofExcept (p.atom.holds s) then pure x else pure (-x)

/-- Continues a conjunction with the literal of a proposition. -/
def addCondition (s : EngineState) (acc : Edge) (p : Proposition) : Action Dictionary Edge := do
  let x ← literal s p
  Dictionary.onDiagram (Manager.and acc x)

/-- The conjunction of one literal for each proposition. -/
def condition (l : PropositionList) (s : EngineState) : Action Dictionary Edge :=
  l.records.foldlM (addCondition s) .one

end PropositionList

end StateSpace
