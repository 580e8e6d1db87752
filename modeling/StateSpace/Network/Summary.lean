import StateSpace.Network.Basic

/-!
# What a network offers

The names that propositions may use, and a bound on the number of discrete configurations.
-/

namespace StateSpace.Network

/-- The product of a list of numbers. -/
def product (ns : List Nat) : Nat := ns.foldr (· * ·) 1

/-- The number of location vectors times the number of valuations. -/
def configurationBound (n : Network) : Nat :=
  product (n.byProcess.toList.map List.length) * product (n.domains.toList.map Domain.size)

/-- The line that offers a location. -/
def locationLine (n : Network) (l : Location) : String :=
  "- " ++ (n.processes.get? l.process).getD "" ++ "." ++ l.name ++ "\n"

/-- The line that offers a variable. -/
def variableLine (name : String) (d : Domain) : String :=
  "- " ++ name ++ " (" ++ toString d.min.toInt ++ ".." ++ toString d.max.toInt ++ ")\n"

/-- The names that propositions may use, one to a line. -/
def offer (n : Network) : String :=
  (if n.locations.isEmpty then ""
   else "The following location(s) may be used in the formula:\n" ++
     String.join (n.locations.toList.map n.locationLine)) ++
  (if n.ints.size = 0 then ""
   else "The following variable(s) may be used in the formula:\n" ++
     String.join (List.zipWith variableLine n.ints.names.toList n.domains.toList))

end StateSpace.Network
