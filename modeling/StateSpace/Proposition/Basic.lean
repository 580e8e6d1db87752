import StateSpace.Configuration

/-!
# Atoms

An atom compares a variable with a constant, or says that a process is in a location.
-/

namespace StateSpace

/-- How a variable is compared with a constant. -/
inductive Comparator where
  | eq
  | ne
  | lt
  | gt
  | le
  | ge
deriving DecidableEq, Repr

/-- Whether a comparison holds. -/
def Comparator.holds : Comparator → Int32 → Int32 → Bool
  | eq, a, b => a == b
  | ne, a, b => a != b
  | lt, a, b => a < b
  | gt, a, b => b < a
  | le, a, b => a ≤ b
  | ge, a, b => b ≤ a

/-- The name of a comparator. -/
def Comparator.label : Comparator → String
  | eq => "Eq"
  | ne => "Ne"
  | lt => "Lt"
  | gt => "Gt"
  | le => "Le"
  | ge => "Ge"

/-- A statement about a state. -/
inductive Atom where
  | compare (var : Nat) (op : Comparator) (value : Int32)
  | atLocation (process location : Nat)
deriving DecidableEq, Repr

/-- Whether an atom holds on a state. -/
def Atom.holds (s : EngineState) : Atom → Except Fault Bool
  | compare var op value => (s.int var).map (op.holds · value)
  | atLocation process location => (s.location process).map (· == location)

/-- A compiled proposition: an atom and the variable that stands for it. -/
structure Proposition where
  atom : Atom
  var : UInt32
deriving DecidableEq, Repr

end StateSpace
