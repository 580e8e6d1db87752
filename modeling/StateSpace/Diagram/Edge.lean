import StateSpace.Pairing

/-!
# Signed edges

An edge of a decision diagram is the index of a node with a sign: a negative edge stands for the
complement of the function of its node. Node 1 is the terminal, so edge 1 is the constant true and
edge -1 the constant false.
-/

namespace StateSpace

/-- A node index with a sign, in one 32-bit word. -/
structure Edge where
  code : Int32
deriving DecidableEq, Repr, Inhabited

namespace Edge

/-- The plain edge to a node. -/
def ofIndex (i : Nat) : Edge := ⟨Int32.ofNat i⟩

/-- The complement. -/
def neg (e : Edge) : Edge := ⟨-e.code⟩

instance : Neg Edge := ⟨neg⟩

/-- The constant true. -/
def one : Edge := ⟨1⟩

/-- The constant false. -/
def zero : Edge := ⟨-1⟩

/-- Whether the edge stands for the complement of its node. -/
def isComplemented (e : Edge) : Bool := e.code < 0

/-- The node that the edge leads to. -/
def index (e : Edge) : Nat := e.code.toInt.natAbs

/-- Whether the edge leads to the terminal. -/
def isTerminal (e : Edge) : Bool := e.index == 1

/-- The edge as an even or odd word, one for each sign of an index. -/
def literalCode (e : Edge) : UInt32 :=
  (UInt32.ofNat e.index <<< 1) + (if e.isComplemented then 1 else 0)

instance : WordHash (Edge × Edge × Edge) :=
  ⟨fun k => pair3 k.1.literalCode.toUInt64 k.2.1.literalCode.toUInt64 k.2.2.literalCode.toUInt64⟩

/-- An edge is written as its index behind an at sign, with a tilde for the complement. -/
def render (e : Edge) : String :=
  (if e.isComplemented then "~@" else "@") ++ toString e.index

end Edge

end StateSpace
