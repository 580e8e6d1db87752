import StateSpace.Diagram.Manager

/-!
# If-then-else

Every connective is an if-then-else. Its operands are first brought into a form without complements
on the condition and the positive branch, so that equivalent calls share a cache entry; then the
topmost variable is split off and the two halves are solved on their own.
-/

namespace StateSpace.Manager

/-- The calls whose answer is one of the operands. -/
def iteTerminal (f g h : Edge) : Option Edge :=
  if f = .one then some g
  else if f = .zero then some h
  else if g = h then some g
  else if g = .one ∧ h = .zero then some f
  else if g = .zero ∧ h = .one then some (-f)
  else none

/-- A call without complements on its first two operands, and whether its answer is complemented. -/
def iteNormal (f g h : Edge) : (Edge × Edge × Edge) × Bool :=
  let (f, g, h) := if f.isComplemented then (-f, h, g) else (f, g, h)
  if g.isComplemented then ((f, -g, -h), true) else ((f, g, h), false)

/-- The topmost variable of three functions. -/
def topVariable (d : Manager) (f g h : Edge) : Except Fault UInt32 := do
  let a ← d.level f
  let b ← d.level g
  let c ← d.level h
  .ok (min (min a b) c)

/-- The two halves of a call, split at its topmost variable. -/
def split (d : Manager) (f g h : Edge) :
    Except Fault (UInt32 × (Edge × Edge × Edge) × (Edge × Edge × Edge)) := do
  let v ← d.topVariable f g h
  let (f₀, f₁) ← d.cofactors f v
  let (g₀, g₁) ← d.cofactors g v
  let (h₀, h₁) ← d.cofactors h v
  .ok (v, (f₀, g₀, h₀), (f₁, g₁, h₁))

/-- If-then-else along at most `fuel` splits. -/
def iteWithin : Nat → Edge → Edge → Edge → Action Manager Edge
  | 0, _, g, _ => pure g
  | fuel + 1, f, g, h =>
    match iteTerminal f g h with
    | some r => pure r
    | none => do
      let ((f, g, h), negated) := iteNormal f g h
      let r ← do
        match ← lookUp (f, g, h) with
        | some r => pure r
        | none =>
          let (v, (f₀, g₀, h₀), (f₁, g₁, h₁)) ← Action.reading (·.split f g h)
          let low ← iteWithin fuel f₀ g₀ h₀
          let high ← iteWithin fuel f₁ g₁ h₁
          let r ← node v low high
          remember (f, g, h) r
          pure r
      pure (if negated then -r else r)

/-- The function that is `g` where `f` holds and `h` elsewhere. A split replaces an operand by a
child, which is stored before its parent, so the indices bound the number of splits. -/
def ite (f g h : Edge) : Action Manager Edge :=
  iteWithin (f.index + g.index + h.index + 1) f g h

/-- Conjunction. -/
def and (f g : Edge) : Action Manager Edge := ite f g .zero

/-- The conjunction of a list of functions, taken from the left. -/
def andMany (fs : List Edge) : Action Manager Edge := fs.foldlM and .one

end StateSpace.Manager
