import StateSpace.Text.Quoted

/-!
# Dead states

A state without successors ends every run through it. The policy says how such runs are seen: not at
all, as a loop like any other, or as a loop on which a proposition of its own holds.
-/

namespace StateSpace

/-- How a state without successors is seen. -/
inductive DeadPolicy where
  /-- It has no successor. -/
  | ignore
  /-- It is its own successor. -/
  | loop
  /-- It is its own successor, under a proposition that no other edge satisfies. -/
  | labelled (name : String)
deriving DecidableEq, Repr

namespace DeadPolicy

/-- The policy that is used unless another one is asked for. -/
def standard : DeadPolicy := loop

/-- Reads a policy: any text but two names a proposition. -/
def ofText : String → DeadPolicy
  | "false" => ignore
  | "true" => loop
  | name => labelled name

/-- A policy as text. -/
def text : DeadPolicy → String
  | ignore => "false"
  | loop => "true"
  | labelled name => name

/-- The proposition that marks the loops. -/
def name? : DeadPolicy → Option String
  | labelled name => some name
  | _ => none

/-- The name of a policy, without its proposition. -/
def label : DeadPolicy → String
  | ignore => "Ignore"
  | loop => "LoopUnlabeled"
  | labelled _ => "LoopLabeled"

/-- The name of a policy, with its proposition. -/
def debugText (p : DeadPolicy) : String :=
  match p.name? with
  | some name => p.label ++ "(" ++ Text.quote name ++ ")"
  | none => p.label

end DeadPolicy

end StateSpace
