/-!
# Expressions

Guards, invariants and updates are expressions over integer constants, bounded integer variables and
clocks. Truth values are the integers 0 and 1. The written form has brackets around every compound,
so it does not depend on how operators bind.
-/

namespace StateSpace

/-- What an identifier stands for. -/
inductive Symbol where
  | int (id : Nat)
  | clock (id : Nat)
deriving DecidableEq, Repr

/-- Operators with one operand. -/
inductive UnaryOp where
  | neg
  | not
deriving DecidableEq, Repr

/-- Operators with two operands. -/
inductive BinaryOp where
  | add
  | sub
  | mul
  | div
  | mod
  | eq
  | ne
  | lt
  | le
  | gt
  | ge
  | and
  | or
deriving DecidableEq, Repr

/-- An expression over numbered variables and clocks. -/
inductive Expr where
  | const (value : Int64)
  | int (id : Nat)
  | clock (id : Nat)
  | unary (op : UnaryOp) (operand : Expr)
  | binary (op : BinaryOp) (left right : Expr)
deriving DecidableEq, Repr

/-- An assignment of an expression. -/
inductive Update where
  | int (id : Nat) (value : Expr)
  | clock (id : Nat) (value : Expr)
deriving DecidableEq, Repr

/-- How an operator is written between its operands. -/
def BinaryOp.text : BinaryOp → String
  | add => "+"
  | sub => "-"
  | mul => "*"
  | div => "/"
  | mod => "%"
  | eq => "=="
  | ne => "!="
  | lt => "<"
  | le => "<="
  | gt => ">"
  | ge => ">="
  | and => "&&"
  | or => "||"

namespace Expr

/-- The expression that always holds. -/
def always : Expr := const 1

/-- Whether a clock occurs in the expression. -/
def mentionsClock : Expr → Bool
  | const _ => false
  | int _ => false
  | clock _ => true
  | unary _ e => e.mentionsClock
  | binary _ l r => l.mentionsClock || r.mentionsClock

/-- The written form, with variables as `i0`, `i1`, … and clocks as `c0`, `c1`, … -/
def render : Expr → String
  | const n => toString n.toInt
  | int id => "i" ++ toString id
  | clock id => "c" ++ toString id
  | unary .neg e => "-(" ++ e.render ++ ")"
  | unary .not e => "!(" ++ e.render ++ ")"
  | binary op l r => "(" ++ l.render ++ " " ++ op.text ++ " " ++ r.render ++ ")"

end Expr

/-- The written form of an assignment. -/
def Update.render : Update → String
  | int id e => "i" ++ toString id ++ " = " ++ e.render
  | clock id e => "c" ++ toString id ++ " = " ++ e.render

end StateSpace
