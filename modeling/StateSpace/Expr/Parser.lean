import StateSpace.Expr.Token

/-!
# Reading expressions and statements

Disjunction binds weakest, then conjunction, comparison, addition, multiplication and the operators
with one operand. Repeated operators group to the left, and comparisons do not chain. An empty text
is the expression that always holds. A statement is a sequence of assignments between semicolons;
`nop` is an assignment of nothing.
-/

namespace StateSpace

namespace Parser

/-- Reads an expression off the front of a token list. -/
abbrev Reader := List Token → Except SyntaxError (Expr × List Token)

/-! ## Operators by binding strength -/

/-- Disjunction. -/
def orOp? : Sign → Option BinaryOp
  | .orOr => some .or
  | _ => none

/-- Conjunction. -/
def andOp? : Sign → Option BinaryOp
  | .andAnd => some .and
  | _ => none

/-- Comparisons. -/
def compareOp? : Sign → Option BinaryOp
  | .eqEq => some .eq
  | .notEq => some .ne
  | .lessEq => some .le
  | .greaterEq => some .ge
  | .less => some .lt
  | .greater => some .gt
  | _ => none

/-- Addition and subtraction. -/
def addOp? : Sign → Option BinaryOp
  | .plus => some .add
  | .minus => some .sub
  | _ => none

/-- Multiplication, division and remainder. -/
def mulOp? : Sign → Option BinaryOp
  | .times => some .mul
  | .slash => some .div
  | .percent => some .mod
  | _ => none

/-! ## Levels -/

/-- Extends an expression to the right by at most `fuel` operators of one level. -/
def chainFrom (op? : Sign → Option BinaryOp) (next : Reader) : Nat → Expr → Reader
  | 0, left, ts => .ok (left, ts)
  | fuel + 1, left, .sign s :: ts =>
    match op? s with
    | some op => do
      let (right, ts) ← next ts
      chainFrom op? next fuel (.binary op left right) ts
    | none => .ok (left, .sign s :: ts)
  | _, left, ts => .ok (left, ts)

/-- A chain of operators of one level. Every operator takes a token, so their number bounds it. -/
def chain (op? : Sign → Option BinaryOp) (next : Reader) : Reader := fun ts => do
  let (left, ts) ← next ts
  chainFrom op? next ts.length left ts

/-- At most one operator of a level. -/
def single (op? : Sign → Option BinaryOp) (next : Reader) : Reader := fun ts => do
  let (left, ts) ← next ts
  match ts with
  | .sign s :: rest =>
    match op? s with
    | some op => do
      let (right, rest) ← next rest
      .ok (.binary op left right, rest)
    | none => .ok (left, ts)
  | _ => .ok (left, ts)

/-- All levels with two operands, over a reader of operands. -/
def levels (operand : Reader) : Reader :=
  chain orOp? (chain andOp? (single compareOp? (chain addOp? (chain mulOp? operand))))

/-- An operand: a number, an identifier, a bracketed expression or an operator with one operand,
nested at most `fuel` deep. -/
def operand (resolve : String → Option Symbol) : Nat → Reader
  | 0, _ => .error .unexpectedEnd
  | fuel + 1, ts =>
    match ts with
    | [] => .error .unexpectedEnd
    | .num n :: ts => .ok (.const n, ts)
    | .ident name :: ts =>
      match resolve name with
      | some (.int id) => .ok (.int id, ts)
      | some (.clock id) => .ok (.clock id, ts)
      | none => .error (.unknownVariable name)
    | .sign .minus :: ts => do
      let (e, ts) ← operand resolve fuel ts
      .ok (.unary .neg e, ts)
    | .sign .bang :: ts => do
      let (e, ts) ← operand resolve fuel ts
      .ok (.unary .not e, ts)
    | .sign .leftParen :: ts => do
      let (e, ts) ← levels (operand resolve fuel) ts
      match ts with
      | .sign .rightParen :: ts => .ok (e, ts)
      | _ => .error .missingParen
    | .sign s :: _ => .error (.unexpectedSign s)

/-- An expression off the front of a token list; nesting takes a token per level. -/
def expression (resolve : String → Option Symbol) : Reader := fun ts =>
  levels (operand resolve (ts.length + 1)) ts

end Parser

/-- Reads a guard or an invariant. -/
def Expr.parse (resolve : String → Option Symbol) (text : List Char) :
    Except SyntaxError Expr := do
  match ← Token.scan text with
  | [] => .ok .always
  | ts =>
    let (e, rest) ← Parser.expression resolve ts
    if rest.isEmpty then .ok e
    else .error (.trailingTokens (String.ofList (Text.trim text)))

namespace Update

/-- Reads one assignment. -/
def parse (resolve : String → Option Symbol) (text : List Char) : Except SyntaxError Update :=
  match Text.cut '=' text with
  | (_, none) => .error (.notAssignment (String.ofList text))
  | (_, some ('=' :: _)) => .error (.notAssignment (String.ofList text))
  | (left, some right) => do
    if (Text.trim right).isEmpty then throw (.missingValue (String.ofList text))
    let value ← Expr.parse resolve right
    let name := String.ofList (Text.trim left)
    match resolve name with
    | some (.int id) => .ok (.int id value)
    | some (.clock id) => .ok (.clock id value)
    | none => .error (.unknownVariable name)

/-- Whether a part of a statement assigns nothing. -/
def isNop (part : List Char) : Bool := part.isEmpty || part == ['n', 'o', 'p']

/-- Reads a statement. -/
def parseAll (resolve : String → Option Symbol) (text : List Char) :
    Except SyntaxError (List Update) :=
  (((Text.pieces ';' text).map Text.trim).filter (!isNop ·)).mapM (parse resolve)

end Update

end StateSpace
