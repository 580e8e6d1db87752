import StateSpace.Text.Blank
import StateSpace.Expr.Basic

/-!
# Tokens of expressions

A text is cut into numbers, identifiers and signs; blanks separate them and are otherwise skipped.
Runs of digits and of identifier characters are taken as long as possible, and so are signs.
-/

namespace StateSpace

/-- The signs of the expression language. -/
inductive Sign where
  | eqEq
  | notEq
  | lessEq
  | greaterEq
  | andAnd
  | orOr
  | less
  | greater
  | plus
  | minus
  | times
  | slash
  | percent
  | bang
  | leftParen
  | rightParen
  | assign
  | comma
deriving DecidableEq, Repr

/-- How a sign is written. -/
def Sign.text : Sign → String
  | eqEq => "=="
  | notEq => "!="
  | lessEq => "<="
  | greaterEq => ">="
  | andAnd => "&&"
  | orOr => "||"
  | less => "<"
  | greater => ">"
  | plus => "+"
  | minus => "-"
  | times => "*"
  | slash => "/"
  | percent => "%"
  | bang => "!"
  | leftParen => "("
  | rightParen => ")"
  | assign => "="
  | comma => ","

/-- The sign that a text starts with and the text behind it; of two signs the longer one. -/
def Sign.first? : List Char → Option (Sign × List Char)
  | '=' :: '=' :: cs => some (eqEq, cs)
  | '!' :: '=' :: cs => some (notEq, cs)
  | '<' :: '=' :: cs => some (lessEq, cs)
  | '>' :: '=' :: cs => some (greaterEq, cs)
  | '&' :: '&' :: cs => some (andAnd, cs)
  | '|' :: '|' :: cs => some (orOr, cs)
  | '<' :: cs => some (less, cs)
  | '>' :: cs => some (greater, cs)
  | '+' :: cs => some (plus, cs)
  | '-' :: cs => some (minus, cs)
  | '*' :: cs => some (times, cs)
  | '/' :: cs => some (slash, cs)
  | '%' :: cs => some (percent, cs)
  | '!' :: cs => some (bang, cs)
  | '(' :: cs => some (leftParen, cs)
  | ')' :: cs => some (rightParen, cs)
  | '=' :: cs => some (assign, cs)
  | ',' :: cs => some (comma, cs)
  | _ => none

/-- A number, an identifier or a sign. -/
inductive Token where
  | num (value : Int64)
  | ident (name : String)
  | sign (s : Sign)
deriving DecidableEq, Repr

/-- Why a text is not an expression or a statement. -/
inductive SyntaxError where
  | integerRange (digits : String)
  | unexpectedChar (c : Char)
  | unknownVariable (name : String)
  | missingParen
  | unexpectedSign (s : Sign)
  | unexpectedEnd
  | trailingTokens (text : String)
  | notAssignment (text : String)
  | missingValue (text : String)
deriving DecidableEq, Repr

/-- The diagnostic of a syntax error. -/
def SyntaxError.message : SyntaxError → String
  | integerRange digits => "integer `" ++ digits ++ "' out of range"
  | unexpectedChar c => "unexpected character `" ++ String.singleton c ++ "'"
  | unknownVariable name => "unknown variable `" ++ name ++ "'"
  | missingParen => "missing `)'"
  | unexpectedSign s => "unexpected `" ++ s.text ++ "'"
  | unexpectedEnd => "unexpected end of expression"
  | trailingTokens text => "trailing tokens in `" ++ text ++ "'"
  | notAssignment text => "expected an assignment, found `" ++ text ++ "'"
  | missingValue text => "missing value in `" ++ text ++ "'"

namespace Token

/-- Characters that an identifier may start with. -/
def isIdentStart (c : Char) : Bool := c.isAlpha || c == '_'

/-- Characters that an identifier may go on with. -/
def isIdentChar (c : Char) : Bool := c.isAlphanum || c == '_'

/-- The largest number that an expression may hold. -/
def maxNumber : Nat := 0x7FFFFFFFFFFFFFFF

/-- The token that a text starts with, the first character not being blank, and the text behind. -/
def first (c : Char) (cs : List Char) : Except SyntaxError (Token × List Char) :=
  if c.isDigit then
    let digits := c :: cs.takeWhile Char.isDigit
    if Text.decimal digits ≤ maxNumber then
      .ok (num (Int64.ofNat (Text.decimal digits)), cs.dropWhile Char.isDigit)
    else .error (.integerRange (String.ofList digits))
  else if isIdentStart c then
    .ok (ident (String.ofList (c :: cs.takeWhile isIdentChar)), cs.dropWhile isIdentChar)
  else match Sign.first? (c :: cs) with
    | some (s, rest) => .ok (sign s, rest)
    | none => .error (.unexpectedChar c)

theorem length_dropWhile_le {α : Type} (p : α → Bool) (l : List α) :
    (l.dropWhile p).length ≤ l.length :=
  (l.dropWhile_sublist p).length_le

theorem length_of_sign {c : Char} {cs rest : List Char} {s : Sign}
    (h : Sign.first? (c :: cs) = some (s, rest)) : rest.length ≤ cs.length := by
  unfold Sign.first? at h
  split at h <;> simp_all

/-- A token takes at least one character. -/
theorem length_of_first {c : Char} {cs rest : List Char} {t : Token}
    (h : first c cs = .ok (t, rest)) : rest.length ≤ cs.length := by
  unfold first at h
  simp only at h
  split at h
  · split at h
    · cases h
      exact length_dropWhile_le _ _
    · cases h
  · split at h
    · cases h
      exact length_dropWhile_le _ _
    · split at h
      · next hs =>
        cases h
        exact length_of_sign hs
      · cases h

/-- The tokens of a text. -/
def scan : List Char → Except SyntaxError (List Token)
  | [] => .ok []
  | c :: cs =>
    if Text.isBlank c then scan cs
    else match _h : first c cs with
      | .error e => .error e
      | .ok (t, rest) =>
        match scan rest with
        | .error e => .error e
        | .ok ts => .ok (t :: ts)
termination_by cs => cs.length
decreasing_by
  · simp
  · have := length_of_first _h
    simp
    omega

end Token

end StateSpace
