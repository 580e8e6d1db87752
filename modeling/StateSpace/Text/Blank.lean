/-!
# Blanks and pieces of text

Texts are read as lists of characters. Blank characters are those with the White_Space property.
-/

namespace StateSpace.Text

/-- The White_Space property. -/
def isBlank (c : Char) : Bool :=
  let n := c.toNat
  (0x9 ≤ n && n ≤ 0xD) || n == 0x20 || n == 0x85 || n == 0xA0 || n == 0x1680 ||
    (0x2000 ≤ n && n ≤ 0x200A) || n == 0x2028 || n == 0x2029 || n == 0x202F || n == 0x205F ||
    n == 0x3000

/-- A text without its leading blanks. -/
def trimLeft (cs : List Char) : List Char := cs.dropWhile isBlank

/-- A text without its leading and trailing blanks. -/
def trim (cs : List Char) : List Char := (trimLeft (trimLeft cs).reverse).reverse

/-- The part of a text before the first occurrence of a character, and the part behind it if there
is one. -/
def cut (sep : Char) (cs : List Char) : List Char × Option (List Char) :=
  match cs.dropWhile (· ≠ sep) with
  | [] => (cs, none)
  | _ :: after => (cs.takeWhile (· ≠ sep), some after)

/-- The pieces of a text between the occurrences of a character, where the first piece has already
begun with the reverse of `seen`. -/
def piecesFrom (sep : Char) (seen : List Char) : List Char → List (List Char)
  | [] => [seen.reverse]
  | c :: cs =>
    if c = sep then seen.reverse :: piecesFrom sep [] cs else piecesFrom sep (c :: seen) cs

/-- The pieces of a text between the occurrences of a character. -/
def pieces (sep : Char) (cs : List Char) : List (List Char) := piecesFrom sep [] cs

/-- The number that a list of decimal digits denotes. -/
def decimal (digits : List Char) : Nat :=
  digits.foldl (fun n c => 10 * n + (c.toNat - '0'.toNat)) 0

/-- A decimal integer with an optional sign and nothing else. -/
def integer? (cs : List Char) : Option Int :=
  let (negative, digits) := match cs with
    | '-' :: ds => (true, ds)
    | '+' :: ds => (false, ds)
    | ds => (false, ds)
  if digits.isEmpty || !digits.all Char.isDigit then none
  else if negative then some (-(decimal digits : Int)) else some (decimal digits)

/-- A decimal integer with an optional sign that fits 32 bits. -/
def int32? (cs : List Char) : Option Int32 := do
  let i ← integer? cs
  if -0x80000000 ≤ i ∧ i ≤ 0x7FFFFFFF then some (Int32.ofInt i) else none

end StateSpace.Text
