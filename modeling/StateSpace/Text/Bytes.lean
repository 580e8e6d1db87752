/-!
# Texts as bytes

A text is stored as bytes, one to four for each character, and positions in it are counted in bytes.
-/

namespace StateSpace.Text

/-- The bytes of a text. -/
def bytes (cs : List Char) : List UInt8 := cs.flatMap String.utf8EncodeChar

/-- The two parts of a text around a position, if it is the end of a character or of none. -/
def splitBytes? : List Char → Nat → Option (List Char × List Char)
  | cs, 0 => some ([], cs)
  | [], _ + 1 => none
  | c :: cs, i + 1 =>
    if c.utf8Size ≤ i + 1 then
      (splitBytes? cs (i + 1 - c.utf8Size)).map fun (front, back) => (c :: front, back)
    else none

/-- The byte at a position as the character that it would be alone; none at the end. -/
def byte? (s : List UInt8) (i : Nat) : Option Char := (s[i]?).map Char.ofUInt8

/-- The first position from `i` on with a byte of another kind. -/
def skip (p : Char → Bool) (s : List UInt8) (i : Nat) : Nat :=
  if h : i < s.length then
    if p (Char.ofUInt8 s[i]) then skip p s (i + 1) else i
  else i
termination_by s.length - i

end StateSpace.Text
