import StateSpace.Network.Basic
import StateSpace.Proposition.Basic
import StateSpace.Text.Blank

/-!
# Reading propositions

A proposition is `NAME`, `NAME OP INTEGER` or `PROCESS.LOCATION`. Spaces and tabs are skipped, also
within names; a bare variable means that it is not zero. A name is a variable if there is one of
that name; otherwise it is split at its last dot.
-/

namespace StateSpace

/-- Why a text is no proposition. -/
inductive Diagnostic where
  | unparsable (text : String)
  | unknownSubject (name text : String)
  | unknownLocation (location process : String)
  | trailing (rest text : String)
  | unexpected (rest text : String)
  | notInteger (rest : String)
deriving DecidableEq, Repr

/-- The text of a diagnostic. -/
def Diagnostic.message : Diagnostic → String
  | unparsable text => "Proposition `" ++ text ++ "' cannot be parsed."
  | unknownSubject name text =>
    "No variable or process `" ++ name ++ "' found in model (for proposition `" ++ text ++ "')."
  | unknownLocation location process =>
    "No location `" ++ location ++ "' known for process `" ++ process ++ "'."
  | trailing rest text =>
    "Trailing garbage `" ++ rest ++ "' at end of proposition `" ++ text ++ "'."
  | unexpected rest text =>
    "Unexpected `" ++ rest ++ "' while parsing atomic proposition `" ++ text ++ "'."
  | notInteger rest => "Failed to parse `" ++ rest ++ "' as an integer."

namespace Atom

/-- The blanks of propositions. -/
def isGap (c : Char) : Bool := c == ' ' || c == '\t'

/-- The characters that a comparison starts with. -/
def isComparison (c : Char) : Bool := c == '=' || c == '<' || c == '>' || c == '!'

/-- A text without its leading gaps. -/
def skipGaps (cs : List Char) : List Char := cs.dropWhile isGap

/-- The name in front of a comparison, without gaps. -/
def subjectName (text : List Char) : List Char :=
  (text.takeWhile (!isComparison ·)).filter (!isGap ·)

/-- What follows the name. -/
def afterSubject (text : List Char) : List Char := text.dropWhile (!isComparison ·)

/-- The comparator that a text starts with, the longer one of two, and the text behind it. -/
def comparator? : List Char → Option (Comparator × List Char)
  | '!' :: '=' :: cs => some (.ne, cs)
  | '=' :: '=' :: cs => some (.eq, cs)
  | '<' :: '=' :: cs => some (.le, cs)
  | '<' :: cs => some (.lt, cs)
  | '>' :: '=' :: cs => some (.ge, cs)
  | '>' :: cs => some (.gt, cs)
  | _ => none

/-- The sign that a text starts with, and the text behind it. -/
def sign : List Char → List Char × List Char
  | '-' :: cs => (['-'], cs)
  | '+' :: cs => (['+'], cs)
  | cs => ([], cs)

/-- The 32-bit integer that a text starts with, and the text behind its digits. -/
def integer? (cs : List Char) : Option (Int32 × List Char) :=
  let (sign, ds) := sign cs
  (Text.int32? (sign ++ ds.takeWhile Char.isDigit)).map (·, ds.dropWhile Char.isDigit)

/-- A name split at its last dot. -/
def splitLastDot (name : List Char) : Option (List Char × List Char) :=
  match Text.cut '.' name.reverse with
  | (_, none) => none
  | (after, some before) => some (before.reverse, after.reverse)

/-- Reads what follows the name of a variable. -/
def parseComparison (var : Nat) (rest text : List Char) : Except Diagnostic Atom :=
  let unexpected (at_ : List Char) : Except Diagnostic Atom :=
    .error (.unexpected (String.ofList at_) (String.ofList text))
  if rest.isEmpty then .ok (.compare var .ne 0)
  else match comparator? rest with
    | none => unexpected rest
    | some (op, rest) =>
      match integer? (skipGaps rest) with
      | none => .error (.notInteger (String.ofList (skipGaps rest)))
      | some (value, rest) =>
        if (skipGaps rest).isEmpty then .ok (.compare var op value)
        else unexpected (skipGaps rest)

/-- Reads the name of a location. -/
def parseLocation (n : Network) (name rest text : List Char) : Except Diagnostic Atom :=
  match splitLastDot name with
  | none => .error (.unknownSubject (String.ofList name) (String.ofList text))
  | some (process, location) =>
    let process := String.ofList process
    let location := String.ofList location
    match n.processes.find? process with
    | none => .error (.unknownSubject process (String.ofList text))
    | some pid =>
      match n.findLocation? pid location with
      | none => .error (.unknownLocation location process)
      | some id =>
        if rest.isEmpty then .ok (.atLocation pid id)
        else .error (.trailing (String.ofList rest) (String.ofList text))

/-- Reads a proposition about a network. -/
def parse (n : Network) (text : List Char) : Except Diagnostic Atom :=
  let name := subjectName text
  let rest := afterSubject text
  if name.isEmpty then .error (.unparsable (String.ofList text))
  else match n.ints.find? (String.ofList name) with
    | some var => parseComparison var rest text
    | none => parseLocation n name rest text

end Atom

end StateSpace
