import StateSpace.Proposition.Parser
import StateSpace.Text.Bytes

/-!
# Scanning propositions byte by byte

A proposition can be read off the bytes of its text: positions are counted in bytes, characters are
looked at by single bytes, and the name is split at the position at which its last dot was seen. Cutting
a text within a character or looking behind its end is a fault, which is no result at all.
-/

namespace StateSpace.Atom

open Text

/-- The name from a position on, after what was `seen` of it, with the position behind it and that of
its last dot. -/
def scanName (text : List Char) (i : Nat) (seen : List Char) (dot : Option Nat) :
    Option (Nat × List Char × Option Nat) :=
  if h : i < (bytes text).length then
    let b := Char.ofUInt8 (bytes text)[i]
    if isComparison b then some (i, seen, dot)
    else if isGap b then scanName text (i + 1) seen dot
    else
      match splitBytes? text i with
      | some (_, c :: _) =>
        scanName text (i + c.utf8Size) (seen ++ [c]) (if b = '.' then some (bytes seen).length else dot)
      | _ => none
  else some (i, seen, dot)
termination_by (bytes text).length - i
decreasing_by
  · omega
  · have := c.utf8Size_pos
    omega

/-- The comparator of a byte and perhaps an equals sign behind it, and how many bytes it takes. -/
def scanComparator (b : Char) (equals : Bool) : Option (Comparator × Nat) :=
  match b, equals with
  | '!', true => some (.ne, 2)
  | '=', true => some (.eq, 2)
  | '<', true => some (.le, 2)
  | '<', false => some (.lt, 1)
  | '>', true => some (.ge, 2)
  | '>', false => some (.gt, 1)
  | _, _ => none

/-- The 32-bit integer at a position, and the position behind its digits. -/
def scanInteger (s : List UInt8) (start : Nat) : Option (Int32 × Nat) :=
  let digits := if byte? s start = some '-' ∨ byte? s start = some '+' then start + 1 else start
  let stop := skip Char.isDigit s digits
  if stop = digits then none
  else (int32? (((s.take stop).drop start).map Char.ofUInt8)).map (·, stop)

/-- The text from a position on. -/
def cutFrom (text : List Char) (i : Nat) : Option String :=
  (splitBytes? text i).map fun (_, rest) => String.ofList rest

/-- Scans what follows the name of a variable. -/
def scanComparison (var : Nat) (text : List Char) (i : Nat) : Option (Except Diagnostic Atom) :=
  let s := bytes text
  let unexpected (j : Nat) : Option (Except Diagnostic Atom) := do
    return .error (.unexpected (← cutFrom text j) (String.ofList text))
  if i = s.length then some (.ok (.compare var .ne 0))
  else do
    match scanComparator (← byte? s i) (byte? s (i + 1) == some '=') with
    | none => unexpected i
    | some (op, width) =>
      let start := skip isGap s (i + width)
      match scanInteger s start with
      | none => return .error (.notInteger (← cutFrom text start))
      | some (value, stop) =>
        let stop := skip isGap s stop
        if stop < s.length then unexpected stop else return .ok (.compare var op value)

/-- Scans what follows the name of a location, and splits the name at its last dot. -/
def scanLocation (n : Network) (text : List Char) (i : Nat) (name : List Char) (dot : Option Nat) :
    Option (Except Diagnostic Atom) :=
  match dot with
  | none => some (.error (.unknownSubject (String.ofList name) (String.ofList text)))
  | some dot => do
    let process := String.ofList (← splitBytes? name dot).1
    match n.processes.find? process with
    | none => return .error (.unknownSubject process (String.ofList text))
    | some pid =>
      let location ← cutFrom name (dot + 1)
      match n.findLocation? pid location with
      | none => return .error (.unknownLocation location process)
      | some id =>
        if i < (bytes text).length then
          return .error (.trailing (← cutFrom text i) (String.ofList text))
        else return .ok (.atLocation pid id)

/-- Scans a proposition about a network. -/
def scan (n : Network) (text : List Char) : Option (Except Diagnostic Atom) :=
  let start := skip isGap (bytes text) 0
  if start = (bytes text).length then some (.error (.unparsable (String.ofList text)))
  else do
    let (i, name, dot) ← scanName text start [] none
    if name.isEmpty then return .error (.unparsable (String.ofList text))
    else
      match n.ints.find? (String.ofList name) with
      | some var => scanComparison var text i
      | none => scanLocation n text i name dot

end StateSpace.Atom
