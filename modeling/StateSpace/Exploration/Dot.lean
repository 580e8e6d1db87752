import StateSpace.Exploration.Basic

/-!
# Explorations as graphs

An exploration is drawn in the DOT language: states are nodes labelled with their text and
condition, the initial one is pointed to by an invisible node, dead ones have more borders, and edges
carry their condition. Quotes and backslashes of a text are escaped, so a text ends at the first
quote that is not.
-/

namespace StateSpace

/-- How an exploration is drawn. -/
structure DotStyle where
  stateShape : String := "box"
  /-- The number of borders of a dead state. -/
  deadPeripheries : Nat := 2
  /-- Whether states are labelled with their condition too. -/
  showConditions : Bool := true
  rankdir : String := "TB"
deriving Repr

namespace Dot

/-- How a character is written within quotes. -/
def escapeChar (c : Char) : List Char :=
  if c = '\\' then ['\\', '\\'] else if c = '"' then ['\\', '"'] else [c]

/-- A text as it is written within quotes. -/
def escape (s : String) : String := String.ofList (s.toList.flatMap escapeChar)

/-- A text within quotes. -/
def quoted (s : String) : String := "\"" ++ escape s ++ "\""

/-- The lines in front of the states. -/
def header (style : DotStyle) (name : String) : List String :=
  ["digraph " ++ quoted name ++ " \x7b", "rankdir=" ++ style.rankdir ++ ";",
    "label=" ++ quoted name ++ ";", "labelloc=\"t\";", "node [shape=" ++ style.stateShape ++ "];"]

/-- The lines that point to the initial state. -/
def start (x : Exploration) : List String :=
  if x.states.isEmpty then [] else ["I [label=\"\", style=invis, width=0];", "I -> 0;"]

/-- The label of a state: its text, and its condition on a line of its own. -/
def stateLabel (style : DotStyle) (s : ExploredState) : String :=
  if style.showConditions then "\"" ++ escape s.label ++ "\\n" ++ escape s.condition ++ "\""
  else quoted s.label

/-- The line of a state. -/
def stateLine (style : DotStyle) (s : ExploredState × Nat) : String :=
  toString s.2 ++ " [label=" ++ stateLabel style s.1 ++
    (if s.1.dead then ", peripheries=" ++ toString style.deadPeripheries else "") ++ "];"

/-- The line of an edge. -/
def edgeLine (e : ExploredEdge) : String :=
  toString e.source ++ " -> " ++ toString e.target ++ " [label=" ++ quoted e.condition ++ "];"

/-- The line that tells that states are missing. -/
def truncationMark (x : Exploration) : List String :=
  if x.truncated then ["T [label=\"...\", shape=plaintext];"] else []

/-- The lines of a drawing. -/
def lines (style : DotStyle) (x : Exploration) : List String :=
  header style x.name ++ start x ++ x.states.toList.zipIdx.map (stateLine style) ++
    x.edges.toList.map edgeLine ++ truncationMark x ++ ["\x7d"]

end Dot

/-- An exploration in the DOT language. -/
def Exploration.toDot (x : Exploration) (style : DotStyle := {}) : String :=
  String.join ((Dot.lines style x).map (· ++ "\n"))

end StateSpace
