import StateSpace.Expr.Parser
import StateSpace.Network.Basic

/-!
# Reading declarations

A network is declared line by line; the fields of a declaration are separated by colons, and some
declarations have attributes in braces. A `#` starts a comment.

    system:NAME
    event:NAME
    int:1:MIN:MAX:INITIAL:NAME
    clock:1:NAME
    process:NAME
    location:PROCESS:NAME{ATTRIBUTES}
    edge:PROCESS:SOURCE:TARGET:EVENT{ATTRIBUTES}
    sync:PROCESS@EVENT:PROCESS@EVENT
-/

namespace StateSpace.Network

/-- Why a line is no declaration. -/
inductive DeclarationError where
  | unterminated
  | malformedAttributes (body : String)
  | invalidInteger (what field : String)
  | fieldCount (kind : String) (expected found : Nat)
  | emptyField (position : Nat) (kind : String)
  | unknownProcess (name : String)
  | unknownEvent (name : String)
  | unknownLocation (name process : String)
  | duplicateSystem
  | arrayVariable (name : String)
  | clockArray (name : String)
  | loneSynchronisation
  | notConstraint (field : String)
  | weakSynchronisation (field : String)
  | unknownKind (kind : String)
  | missingSystem
  | malformed (e : SyntaxError)
  | refused (e : Refusal)
deriving DecidableEq, Repr

/-- The diagnostic of a line that is no declaration. -/
def DeclarationError.message : DeclarationError → String
  | unterminated => "unterminated attribute list"
  | malformedAttributes body => "malformed attributes `" ++ body ++ "'"
  | invalidInteger what field => "invalid " ++ what ++ " `" ++ field ++ "'"
  | fieldCount kind expected found =>
    "`" ++ kind ++ "' declaration expects " ++ toString expected ++ " fields, found " ++
      toString found
  | emptyField position kind =>
    "field " ++ toString position ++ " of `" ++ kind ++ "' declaration is empty"
  | unknownProcess name => "unknown process `" ++ name ++ "'"
  | unknownEvent name => "unknown event `" ++ name ++ "'"
  | unknownLocation name process =>
    "unknown location `" ++ name ++ "' of process `" ++ process ++ "'"
  | duplicateSystem => "duplicate `system' declaration"
  | arrayVariable name => "array variable `" ++ name ++ "' is not supported"
  | clockArray name => "clock array `" ++ name ++ "' is not supported"
  | loneSynchronisation => "a synchronisation needs at least two processes"
  | notConstraint field => "expected PROCESS@EVENT, found `" ++ field ++ "'"
  | weakSynchronisation field => "weak synchronisation `" ++ field ++ "' is not supported"
  | unknownKind kind => "unknown declaration `" ++ kind ++ "'"
  | missingSystem => "missing `system' declaration"
  | malformed e => e.message
  | refused e => e.message?.getD ""

/-- A line that is no declaration; line 0 stands for the whole text. -/
structure LoadError where
  line : Nat
  cause : DeclarationError
deriving DecidableEq, Repr

/-- The diagnostic of a text that declares no network. -/
def LoadError.message (e : LoadError) : String :=
  "line " ++ toString e.line ++ ": " ++ e.cause.message

/-- Attributes that are read over. -/
inductive Warning where
  | location (name key : String)
  | edge (source target key : String)
deriving DecidableEq, Repr

/-- The text of a warning. -/
def Warning.message : Warning → String
  | location name key => "location `" ++ name ++ "': ignoring attribute `" ++ key ++ "'"
  | edge source target key =>
    "edge " ++ source ++ "->" ++ target ++ ": ignoring attribute `" ++ key ++ "'"

/-- A network under declaration. -/
structure Draft where
  network : Network := { name := "" }
  named : Bool := false
  warnings : List Warning := []

/-- A part of the reading of a line. -/
abbrev Reading := StateT Draft (Except DeclarationError)

namespace Reading

/-- Makes a declaration in the draft. -/
def declare {α : Type} (x : Declaring α) : Reading α := fun d =>
  match x d.network with
  | .ok a network => .ok (a, { d with network })
  | .error e _ => .error (.refused e)

/-- Notes a warning. -/
def warn (w : Warning) : Reading Unit := modify fun d => { d with warnings := d.warnings ++ [w] }

/-- What a lookup finds, or else an error. -/
def orElse {α : Type} (r : Option α) (e : DeclarationError) : Reading α :=
  match r with
  | some a => pure a
  | none => throw e

/-- The result of reading an expression or a statement. -/
def parsed {α : Type} (r : Except SyntaxError α) : Reading α :=
  match r with
  | .ok a => pure a
  | .error e => throw (.malformed e)

end Reading

open Reading

/-! ## Fields -/

/-- A line without its attributes, and the text between the braces. -/
def splitAttributes (line : List Char) : Except DeclarationError (List Char × List Char) :=
  match Text.cut '\x7b' line with
  | (_, none) => .ok (line, [])
  | (head, some rest) =>
    match rest.reverse with
    | '\x7d' :: body => .ok (head, body.reverse)
    | _ => .error .unterminated

/-- The parts of a text between colons, without blanks around them. -/
def colonParts (text : List Char) : List String :=
  ((Text.pieces ':' text).map Text.trim).map String.ofList

/-- Neighbours in pairs; none if one is left over. -/
def pairUp {α : Type} : List α → Option (List (α × α))
  | [] => some []
  | [_] => none
  | a :: b :: rest => (pairUp rest).map ((a, b) :: ·)

/-- The attributes of a declaration, keys with values. -/
def attributes (body : List Char) : Except DeclarationError (List (String × String)) :=
  if (Text.trim body).isEmpty then .ok []
  else match pairUp (colonParts body) with
    | some kvs => .ok kvs
    | none => .error (.malformedAttributes (String.ofList body))

/-- The fields of a declaration behind its kind: as many as expected, and none of them empty. -/
def fields (head : List Char) (count : Nat) : Except DeclarationError (List String) :=
  match colonParts head with
  | [] => .ok []
  | kind :: rest =>
    if rest.length ≠ count then .error (.fieldCount kind count rest.length)
    else match (kind :: rest).findIdx? (·.isEmpty) with
      | some i => .error (.emptyField i kind)
      | none => .ok rest

/-- A 32-bit integer field. -/
def integerField (field what : String) : Except DeclarationError Int32 :=
  match Text.int32? field.toList with
  | some v => .ok v
  | none => .error (.invalidInteger what field)

/-- The number of a declared process. -/
def processNamed (name : String) : Reading Nat := do
  orElse ((← get).network.processes.find? name) (.unknownProcess name)

/-- The number of a declared event. -/
def eventNamed (name : String) : Reading Nat := do
  orElse ((← get).network.events.find? name) (.unknownEvent name)

/-- The number of a declared location of a process. -/
def locationNamed (process : Nat) (processName name : String) : Reading Nat := do
  orElse ((← get).network.findLocation? process name) (.unknownLocation name processName)

/-! ## Declarations -/

/-- Names the system. -/
def readSystem (name : String) : Reading Unit := do
  if (← get).named then throw .duplicateSystem
  modify fun d => { d with network := { d.network with name }, named := true }

/-- Declares a variable. -/
def readVariable (size min max initial name : String) : Reading Unit := do
  if (← integerField size "size") ≠ 1 then throw (.arrayVariable name)
  let min ← integerField min "lower bound"
  let max ← integerField max "upper bound"
  let initial ← integerField initial "initial value"
  let _ ← declare (addVariable name ⟨min, max, initial⟩)

/-- Declares a clock. -/
def readClock (size name : String) : Reading Unit := do
  if (← integerField size "size") ≠ 1 then throw (.clockArray name)
  let _ ← declare (addClock name)

/-- One attribute of a location. Urgency and labels have no effect on discrete steps. -/
def locationAttribute (l : Location) (kv : String × String) : Reading Location := do
  match kv.1 with
  | "initial" => pure { l with initial := true }
  | "committed" => pure { l with committed := true }
  | "invariant" => do
    let invariant ← parsed (Expr.parse (← get).network.resolve kv.2.toList)
    pure { l with invariant }
  | "urgent" => pure l
  | "labels" => pure l
  | key => do
    warn (.location l.name key)
    pure l

/-- Declares a location. -/
def readLocation (process name : String) (body : List Char) : Reading Unit := do
  let pid ← processNamed process
  let l ← (← attributes body).foldlM locationAttribute { id := 0, process := pid, name }
  let _ ← declare (addLocation l)

/-- One attribute of an edge. -/
def edgeAttribute (source target : String) (e : Edge) (kv : String × String) : Reading Edge := do
  match kv.1 with
  | "provided" => do
    let guard ← parsed (Expr.parse (← get).network.resolve kv.2.toList)
    pure { e with guard }
  | "do" => do
    let updates ← parsed (Update.parseAll (← get).network.resolve kv.2.toList)
    pure { e with updates }
  | key => do
    warn (.edge source target key)
    pure e

/-- Declares an edge. -/
def readEdge (process source target event : String) (body : List Char) : Reading Unit := do
  let pid ← processNamed process
  let src ← locationNamed pid process source
  let tgt ← locationNamed pid process target
  let ev ← eventNamed event
  let e ← (← attributes body).foldlM (edgeAttribute source target)
    { id := 0, process := pid, source := src, target := tgt, event := ev }
  let _ ← declare (addEdge e)

/-- One process of a synchronisation with its event. -/
def readConstraint (field : String) : Reading (Nat × Nat) := do
  match Text.cut '@' field.toList with
  | (_, none) => throw (.notConstraint field)
  | (process, some event) =>
    if event.getLast? = some '?' then throw (.weakSynchronisation field)
    let pid ← processNamed (String.ofList (Text.trim process))
    let ev ← eventNamed (String.ofList (Text.trim event))
    pure (pid, ev)

/-- Declares a synchronisation. -/
def readSync (constraints : List String) : Reading Unit := do
  if constraints.length < 2 then throw .loneSynchronisation
  declare (addSync (← constraints.mapM readConstraint))

/-- Reads one declaration. -/
def readLine (line : List Char) : Reading Unit := do
  let (head, body) ← splitAttributes line
  match (colonParts head).headD "" with
  | "system" =>
    if let [name] ← fields head 1 then readSystem name
  | "event" =>
    if let [name] ← fields head 1 then
      let _ ← declare (addEvent name)
  | "int" =>
    if let [size, min, max, initial, name] ← fields head 5 then
      readVariable size min max initial name
  | "clock" =>
    if let [size, name] ← fields head 2 then readClock size name
  | "process" =>
    if let [name] ← fields head 1 then
      let _ ← declare (addProcess name)
  | "location" =>
    if let [process, name] ← fields head 2 then readLocation process name body
  | "edge" =>
    if let [process, source, target, event] ← fields head 4 then
      readEdge process source target event body
  | "sync" => readSync ((colonParts head).drop 1)
  | kind => throw (.unknownKind kind)

/-- A line without its comment and the blanks around it. -/
def lineContent (line : List Char) : List Char := Text.trim (Text.cut '#' line).1

/-- Reads the lines of a text from number `line` on. -/
def readLines : Nat → List (List Char) → Draft → Except LoadError Draft
  | _, [], d => .ok d
  | line, raw :: rest, d =>
    match lineContent raw with
    | [] => readLines (line + 1) rest d
    | content =>
      match readLine content d with
      | .ok (_, d) => readLines (line + 1) rest d
      | .error cause => .error ⟨line, cause⟩

/-- Reads a network, and what was read over. -/
def parse (text : String) : Except LoadError (Network × List Warning) := do
  let d ← readLines 1 (Text.pieces '\n' text.toList) {}
  if d.named then .ok (d.network, d.warnings) else .error ⟨0, .missingSystem⟩

end StateSpace.Network
