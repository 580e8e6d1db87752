import StateSpace.Kripke.Policy
import StateSpace.Semantics
import StateSpace.Text.Blank

/-!
# Requests on the command line

A command line names one file and any number of options, in any order. Arguments are read from left
to right and the first one that is wrong decides; asking for help or the version ends the reading. An
option with a value takes it from the same argument or from the next one, which must not look like
an option. After `--` every argument names a file.
-/

namespace StateSpace.CommandLine

/-- Options without a value. -/
inductive Switch where
  | vars
  | dot
  | quiet
  | verbose
  | help
  | version
deriving DecidableEq, Repr

/-- Options with a value. -/
inductive Setting where
  | proposition
  | dead
  | semantics
  | maxStates
deriving DecidableEq, Repr

/-- The switch with a long name. -/
def Switch.ofLong? : String → Option Switch
  | "vars" => some vars
  | "dot" => some dot
  | "quiet" => some quiet
  | "verbose" => some verbose
  | "help" => some help
  | "version" => some version
  | _ => none

/-- The switch with a letter. -/
def Switch.ofLetter? : Char → Option Switch
  | 'd' => some dot
  | 'q' => some quiet
  | 'v' => some verbose
  | 'h' => some help
  | 'V' => some version
  | _ => none

/-- The setting with a long name. -/
def Setting.ofLong? : String → Option Setting
  | "ap" => some proposition
  | "dead" => some dead
  | "semantics" => some semantics
  | "max-states" => some maxStates
  | _ => none

/-- The setting with a letter. -/
def Setting.ofLetter? : Char → Option Setting
  | 'a' => some proposition
  | _ => none

/-- What is asked for. An option that was not given is absent, so that it can be told from one that
was given with its default. -/
structure Request where
  file : Option String := none
  /-- The observed propositions. -/
  props : List String := []
  dead : Option String := none
  semantics : Option String := none
  vars : Bool := false
  dot : Bool := false
  quiet : Bool := false
  maxStates : Option Nat := none
  verbosity : Nat := 0
deriving DecidableEq, Repr

/-- What a command line asks for. -/
inductive Command where
  | explore (file : String) (r : Request)
  | help
  | version
deriving DecidableEq, Repr

/-- Why a command line is refused. -/
inductive UsageError where
  | unknown (option : String)
  | missingValue (s : Setting)
  | unwantedValue (w : Switch)
  | repeatedSetting (s : Setting)
  | repeatedSwitch (w : Switch)
  | notNumber (text : String)
  | unexpected (argument : String)
  | missingFile
deriving DecidableEq, Repr

/-- The largest number of states that can be asked for. -/
def largestCount : Nat := 0xFFFFFFFFFFFFFFFF

/-- A number of states: decimal digits, perhaps with a plus sign in front. -/
def count? (cs : List Char) : Option Nat :=
  let digits := match cs with
    | '+' :: ds => ds
    | ds => ds
  if digits.isEmpty || !digits.all Char.isDigit then none
  else if Text.decimal digits ≤ largestCount then some (Text.decimal digits)
  else none

namespace Request

/-- Gives a setting its value; only propositions can be given more than once. -/
def set (r : Request) (value : String) : Setting → Except UsageError Request
  | .proposition => .ok { r with props := r.props ++ [value] }
  | .dead =>
    if r.dead.isSome then .error (.repeatedSetting .dead) else .ok { r with dead := some value }
  | .semantics =>
    if r.semantics.isSome then .error (.repeatedSetting .semantics)
    else .ok { r with semantics := some value }
  | .maxStates =>
    if r.maxStates.isSome then .error (.repeatedSetting .maxStates)
    else match count? value.toList with
      | some n => .ok { r with maxStates := some n }
      | none => .error (.notNumber value)

/-- Takes a word as the name of the file. -/
def place (r : Request) (word : String) : Except UsageError Request :=
  if r.file.isSome then .error (.unexpected word) else .ok { r with file := some word }

/-- The command of a request that was read to its end. -/
def finish (r : Request) : Except UsageError Command :=
  match r.file with
  | some file => .ok (.explore file r)
  | none => .error .missingFile

end Request

/-- What a part of the command line leads to. -/
inductive Reading where
  /-- The next argument is read afresh. -/
  | going (r : Request)
  /-- The next argument is the value of a setting. -/
  | awaiting (s : Setting) (r : Request)
  /-- No argument is read any more. -/
  | ended (c : Command)
deriving DecidableEq, Repr

/-- Turns a switch on; only verbosity can be asked for more than once. -/
def Request.turnOn (r : Request) : Switch → Except UsageError Reading
  | .vars => if r.vars then .error (.repeatedSwitch .vars) else .ok (.going { r with vars := true })
  | .dot => if r.dot then .error (.repeatedSwitch .dot) else .ok (.going { r with dot := true })
  | .quiet =>
    if r.quiet then .error (.repeatedSwitch .quiet) else .ok (.going { r with quiet := true })
  | .verbose => .ok (.going { r with verbosity := r.verbosity + 1 })
  | .help => .ok (.ended .help)
  | .version => .ok (.ended .version)

/-- Reads an option with a long name, and perhaps a value behind an equals sign. -/
def readLong (r : Request) (text : List Char) : Except UsageError Reading :=
  let (name, value) := Text.cut '=' text
  let name := String.ofList name
  match Setting.ofLong? name, Switch.ofLong? name, value with
  | some s, _, some v => (r.set (String.ofList v) s).map .going
  | some s, _, none => .ok (.awaiting s r)
  | none, some w, some _ => .error (.unwantedValue w)
  | none, some w, none => r.turnOn w
  | none, none, _ => .error (.unknown name)

/-- The value that is attached to a letter. -/
def attached : List Char → String
  | '=' :: cs => String.ofList cs
  | cs => String.ofList cs

/-- Reads letters: switches, and perhaps a setting whose value is what follows. -/
def readLetters (r : Request) : List Char → Except UsageError Reading
  | [] => .ok (.going r)
  | c :: cs =>
    match Setting.ofLetter? c, Switch.ofLetter? c with
    | some s, _ =>
      if cs.isEmpty then .ok (.awaiting s r) else (r.set (attached cs) s).map .going
    | none, some w =>
      match r.turnOn w with
      | .ok (.going r) => readLetters r cs
      | other => other
    | none, none => .error (.unknown (String.ofList [c]))

/-- Reads an argument that is no value. -/
def readArgument (r : Request) (arg : String) : Except UsageError Reading :=
  match arg.toList with
  | '-' :: '-' :: text => readLong r text
  | '-' :: c :: cs => readLetters r (c :: cs)
  | _ => (r.place arg).map .going

/-- Whether an argument looks like an option. -/
def looksLikeOption (arg : String) : Bool :=
  match arg.toList with
  | '-' :: _ :: _ => true
  | _ => false

/-- Takes every argument as the name of a file. -/
def readFiles (r : Request) : List String → Except UsageError Command
  | [] => r.finish
  | arg :: args => do readFiles (← r.place arg) args

/-- Reads the arguments that follow. -/
def readFrom : Reading → List String → Except UsageError Command
  | .ended c, _ => .ok c
  | .going r, [] => r.finish
  | .awaiting s _, [] => .error (.missingValue s)
  | .going r, "--" :: args => readFiles r args
  | .going r, arg :: args => do readFrom (← readArgument r arg) args
  | .awaiting s r, arg :: args =>
    if looksLikeOption arg then .error (.missingValue s)
    else do readFrom (.going (← r.set arg s)) args

/-- Reads a command line. -/
def Command.ofArguments (args : List String) : Except UsageError Command := readFrom (.going {}) args

end StateSpace.CommandLine
