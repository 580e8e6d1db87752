import StateSpace.CommandLine.Request
import StateSpace.Engine.Graph
import StateSpace.Exploration.Dot
import StateSpace.Exploration.Search
import StateSpace.Network.Declaration
import StateSpace.Network.Summary

/-!
# Replies to the command line

A request is answered by an exit status, an output and diagnostics. Every refusal has the status 2
and no output. Of two causes the first in this order counts: the declaration, the semantics, the
propositions, the initial state.
-/

namespace StateSpace.CommandLine

/-- What a run of the program shows. -/
structure Reply where
  status : UInt32 := 0
  output : String := ""
  /-- Lines for the error stream. -/
  diagnostics : List String := []
deriving DecidableEq, Repr

/-- A refusal. -/
def Reply.refusal (message : String) : Reply := { status := 2, diagnostics := [message] }

/-! ## Texts -/

/-- The name of the program. -/
def programName : String := "ta-kripke"

/-- The line about the version. -/
def versionText : String := programName ++ " 0.1.0\n"

/-- The line about the usage. -/
def usageLine : String := "Usage: " ++ programName ++ " [OPTIONS] <FILE>"

/-- An explanation of the command line. -/
def helpText : String := String.join <| List.map (· ++ "\n") [
  "Explore a timed-automaton system as a Kripke structure",
  "",
  usageLine,
  "",
  "Arguments:",
  "  <FILE>  System declaration to load",
  "",
  "Options:",
  "  -a, --ap <PROP>         Atomic proposition to observe " ++
    "(`NAME`, `NAME OP INT` or `PROC.LOC`)",
  "      --dead <VALUE>      Dead states: `false` (no successor), `true` (unlabeled loop) or " ++
    "the name of the proposition labelling their loop [default: true]",
  "      --semantics <NAME>  Zone semantics of the engine [default: elapsed_extraLUplus_local]",
  "      --vars              List the names usable in propositions and exit",
  "  -d, --dot               Print the explored structure in GraphViz format",
  "  -q, --quiet             Suppress standard output",
  "      --max-states <INT>  Stop after this many states",
  "  -v, --verbose...        Increase log verbosity (repeatable)",
  "  -h, --help              Print help",
  "  -V, --version           Print version"]

/-- A setting as it is written on the command line. -/
def Setting.text : Setting → String
  | proposition => "--ap <PROP>"
  | dead => "--dead <VALUE>"
  | semantics => "--semantics <NAME>"
  | maxStates => "--max-states <INT>"

/-- A switch as it is written on the command line. -/
def Switch.text : Switch → String
  | vars => "--vars"
  | dot => "--dot"
  | quiet => "--quiet"
  | verbose => "--verbose"
  | help => "--help"
  | version => "--version"

/-- The diagnostic of a refused command line. -/
def UsageError.message : UsageError → String
  | unknown option => "unknown option '" ++ option ++ "'"
  | missingValue s => "a value is required for '" ++ s.text ++ "'"
  | unwantedValue w => "'" ++ w.text ++ "' takes no value"
  | repeatedSetting s => "'" ++ s.text ++ "' cannot be used twice"
  | repeatedSwitch w => "'" ++ w.text ++ "' cannot be used twice"
  | notNumber t => "'" ++ t ++ "' is no number of states"
  | unexpected a => "unexpected argument '" ++ a ++ "'"
  | missingFile => "no file is named"

/-! ## Answers -/

/-- The counts of an exploration, one to a line. -/
def report (n : Network) (semantics : ZoneSemantics) (dead : DeadPolicy) (x : Exploration) :
    List String :=
  ["system: " ++ n.name, "semantics: " ++ semantics.name, "dead states: " ++ dead.text,
    "discrete configurations (bound): " ++ toString n.configurationBound,
    "states: " ++ toString x.states.size, "edges: " ++ toString x.edges.size,
    "dead: " ++ toString x.deadCount] ++
  if x.truncated then
    ["exploration stopped after " ++ toString x.states.size ++ " states"]
  else []

/-- What is put out about an exploration. -/
def Request.present (r : Request) (n : Network) (semantics : ZoneSemantics) (dead : DeadPolicy)
    (x : Exploration) : String :=
  if r.quiet then ""
  else if r.dot then x.toDot
  else String.join ((report n semantics dead x).map (· ++ "\n"))

/-- A structure over a network's discrete graph. -/
abbrev Built := Except (List Diagnostic) (Kripke Graph)

/-- Explores a network. -/
def Request.explore (r : Request) (n : Network) (semantics : ZoneSemantics) (dead : DeadPolicy)
    (dict : Dictionary) : Reply :=
  let build : Action Dictionary Built :=
    Kripke.create 0 (Graph.create n semantics) r.props { dead }
  match build.outcome dict with
  | (.error e, _) => .refusal (e.message?.getD "")
  | (.ok (.error ds), _) => .refusal (PropositionList.report ds)
  | (.ok (.ok kripke), dict) =>
    match ((Kripke.explore r.maxStates).outcome { dict, kripke }).1 with
    | .error e => .refusal (e.message?.getD "")
    | .ok (.error e) => .refusal e.message
    | .ok (.ok x) =>
      { output := r.present n semantics dead x
        diagnostics := Graph.warnings n ++
          if r.verbosity = 0 then [] else ["kripke = " ++ kripke.debugText] }

/-- Answers a request about a network. -/
def Request.answer (r : Request) (n : Network) : Reply :=
  if r.vars then { output := n.offer }
  else
    let name := r.semantics.getD ZoneSemantics.standard.name
    match ZoneSemantics.ofName? name, Dictionary.create Manager.defaultBits with
    | none, _ => .refusal (ZoneSemantics.unknownMessage name)
    | _, .error e => .refusal (e.message?.getD "")
    | some semantics, .ok dict =>
      r.explore n semantics ((r.dead.map DeadPolicy.ofText).getD .standard) dict

/-- Answers a command, where a text is the content of the file that it names, if it has one. -/
def Command.reply (text? : Option String) : Command → Reply
  | help => { output := helpText }
  | version => { output := versionText }
  | explore file r =>
    match text?.map Network.parse with
    | none => .refusal ("cannot load " ++ file)
    | some (.error e) => .refusal e.message
    | some (.ok (n, warnings)) =>
      let reply := r.answer n
      { reply with diagnostics := warnings.map (·.message) ++ reply.diagnostics }

/-- Answers a command line, where `read` gives the content of a file. -/
def reply (args : List String) (text? : Option String) : Reply :=
  match Command.ofArguments args with
  | .error e => { status := 2, diagnostics := ["error: " ++ e.message, "", usageLine] }
  | .ok c => c.reply text?

/-- The file whose content a command line asks for. -/
def fileOf? (args : List String) : Option String :=
  match Command.ofArguments args with
  | .ok (.explore file _) => some file
  | _ => none

end StateSpace.CommandLine
