import StateSpace.CommandLine.Reply

/-!
# The program

Reads the file that the command line names and shows the reply.
-/

open StateSpace

/-- The content of a file, if it can be read as text. -/
def contentOf (file : String) : IO (Option String) :=
  tryCatch (some <$> IO.FS.readFile file) fun _ => pure none

/-- Answers the command line. -/
def main (args : List String) : IO UInt32 := do
  let text? ← match CommandLine.fileOf? args with
    | some file => contentOf file
    | none => pure none
  let reply := CommandLine.reply args text?
  IO.print reply.output
  for line in reply.diagnostics do
    IO.eprintln line
  pure reply.status
