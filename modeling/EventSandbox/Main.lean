import EventSandbox.Cli.World

/-!
# EventSandbox.Main — the command line

Events go to standard output, the log and errors to standard error.
-/

namespace EventSandbox.Cli

/-- The messages of an error and its causes, outermost first. Several causes are numbered. -/
def errorText : List String → String
  | [] => ""
  | [error] => "Error: " ++ error ++ "\n"
  | [error, cause] => "Error: " ++ error ++ "\n\nCaused by:\n    " ++ cause ++ "\n"
  | error :: causes =>
    let numbered := causes.zipIdx.map fun (cause, i) =>
      "    " ++ toString i ++ ": " ++ cause ++ "\n"
    "Error: " ++ error ++ "\n\nCaused by:\n" ++ "".intercalate numbered

/-- Writes what a run has to say to those who watch it. -/
def Ending.tell (e : Ending) : IO Unit := do
  for report in e.log do
    IO.eprintln (if e.jsonLogs then report.toJson else report.toText)
  match e.complaint? with
  | some fault => IO.eprint ("error: " ++ fault.message ++ "\n\n" ++ usageText)
  | none => pure ()
  IO.eprint (errorText e.fatal)

end EventSandbox.Cli

open EventSandbox in
/-- Runs the program; waits for ever if the guest never comes back. -/
def main (args : List String) : IO UInt32 := do
  match ← Cli.run (← Cli.world) args with
  | some ending =>
    let out ← IO.getStdout
    out.write ⟨ending.output.toArray⟩
    out.flush
    ending.tell
    pure ending.exitCode.toUInt32
  | none =>
    repeat IO.sleep 1000
    pure 1
