import Polyform.Session

/-!
# The command line

Reads lines from standard input after the prompt ` ~ ` and writes each reply of the session, until
the input ends or a line ends the session. The only option is `-v` or `--verbose`, which is
accepted and changes nothing that is written.
-/

namespace Polyform

/-- Prompts, reads and answers lines until the input ends or a line ends the session. -/
partial def serve (stdin stdout : IO.FS.Stream) : IO Unit := do
  stdout.putStr " ~ "
  stdout.flush
  let line ← stdin.getLine
  if line.isEmpty then return
  match Session.respond (CodePoint.ofString line) with
  | .stop => return
  | r =>
    if let some t := r.text then stdout.putStrLn t
    serve stdin stdout

/-- The options the command line accepts. -/
def knownOption (arg : String) : Bool :=
  arg == "-v" || arg == "--verbose"

end Polyform

/-- Runs the session on standard input and output. -/
def main (args : List String) : IO UInt32 := do
  if args.all Polyform.knownOption then
    Polyform.serve (← IO.getStdin) (← IO.getStdout)
    return 0
  else
    (← IO.getStderr).putStrLn "usage: polyform [-h] [--verbose]"
    return 2
