import VethPeer.Command
import VethPeer.Recording

/-! The program on a recorded world, which it reads from its standard input. -/

partial def readLines (input : IO.FS.Stream) (lines : List String) : IO (List String) := do
  let line ← input.getLine
  if line.isEmpty then return lines.reverse
  readLines input ((line.dropSuffix "\n").toString :: lines)

def main (arguments : List String) : IO UInt32 := do
  match VethPeer.Command.parse arguments with
  | .error halt => finish halt.output
  | .ok invocation =>
    match VethPeer.Recording.read (← readLines (← IO.getStdin) []) with
    | .error line =>
      (← IO.getStderr).putStrLn s!"Error: no fact: {line}"
      return 1
    | .ok world => finish (invocation.run world)
where
  finish (output : VethPeer.Command.Output) : IO UInt32 := do
    (← IO.getStderr).putStr output.stderr
    (← IO.getStdout).write ⟨output.stdout.toArray⟩
    return output.status.toUInt32
