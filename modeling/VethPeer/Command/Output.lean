import VethPeer.Failure

/-! What a run of the program leaves behind. -/
namespace VethPeer.Command

structure Output where
  status : UInt8 := 0
  stdout : Bytes := []
  stderr : String := ""
  deriving DecidableEq, Repr

namespace Output

def ofText (text : String) : Output := { stdout := Utf8.encode text }

/-- An error ends the run; the error that it came from is told after it. -/
def ofFailure (f : Failure) : Output :=
  let text := match f.source? with
    | some source => s!"{f.text}: {source}"
    | none => f.text
  { status := 1, stderr := s!"Error: {text}\n" }

/-- The program breaks off where it stands. -/
def ofOverflow : Output := { status := 101, stderr := "attempt to negate with overflow\n" }

def ofStop : Stop Failure → Output
  | .fault f => .ofFailure f
  | .overflow => .ofOverflow

end Output

/-- Reading the arguments ends without anything to run. -/
inductive Halt
  | usage
  | help
  | version
  deriving DecidableEq, Repr

def helpText : String :=
  "Find the host-side veth peer of a process's network interface\n\n" ++
  "Usage: nspeer <COMMAND>\n\nCommands:\n" ++
  "  resolve  Name the host interface paired with an address or device\n" ++
  "  show     List interfaces and addresses of the host namespace\n"

def Halt.output : Halt → Output
  | .usage => { status := 2, stderr := "error: the arguments are not understood\n" }
  | .help => .ofText helpText
  | .version => .ofText "nspeer 0.1.0\n"

end VethPeer.Command
