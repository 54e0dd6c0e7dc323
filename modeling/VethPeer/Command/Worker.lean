import VethPeer.Command.Show

/-! The command that a worker process runs: it looks into one candidate's namespace and writes a
record. -/
namespace VethPeer.Command.Worker

/-- Minus zero is a number of this range too. -/
def isPid (s : String) : Bool := (Numeral.between? 0 4294967295 s).isSome

def grammar : Grammar where
  specs := [
    { key := "pid", long := some "pid", value := some isPid },
    { key := "address", long := some "address", value := some Show.anyText },
    { key := "dev", long := some "dev", value := some Show.anyText }]

def pidOf (text : String) : UInt32 := .ofNat ((Numeral.integer? text).getD 0).toNat

/-- The candidate, and the text of the target. -/
structure Arguments where
  pid : UInt32
  address : Option String
  device : Option String
  deriving DecidableEq, Repr

def parse (arguments : List String) : Except Halt Arguments := do
  let given ← grammar.parse arguments
  if given.has "address" && given.has "dev" then .error .usage
  else match given.value? "pid" with
    | some pid => .ok ⟨pidOf pid, given.value? "address", given.value? "dev"⟩
    | none => .error .usage

def Arguments.target (a : Arguments) : Except Failure Target :=
  match a.address, a.device with
  | some text, _ => Target.ofAddress text
  | none, some pattern => Target.ofDevice pattern
  | none, none => .ok .default

/-- The arguments that start a worker for a candidate. -/
def arguments (candidate : UInt32) (t : Target) : List String :=
  ["--pid", toString candidate] ++ t.arguments

/-- Without a target nothing is written, which counts as a failure of the worker. -/
def run (w : World) (a : Arguments) : Output :=
  match a.target with
  | .error _ => { status := 1 }
  | .ok t =>
    match Probe.run w a.pid t with
    | some finding => { stdout := finding.record }
    | none => .ofOverflow

/-- A worker process from its arguments. -/
def execute (w : World) (arguments : List String) : Output :=
  match parse arguments with
  | .ok a => run w a
  | .error halt => halt.output

end VethPeer.Command.Worker
