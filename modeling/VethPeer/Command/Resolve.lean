import VethPeer.Command.Worker
import VethPeer.Crew.Worker
import VethPeer.Resolution

/-! The command that names the host's end of the link of a target. -/
namespace VethPeer.Command.Resolve

def isCount (s : String) : Bool := ((Numeral.natural? s).filter (· < 18446744073709551616)).isSome

def grammar : Grammar where
  specs := [
    { key := "dev", long := some "dev", value := some Show.anyText },
    { key := "pattern", long := some "pattern", value := some Show.anyText, repeats := true },
    { key := "pid", long := some "pid", value := some Worker.isPid, repeats := true },
    { key := "jobs", long := some "jobs", short := some 'j', value := some isCount },
    { key := "timeout-ms", long := some "timeout-ms", value := some isCount },
    { key := "include-host", long := some "include-host" },
    { key := "all-pids", long := some "all-pids" }]
  positional := some "address"

/-- One way to say the target, one way to say the candidates. -/
def conflicts : List (String × String) := [("dev", "address"), ("pattern", "pid")]

/-- Without candidates the target has to be given. -/
def parse (arguments : List String) : Except Halt Given := do
  let given ← grammar.parse arguments
  if conflicts.any fun (a, b) => given.has a && given.has b then .error .usage
  else if given.has "address" || given.has "pid" || given.has "dev" then .ok given
  else .error .usage

def target (given : Given) : Except Failure Target :=
  match given.value? "address", given.value? "dev" with
  | some text, _ => Target.ofAddress text
  | none, some pattern => Target.ofDevice pattern
  | none, none => .ok .default

def source (given : Given) : Except Failure Source :=
  match given.values "pid" with
  | [] => (Scan.ofPatterns (given.values "pattern")).map fun s =>
    .scan { s with includeHost := given.has "include-host", allPids := given.has "all-pids" }
  | pids => .ok (.pids (pids.map Worker.pidOf))

def bound (given : Given) : Bound := .ofNat (((given.value? "jobs").bind Numeral.natural?).getD 0)

/-- What the worker process for a candidate does; it meets the same world. -/
def worker (w : World) (t : Target) (candidate : UInt32) : VethPeer.Worker :=
  let output := Worker.execute w (Worker.arguments candidate t)
  { writes := output.stdout, ending := .exits (.code output.status) }

def jobs (w : World) (t : Target) (candidates : List UInt32) : List Job :=
  VethPeer.Worker.jobs t.arguments .ready (candidates.map fun c => (c, worker w t c))

def failureLine (o : Outcome) : String :=
  let cause := match o.finding.answer.cause? with
    | some cause => cause.text
    | none => ""
  s!"nspeer: pid {o.finding.candidate}: {cause}\n"

/-- A name settles it. Else it is an error if every worker failed, and a target that was not found
if some did not. -/
def output (t : Target) (r : Resolution) : Output :=
  let failures := r.report.failures
  let lines := String.join (failures.map failureLine)
  match r.verdict.name? with
  | some name => { stdout := Utf8.encode (name ++ "\n"), stderr := lines }
  | none =>
    let all := r.report.outcomes.length
    if all ≠ 0 ∧ failures.length = all then
      { status := 1, stderr := lines ++ s!"Error: {t.text}: all {all} candidate(s) failed\n" }
    else { status := 2, stderr := lines ++ s!"nspeer: {t.text} not found: {r.verdict.text}\n" }

def resolution (w : World) (given : Given) : Except (Stop Failure) (Target × Resolution) := do
  let t ← (target given).mapError .fault
  let source ← (source given).mapError .fault
  let r ← Resolution.resolve w source (bound given) (jobs w t)
  return (t, r)

def run (w : World) (given : Given) : Output :=
  match resolution w given with
  | .ok (t, r) => output t r
  | .error stop => .ofStop stop

end VethPeer.Command.Resolve
