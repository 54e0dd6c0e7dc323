import VethPeer.Command.Options
import VethPeer.Inventory.Search
import VethPeer.Net.Flags
import VethPeer.Net.Scope
import VethPeer.Probe.Basic

/-! The command that lists the interfaces and addresses of the host. -/
namespace VethPeer.Command.Show

def anyText (_ : String) : Bool := true

def isIndex (s : String) : Bool := (Numeral.between? (-2147483648) 2147483647 s).isSome

def grammar : Grammar where
  specs := [
    { key := "ipv4", short := some '4' },
    { key := "ipv6", short := some '6' },
    { key := "link", long := some "link" },
    { key := "dev", long := some "dev", value := some anyText },
    { key := "label", long := some "label", value := some anyText },
    { key := "scope", long := some "scope", value := some anyText },
    { key := "to", long := some "to", value := some anyText },
    { key := "index", long := some "index", value := some isIndex },
    { key := "permanent", long := some "permanent" },
    { key := "dynamic", long := some "dynamic" },
    { key := "primary", long := some "primary" },
    { key := "secondary", long := some "secondary" }]

/-- At most one family, and no flag both ways. -/
def conflicts : List (String × String) := [
  ("ipv4", "ipv6"), ("ipv4", "link"), ("ipv6", "link"),
  ("permanent", "dynamic"), ("primary", "secondary")]

def parse (arguments : List String) : Except Halt Given := do
  let given ← grammar.parse arguments
  if conflicts.any fun (a, b) => given.has a && given.has b then .error .usage else .ok given

/-- What went wrong with the arguments themselves. -/
inductive Refusal
  | failure (f : Failure)
  | scope (text : String)

def Refusal.output : Refusal → Output
  | .failure f => .ofFailure f
  | .scope text => { status := 1, stderr := s!"Error: invalid scope '{text}'\n" }

/-- A scope by its name or by its number. -/
def scopeOf (text : String) : Except Refusal UInt8 :=
  match (Scope.ofName? text).or
      (((Numeral.natural? text).filter (· < 256)).map UInt8.ofNat) with
  | some scope => .ok scope
  | none => .error (.scope text)

/-- Asks for a flag to be set or not, or does not ask. -/
def flagBits (given : Given) (bit : UInt32) (set clear : String) : UInt32 × UInt32 :=
  if given.has set then (bit, bit) else if given.has clear then (0, bit) else (0, 0)

/-- A value that is given changes the query. -/
def withValue (given : Given) (key : String) (q : Query)
    (change : Query → String → Except Refusal Query) : Except Refusal Query :=
  match given.value? key with
  | some value => change q value
  | none => .ok q

def query (given : Given) : Except Refusal Query := do
  let q ← withValue given "to" {} fun q text =>
    ((Subnet.ofText text).map q.withSubnet).mapError .failure
  let q :=
    if given.has "ipv4" then q.withFamily .inet
    else if given.has "ipv6" then q.withFamily .inet6
    else if given.has "link" then q.withFamily .packet
    else q
  let q ← withValue given "dev" q fun q text => (q.withName text).mapError .failure
  let q ← withValue given "label" q fun q text => (q.withLabel text).mapError .failure
  let q ← withValue given "scope" q fun q text => (scopeOf text).map fun n => q.withScope n 0xff
  let q :=
    match (given.value? "index").bind Numeral.integer? with
    | some n => q.withIndex (.ofInt n)
    | none => q
  let (age, ageMask) := flagBits given AddressFlags.permanent "permanent" "dynamic"
  let (rank, rankMask) := flagBits given AddressFlags.secondary "secondary" "primary"
  return q.withFlags (age ||| rank) (ageMask ||| rankMask)

def interfaceLine (i : Interface) : String :=
  let peer := match i.peer with
    | some peer => s!"@if{peer.toInt}"
    | none => ""
  let kind := match i.kind with
    | some kind => s!" kind {kind}"
    | none => ""
  s!"{i.index.toInt}: {i.name}{peer}: <{LinkFlags.text i.flags}> state {i.state.text}{kind}\n"

def assignmentLine (a : Assignment) : String :=
  let address := match a.address with
    | some address => address.text
    | none => "unknown"
  let has (bit : UInt32) : Bool := a.flags &&& bit ≠ 0
  let marks := [
    (has AddressFlags.secondary, " secondary"),
    (!has AddressFlags.permanent, " dynamic"),
    (has AddressFlags.deprecated, " deprecated"),
    (has AddressFlags.tentative, " tentative")]
  let shown := String.join ((marks.filter (·.1)).map (·.2))
  let label := match a.label with
    | some label => s!" {label}"
    | none => ""
  s!"    {a.family.text} {address}/{a.length} scope {Scope.text a.scope}{shown}{label}\n"

def listing (l : Listing) : String :=
  interfaceLine l.interface ++ String.join (l.assignments.map assignmentLine)

def run (w : World) (given : Given) : Output :=
  match query given with
  | .error refusal => refusal.output
  | .ok q =>
    match (Probe.survey w.host q).1 with
    | .error stop => .ofStop (stop.map .netlink)
    | .ok inventory => .ofText (String.join ((inventory.list q).map listing))

end VethPeer.Command.Show
