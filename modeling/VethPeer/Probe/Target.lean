import VethPeer.Inventory.Query

/-! What is looked for in a candidate's namespace, and how a worker is told. -/
namespace VethPeer

inductive Target
  | address (a : Ip)
  | device (pattern : String)
  deriving DecidableEq, Repr

namespace Target

/-- The first interface of most containers. -/
def default : Target := .device "eth0"

def ofAddress (text : String) : Except Failure Target :=
  match Ip.ofText? text with
  | some a => .ok (.address a)
  | none => .error (.target (.notAddress text))

/-- The pattern has to be a glob. -/
def ofDevice (pattern : String) : Except Failure Target :=
  (Query.ofDevice pattern).map fun _ => .device pattern

def query : Target → Except Failure Query
  | .address a => .ok (.ofAddress a)
  | .device pattern => Query.ofDevice pattern

/-- The option and value that tell a worker process the target. -/
def arguments : Target → List String
  | .address a => ["--address", a.text]
  | .device pattern => ["--dev", pattern]

def text : Target → String
  | .address a => s!"address {a.text}"
  | .device pattern => s!"device {pattern}"

end Target
end VethPeer
