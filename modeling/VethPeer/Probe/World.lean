import VethPeer.Session.Basic

/-! What the program meets outside: the sockets of each network namespace, and the process table. -/
namespace VethPeer

/-- How opening a socket in a namespace goes, and what it will deliver. -/
structure Endpoint where
  portId : UInt32 := 0
  deliveries : List Delivery := []
  openFault : Option Errno := none
  bindFault : Option Errno := none
  /-- How the attempt to send the request with this number fails, if it does. -/
  sendFault : UInt32 → Option Errno := fun _ => none

def Endpoint.connect (e : Endpoint) : Except Fault Session :=
  match e.openFault.or e.bindFault with
  | some errno => .error (.io errno)
  | none => .ok { portId := e.portId, deliveries := e.deliveries, sendFault := e.sendFault }

/-- Two processes share a namespace exactly if these agree. -/
structure NamespaceId where
  device : UInt64
  inode : UInt64
  deriving DecidableEq, Repr

structure ProcessEntry where
  pid : Int
  /-- None if it cannot be read. -/
  command : Option String := none
  identity : Except Errno NamespaceId := .error .noEntry
  openFault : Option Errno := none
  enterFault : Option Errno := none
  /-- It ended after the table was listed. -/
  vanished : Bool := false
  endpoint : Endpoint := {}

/-- Negative numbers name no process. -/
def ProcessEntry.pid? (p : ProcessEntry) : Option UInt32 :=
  if 0 ≤ p.pid ∧ p.pid < 4294967296 then some (.ofNat p.pid.toNat) else none

structure World where
  host : Endpoint := {}
  hostIdentity : Except Errno NamespaceId := .error .noEntry
  processes : List ProcessEntry := []
  /-- Why the process table cannot be read. -/
  tableFault : Option String := none

namespace World

def namespacePath (pid : UInt32) : String := s!"/proc/{pid}/ns/net"

def ownNamespacePath : String := "/proc/self/ns/net"

def process? (w : World) (pid : UInt32) : Option ProcessEntry :=
  w.processes.find? (·.pid? = some pid)

/-- The sockets of a process's namespace, after moving there. -/
def enter (w : World) (pid : UInt32) : Except Fault Endpoint :=
  let fault := Fault.entry (namespacePath pid)
  match w.process? pid with
  | none => .error (fault .noEntry)
  | some p =>
    match p.openFault.or p.enterFault with
    | some errno => .error (fault errno)
    | none => .ok p.endpoint

/-- The caller's own namespace. -/
def ownIdentity (w : World) : Except Fault NamespaceId :=
  w.hostIdentity.mapError (.entry ownNamespacePath)

end World
end VethPeer
