import VethPeer.Fault
import VethPeer.Glob
import VethPeer.Ip

/-! What ends a whole request of the user, by cause, and the words for it. -/
namespace VethPeer

/-- Text that names no target. -/
inductive TargetDefect
  | notAddress (text : String)
  | notSubnet (text : String)
  | tooLong (length : Nat) (address : Ip)
  | stated (text : String)
  deriving DecidableEq, Repr

def TargetDefect.message : TargetDefect → String
  | .notAddress text => s!"'{text}' is not an IP address"
  | .notSubnet text => s!"invalid prefix '{text}'"
  | .tooLong length address => s!"prefix length {length} too long for {address.text}"
  | .stated text => text

/-- Why a worker process did not start. -/
inductive SpawnFault
  | system (errno : Errno)
  /-- No argument of a program can hold a zero byte. -/
  | zeroByte
  deriving DecidableEq, Repr

def SpawnFault.message : SpawnFault → String
  | .system errno => errno.message
  | .zeroByte => "nul byte found in provided data"

/-- Why no list of candidates could be made: of the process table or of the caller's own namespace. -/
inductive ScanDefect
  | table (text : String)
  | identity (fault : Fault)
  deriving DecidableEq, Repr

def ScanDefect.message : ScanDefect → String
  | .table text => text
  | .identity fault => fault.text

inductive Failure
  | netlink (fault : Fault)
  | spawn (candidate : UInt32) (cause : SpawnFault)
  | scan (defect : ScanDefect)
  | pattern (fault : Glob.Fault)
  | target (defect : TargetDefect)
  deriving DecidableEq, Repr

namespace Failure

def text : Failure → String
  | .netlink fault => fault.text
  | .spawn candidate cause => s!"cannot start worker for pid {candidate}: {cause.message}"
  | .scan defect => s!"cannot scan processes: {defect.message}"
  | .pattern fault => s!"invalid pattern: {fault.message}"
  | .target defect => s!"invalid target: {defect.message}"

/-- The text of the error that this one came from, if it has one. -/
def source? : Failure → Option String
  | .netlink fault => fault.source?
  | .spawn _ cause => some cause.message
  | .pattern fault => some fault.message
  | .scan _ | .target _ => none

def isPermission : Failure → Bool
  | .netlink fault => fault.isPermission
  | .spawn _ (.system errno) => errno.isPermission
  | _ => false

end Failure
end VethPeer
