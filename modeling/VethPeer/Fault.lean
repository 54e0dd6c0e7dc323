import VethPeer.Errno
import VethPeer.Text.Utf8

/-! What can go wrong between the program and the kernel, by cause, and the words for it. -/
namespace VethPeer

/-- A message whose framing or contents make no sense. -/
inductive MessageDefect
  | length (declared : Nat)
  | dataLost (operation : String)
  | family (code : UInt8)
  | stated (text : String)
  deriving DecidableEq, Repr

def MessageDefect.message : MessageDefect → String
  | .length declared => s!"invalid message length: {declared}"
  | .dataLost operation => s!"{operation}: data lost"
  | .family code => s!"unknown address family: {code}"
  | .stated text => text

inductive AttributeDefect
  | length (kind : UInt16) (declared available : Nat)
  | emptyByte
  | shortWord
  | shortInteger
  | notUtf8 (defect : Utf8.Defect)
  | stated (text : String)
  deriving DecidableEq, Repr

def AttributeDefect.message : AttributeDefect → String
  | .length kind declared available =>
    s!"attribute {kind} declares {declared} bytes, {available} available"
  | .emptyByte => "empty u8 attribute"
  | .shortWord => "truncated u32 attribute"
  | .shortInteger => "truncated i32 attribute"
  | .notUtf8 defect => s!"invalid UTF-8: {defect.message}"
  | .stated text => text

/-- A record that could not be read past `offset`. -/
inductive RecordDefect
  | stopped (offset length : Nat)
  | stated (text : String)
  deriving DecidableEq, Repr

def RecordDefect.message : RecordDefect → String
  | .stopped offset length => s!"invalid record at byte {offset} of {length}"
  | .stated text => text

/-- A failure of one request: of the socket, of the kernel, of its reply, or of entering a
network namespace. -/
inductive Fault
  | io (errno : Errno)
  | kernel (errno : Errno)
  | refused (operation : String) (errno : Errno)
  | truncated (expected actual : Nat)
  | badMessage (defect : MessageDefect)
  | badAttribute (defect : AttributeDefect)
  | interrupted (operation : String)
  | badRecord (defect : RecordDefect)
  | entry (path : String) (errno : Errno)
  deriving DecidableEq, Repr

namespace Fault

def text : Fault → String
  | .io errno => s!"I/O error: {errno.message}"
  | .kernel errno => s!"kernel error: {errno.message} (errno {errno.toInt})"
  | .refused operation errno => s!"{operation}: {errno.message} (errno {errno.toInt})"
  | .truncated expected actual => s!"message truncated: expected {expected} bytes, got {actual}"
  | .badMessage defect => s!"invalid message: {defect.message}"
  | .badAttribute defect => s!"invalid attribute: {defect.message}"
  | .interrupted operation => s!"{operation}: dump interrupted by a concurrent change"
  | .badRecord defect => s!"parse error: {defect.message}"
  | .entry path errno => s!"cannot enter namespace '{path}': {errno.message}"

/-- The text of the error that this one came from, if it has one. -/
def source? : Fault → Option String
  | .io errno | .entry _ errno => some errno.message
  | _ => none

/-- The number that the kernel answered with. -/
def errno? : Fault → Option Errno
  | .kernel errno | .refused _ errno => some errno
  | _ => none

/-- The thing asked for does not exist: a link to the kernel, a process to the namespace. -/
def isNotFound : Fault → Bool
  | .kernel errno | .refused _ errno => errno = Errno.noEntry ∨ errno = Errno.noDevice
  | .entry _ errno => errno = Errno.noEntry ∨ errno = Errno.noProcess
  | _ => false

def isPermission : Fault → Bool
  | .kernel errno | .refused _ errno | .entry _ errno | .io errno => errno.isPermission
  | _ => false

def isEntry : Fault → Bool
  | .entry .. => true
  | _ => false

end Fault

/-- Why there is no result: because of a fault, which whoever asked is told, or of a code that has no
negative, at which the whole program breaks off. -/
inductive Stop (ε : Type)
  | fault (e : ε)
  | overflow
  deriving DecidableEq, Repr

namespace Stop

def map {ε δ : Type} (f : ε → δ) : Stop ε → Stop δ
  | .fault e => .fault (f e)
  | .overflow => .overflow

/-- An error number comes from the kernel with its sign changed. -/
def ofNegated (make : Errno → Fault) (code : Int32) : Stop Fault :=
  match Errno.ofCode? code with
  | some errno => .fault (make errno)
  | none => .overflow

def ofCode (code : Int32) : Stop Fault := ofNegated .kernel code

def ofRefusal (operation : String) (code : Int32) : Stop Fault :=
  ofNegated (.refused operation) code

end Stop
end VethPeer
