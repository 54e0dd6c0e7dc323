import VethPeer.Fault

/-! What a worker finds out about one candidate, and the record in which it reports that. -/
namespace VethPeer

/-- Why a worker has no answer. -/
inductive Cause
  | netlink
  | entry
  | permission
  | worker
  deriving DecidableEq, Repr

namespace Cause

def code : Cause → UInt8
  | .netlink => 1
  | .entry => 2
  | .permission => 3
  | .worker => 4

def ofCode? (n : UInt8) : Option Cause :=
  if n = 1 then some .netlink
  else if n = 2 then some .entry
  else if n = 3 then some .permission
  else if n = 4 then some .worker
  else none

def ofFault (f : Fault) : Cause :=
  if f.isPermission then .permission else if f.isEntry then .entry else .netlink

def text : Cause → String
  | .netlink => "netlink error"
  | .entry => "namespace error"
  | .permission => "permission denied"
  | .worker => "worker failure"

end Cause

inductive Answer
  /-- The interface is there; its other end has this index if it has one. -/
  | found (peer : Option Int32)
  | absent
  | failed (cause : Cause)
  deriving DecidableEq, Repr

structure Finding where
  candidate : UInt32
  answer : Answer
  deriving DecidableEq, Repr

namespace Answer

/-- A worker that is stopped by a fault reports it; one that breaks off reports nothing. -/
def ofStop : Stop Fault → Option Answer
  | .fault fault => some (.failed (.ofFault fault))
  | .overflow => none

def isFound : Answer → Bool
  | .found _ => true
  | _ => false

def peer? : Answer → Option Int32
  | .found peer => peer
  | _ => none

def cause? : Answer → Option Cause
  | .failed cause => some cause
  | _ => none

/-- A record has one byte for success, four for the index of the other end and one for the cause. -/
def recordSize : Nat := 6

/-- Minus one stands for no other end. -/
def noPeer : Int32 := -1

def record (a : Answer) : Bytes :=
  [if a.isFound then 1 else 0] ++ Bytes.ofNatBE 4 (a.peer?.getD noPeer).toUInt32.toNat ++
    [match a.cause? with | some cause => cause.code | none => 0]

/-- Whatever is not one well-formed record is a failure of the worker. -/
def ofRecord (b : Bytes) : Answer :=
  if b.length ≠ recordSize then .failed .worker
  else
    let peer := (UInt32.ofNat (Bytes.toNatBE ((b.drop 1).take 4))).toInt32
    let cause := b.getLastD 0
    if b.head? = some 0 then
      if cause = 0 then .absent
      else match Cause.ofCode? cause with
        | some cause => .failed cause
        | none => .failed .worker
    else if b.head? = some 1 ∧ cause = 0 then .found (if peer = noPeer then none else some peer)
    else .failed .worker

end Answer

namespace Finding

def record (f : Finding) : Bytes := f.answer.record

def ofRecord (candidate : UInt32) (b : Bytes) : Finding := ⟨candidate, .ofRecord b⟩

end Finding
end VethPeer
