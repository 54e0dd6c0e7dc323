import VethPeer.Inventory.Basic
import VethPeer.Probe.Finding

/-! The answer of all workers together, in terms of the host's interfaces. -/
namespace VethPeer

inductive Verdict
  | matched (candidate : UInt32) (peer : Int32) (name : String)
  | noMatch
  | noPeer (candidate : UInt32)
  | unknownPeer (candidate : UInt32) (peer : Int32)
  deriving DecidableEq, Repr

namespace Verdict

/-- The first finding that found the target decides. -/
def ofFindings (findings : List Finding) (host : Inventory) : Verdict :=
  match findings.find? (·.answer.isFound) with
  | none => .noMatch
  | some f =>
    match f.answer.peer? with
    | none => .noPeer f.candidate
    | some peer =>
      match host.interface? peer with
      | some i => .matched f.candidate peer i.name
      | none => .unknownPeer f.candidate peer

def name? : Verdict → Option String
  | .matched _ _ name => some name
  | _ => none

def candidate? : Verdict → Option UInt32
  | .matched candidate .. | .noPeer candidate | .unknownPeer candidate _ => some candidate
  | .noMatch => none

def peer? : Verdict → Option Int32
  | .matched _ peer _ | .unknownPeer _ peer => some peer
  | _ => none

def text : Verdict → String
  | .matched candidate _ name => s!"{name} (peer of pid {candidate})"
  | .noMatch => "no candidate matched"
  | .noPeer candidate => s!"interface of pid {candidate} has no peer link"
  | .unknownPeer candidate peer =>
    s!"peer index {peer.toInt} of pid {candidate} is not a host interface"

end Verdict
end VethPeer
