import VethPeer.Crew.Basic

/-! Worker processes as their leader sees them: what they write, how they end, and whether the next
one can start. -/
namespace VethPeer

inductive Ending
  | exits (status : Status)
  /-- It still runs when its time is over. -/
  | hangs
  deriving DecidableEq, Repr

/-- Whether the worker program can be started. -/
inductive Program
  | ready
  | missing
  | denied
  deriving DecidableEq, Repr

def Program.fault? : Program → Option SpawnFault
  | .ready => none
  | .missing => some (.system .noEntry)
  | .denied => some (.system .accessDenied)

structure Worker where
  writes : Bytes := []
  ending : Ending := .exits (.code 0)
  /-- What it does to the program that it was started from. -/
  leaves : Option Program := none
  deriving DecidableEq, Repr

namespace Worker

/-- One byte more than a record has tells that there is more. -/
def readLimit : Nat := Answer.recordSize + 1

def killSignal : Nat := 9

/-- A worker whose time is over is killed, whatever it wrote. -/
def outcome (w : Worker) (candidate : UInt32) : Outcome :=
  match w.ending with
  | .exits status => ⟨.ofRecord candidate (w.writes.take readLimit), status⟩
  | .hangs => ⟨⟨candidate, .failed .entry⟩, .signal killSignal⟩

/-- The jobs for a list of candidates, if each worker is over before the next one starts. -/
def jobs (arguments : List String) : Program → List (UInt32 × Worker) → List Job
  | _, [] => []
  | program, (candidate, w) :: rest =>
    if arguments.any (·.toList.contains '\x00') then
      ⟨candidate, .error .zeroByte⟩ :: jobs arguments program rest
    else match program.fault? with
      | some fault => ⟨candidate, .error fault⟩ :: jobs arguments program rest
      | none => ⟨candidate, .ok (w.outcome candidate)⟩ :: jobs arguments (w.leaves.getD program) rest

end Worker
end VethPeer
