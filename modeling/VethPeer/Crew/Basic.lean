import VethPeer.Failure
import VethPeer.Probe.Finding

/-! A crew of worker processes, one for each candidate, with a bound on how many run at a time. -/
namespace VethPeer

/-- How a worker process ended. -/
inductive Status
  | code (n : UInt8)
  | signal (n : Nat)
  deriving DecidableEq, Repr

structure Outcome where
  finding : Finding
  status : Status
  deriving DecidableEq, Repr

/-- One place in the list of candidates: what starting its worker gives, and, if it starts, how the
worker comes out. -/
structure Job where
  candidate : UInt32
  launch : Except SpawnFault Outcome

/-- The most workers that may run at a time; none for no limit. -/
abbrev Bound := Option { n : Nat // 0 < n }

/-- Zero stands for no limit. -/
def Bound.ofNat (n : Nat) : Bound := if h : 0 < n then some ⟨n, h⟩ else none

/-- What the crew leader does: start the worker at a position of the list, or wait for it. -/
inductive Event
  | spawn (position : Nat)
  | await (position : Nat)
  deriving DecidableEq, Repr

structure CrewReport where
  outcomes : List Outcome
  skipped : Nat
  deriving DecidableEq, Repr

namespace CrewReport

def findings (r : CrewReport) : List Finding := r.outcomes.map (·.finding)

def failures (r : CrewReport) : List Outcome :=
  r.outcomes.filter (·.finding.answer.cause?.isSome)

end CrewReport

/-- A worker that was started and not waited for. -/
structure Running where
  position : Nat
  outcome : Outcome
  deriving DecidableEq, Repr

/-- The crew while it works: who runs, the oldest first, and what came of the others and of every
step, the latest first. -/
structure Crew where
  running : List Running := []
  outcomes : List Outcome := []
  events : List Event := []

namespace Crew

/-- Waits for the `n` oldest workers. -/
def await (n : Nat) (c : Crew) : Crew where
  running := c.running.drop n
  outcomes := ((c.running.take n).map (·.outcome)).reverse ++ c.outcomes
  events := ((c.running.take n).map fun r => .await r.position).reverse ++ c.events

def awaitAll (c : Crew) : Crew := c.await c.running.length

/-- Makes room for one more worker. -/
def makeRoom : Bound → Crew → Crew
  | none, c => c
  | some n, c => c.await (c.running.length + 1 - n)

/-- Some worker that was waited for found the target. -/
def hasFound (c : Crew) : Bool := c.outcomes.any (·.finding.answer.isFound)

def spawn (position : Nat) (outcome : Outcome) (c : Crew) : Crew where
  running := c.running ++ [⟨position, outcome⟩]
  outcomes := c.outcomes
  events := .spawn position :: c.events

/-- Starts the workers in order, the next at `position`. With a bound, no more are started once one
that was waited for has found the target. All are waited for in the end, even if one cannot start. -/
def work (bound : Bound) (position : Nat) : List Job → Crew → Except Failure CrewReport × Crew
  | [], c =>
    let c := c.awaitAll
    (.ok ⟨c.outcomes.reverse, 0⟩, c)
  | job :: jobs, c =>
    let c := c.makeRoom bound
    if bound.isSome && c.hasFound then
      let c := c.awaitAll
      (.ok ⟨c.outcomes.reverse, jobs.length + 1⟩, c)
    else match job.launch with
      | .error cause => (.error (.spawn job.candidate cause), c.awaitAll)
      | .ok outcome => work bound (position + 1) jobs (c.spawn position outcome)

def run (bound : Bound) (jobs : List Job) : Except Failure CrewReport := (work bound 0 jobs {}).1

/-- Every step in order. -/
def history (bound : Bound) (jobs : List Job) : List Event := (work bound 0 jobs {}).2.events.reverse

end Crew
end VethPeer
