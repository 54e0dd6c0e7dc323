import VethPeer.Probe.World
import VethPeer.Failure

/-! Choosing candidates from the process table. -/
namespace VethPeer

structure Scan where
  /-- A command matches one of these, or anything if there are none. -/
  patterns : List Glob := []
  /-- Processes in the caller's own namespace count too. -/
  includeHost : Bool := false
  /-- Every process counts, not only the lowest of each namespace. -/
  allPids : Bool := false

/-- A process that may become a candidate; its namespace is known if it matters. -/
structure Sighting where
  pid : UInt32
  namespaceId : Option NamespaceId
  deriving DecidableEq, Repr

namespace Scan

def ofPatterns (texts : List String) : Except Failure Scan :=
  match texts.mapM Glob.parse with
  | .ok patterns => .ok { patterns }
  | .error fault => .error (.pattern fault)

def needsNamespace (s : Scan) : Bool := !(s.includeHost && s.allPids)

def takesCommand (s : Scan) (command : String) : Bool :=
  s.patterns.isEmpty || Glob.anyMatch s.patterns command

/-- What the process table tells of a process that can be a candidate. -/
def sighting? (s : Scan) (p : ProcessEntry) : Option Sighting := do
  if p.vanished then none
  else
    let pid ← p.pid?
    let command ← p.command
    if !s.takesCommand command then none
    else if s.needsNamespace then
      match p.identity with
      | .ok id => some ⟨pid, some id⟩
      | .error _ => none
    else some ⟨pid, none⟩

/-- Keeps the processes outside of the namespace `own`, and of each namespace the first one; `seen`
holds the namespaces before. -/
def choose (s : Scan) (own : Option NamespaceId) : List NamespaceId → List Sighting → List UInt32
  | _, [] => []
  | seen, p :: rest =>
    if !s.needsNamespace then p.pid :: choose s own seen rest
    else match p.namespaceId with
      | none => choose s own seen rest
      | some id =>
        if !s.includeHost ∧ own = some id then choose s own seen rest
        else if s.allPids then p.pid :: choose s own seen rest
        else if seen.contains id then choose s own seen rest
        else p.pid :: choose s own (id :: seen) rest

/-- The candidates in ascending order. -/
def candidates (s : Scan) (w : World) : Except Failure (List UInt32) :=
  match w.tableFault with
  | some text => .error (.scan (.table text))
  | none =>
    let sightings := (w.processes.filterMap s.sighting?).mergeSort (·.pid ≤ ·.pid)
    if s.includeHost then .ok (s.choose none [] sightings)
    else match w.ownIdentity with
      | .ok own => .ok (s.choose (some own) [] sightings)
      | .error fault => .error (.scan (.identity fault))

end Scan
end VethPeer
