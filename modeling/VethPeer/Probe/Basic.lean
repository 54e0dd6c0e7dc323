import VethPeer.Inventory.Search
import VethPeer.Probe.Finding
import VethPeer.Probe.Target
import VethPeer.Probe.World
import VethPeer.Session.Survey

/-! All that a worker does: enter the namespace of a candidate and look for the target there. -/
namespace VethPeer.Probe

/-- The inventory of a namespace that was entered, and the messages that were sent for it. -/
def survey (e : Endpoint) (q : Query) : Except (Stop Fault) Inventory × List Bytes :=
  match e.connect with
  | .error fault => (.error (.fault fault), [])
  | .ok s =>
    let (outcome, s) := s.survey q
    (outcome, s.sent.reverse)

/-- What came of a visit to a namespace. -/
structure Visit where
  /-- None if the worker broke off before it had one. -/
  answer : Option Answer
  /-- The messages that were sent there; none if no socket was asked for. -/
  sent : Option (List Bytes)
  deriving DecidableEq, Repr

def answer (q : Query) : Except (Stop Fault) Inventory → Option Answer
  | .error stop => Answer.ofStop stop
  | .ok inventory =>
    match inventory.locate q with
    | some location => some (.found location.peer)
    | none => some .absent

def visit (w : World) (candidate : UInt32) (t : Target) : Visit :=
  match t.query with
  | .error _ => ⟨some (.failed .netlink), none⟩
  | .ok q =>
    match w.enter candidate with
    | .error fault => ⟨some (.failed (.ofFault fault)), none⟩
    | .ok e =>
      let (outcome, sent) := survey e q
      ⟨answer q outcome, some sent⟩

/-- What the worker writes its record of, if it does not break off. -/
def run (w : World) (candidate : UInt32) (t : Target) : Option Finding :=
  (visit w candidate t).answer.map (⟨candidate, ·⟩)

end VethPeer.Probe
