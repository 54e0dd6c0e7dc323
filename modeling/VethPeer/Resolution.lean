import VethPeer.Crew.Basic
import VethPeer.Probe.Basic
import VethPeer.Scan
import VethPeer.Verdict

/-! Finding the host's end of a link: the host's inventory, the candidates, a crew, and a verdict. -/
namespace VethPeer

structure Resolution where
  verdict : Verdict
  report : CrewReport
  deriving DecidableEq, Repr

/-- Where candidates come from. -/
inductive Source
  | pids (candidates : List UInt32)
  | scan (s : Scan)

def Source.candidates (w : World) : Source → Except Failure (List UInt32)
  | .pids candidates => .ok candidates
  | .scan s => s.candidates w

namespace Resolution

/-- Everything that the host's own namespace holds. -/
def hostInventory (w : World) : Except (Stop Failure) Inventory :=
  (Probe.survey w.host {}).1.mapError (·.map .netlink)

def against (host : Inventory) (bound : Bound) (jobs : List Job) : Except Failure Resolution :=
  (Crew.run bound jobs).map fun report => ⟨.ofFindings report.findings host, report⟩

/-- The host comes first, then the candidates, then the crew. -/
def resolve (w : World) (source : Source) (bound : Bound) (jobs : List UInt32 → List Job) :
    Except (Stop Failure) Resolution := do
  let host ← hostInventory w
  let candidates ← (source.candidates w).mapError .fault
  (against host bound (jobs candidates)).mapError .fault

end Resolution
end VethPeer
