/-! Operational states of a link. -/
namespace VethPeer

inductive OperState
  | unknown
  | notPresent
  | down
  | lowerLayerDown
  | testing
  | dormant
  | up
  deriving DecidableEq, Repr

namespace OperState

/-- Numbers beyond the last state say nothing. -/
def ofCode (n : UInt8) : OperState :=
  [unknown, notPresent, down, lowerLayerDown, testing, dormant, up].getD n.toNat .unknown

def text : OperState → String
  | .unknown => "UNKNOWN"
  | .notPresent => "NOT_PRESENT"
  | .down => "DOWN"
  | .lowerLayerDown => "LOWERLAYERDOWN"
  | .testing => "TESTING"
  | .dormant => "DORMANT"
  | .up => "UP"

end OperState
end VethPeer
