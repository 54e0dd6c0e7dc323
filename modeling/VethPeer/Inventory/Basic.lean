import VethPeer.Net.Family
import VethPeer.Net.OperState

/-! The interfaces of a network namespace and the addresses assigned to them. -/
namespace VethPeer

structure Interface where
  index : Int32
  name : String
  /-- The index of the other end, in the namespace where that end is. -/
  peer : Option Int32
  flags : UInt32
  state : OperState
  kind : Option String
  deriving DecidableEq, Repr

structure Assignment where
  /-- The index of the interface that owns the address. -/
  owner : Int32
  family : Family
  length : UInt8
  scope : UInt8
  flags : UInt32
  label : Option String
  address : Option Ip
  deriving DecidableEq, Repr

/-- Both tables in the order in which the kernel listed them. -/
structure Inventory where
  interfaces : List Interface
  assignments : List Assignment
  deriving DecidableEq, Repr

namespace Inventory

/-- The first interface with this index. -/
def interface? (inv : Inventory) (index : Int32) : Option Interface :=
  inv.interfaces.find? (·.index = index)

def assignmentsOf (inv : Inventory) (index : Int32) : List Assignment :=
  inv.assignments.filter (·.owner = index)

def isEmpty (inv : Inventory) : Bool := inv.interfaces.isEmpty

end Inventory
end VethPeer
