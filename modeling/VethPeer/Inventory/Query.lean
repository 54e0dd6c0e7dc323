import VethPeer.Inventory.Basic
import VethPeer.Net.Subnet

/-! Criteria for interfaces and for the addresses that they own. -/
namespace VethPeer

/-- An interface passes by index and name, an address by all that is asked of it. -/
structure Query where
  family : Family := .unspec
  scope : UInt8 := 0
  scopeMask : UInt8 := 0
  flags : UInt32 := 0
  flagMask : UInt32 := 0
  name : Option Glob := none
  label : Option Glob := none
  subnet : Option Subnet := none
  index : Option Int32 := none

namespace Query

def withFamily (q : Query) (family : Family) : Query := { q with family }

/-- Only the bits of the mask have to agree. -/
def withScope (q : Query) (scope mask : UInt8) : Query :=
  { q with scope, scopeMask := mask }

/-- Only the bits of the mask have to agree. -/
def withFlags (q : Query) (flags mask : UInt32) : Query := { q with flags, flagMask := mask }

def withName (q : Query) (pattern : String) : Except Failure Query :=
  match Glob.parse pattern with
  | .ok glob => .ok { q with name := some glob }
  | .error fault => .error (.pattern fault)

def withLabel (q : Query) (pattern : String) : Except Failure Query :=
  match Glob.parse pattern with
  | .ok glob => .ok { q with label := some glob }
  | .error fault => .error (.pattern fault)

/-- A subnet fixes the family too. -/
def withSubnet (q : Query) (subnet : Subnet) : Query :=
  { q with family := .ofIp subnet.address, subnet := some subnet }

def withIndex (q : Query) (index : Int32) : Query := { q with index := some index }

def ofAddress (a : Ip) : Query := withSubnet {} (.host a)

/-- Asks for the interface itself, whatever addresses it owns. -/
def ofDevice (pattern : String) : Except Failure Query := withName { family := .packet } pattern

/-- Addresses play no part. -/
def isLinkOnly (q : Query) : Bool := q.family = .packet

/-- An interface can pass without owning an address. -/
def takesBare (q : Query) : Bool := q.family = .unspec ∨ q.family = .packet

def admits (q : Query) (i : Interface) : Bool :=
  q.index.all (· = i.index) && q.name.all (·.isMatch i.name)

def labelFits (q : Query) (label : String) : Bool := q.label.all (·.isMatch label)

/-- The interface on its own, its name standing in for a label. -/
def matchesLink (q : Query) (i : Interface) : Bool := q.admits i && q.labelFits i.name

/-- An address owned by the interface, whose name labels it if it has no label. -/
def matchesAddress (q : Query) (i : Interface) (a : Assignment) : Bool :=
  (q.family = .unspec || a.family = q.family) &&
  (q.scope ^^^ a.scope) &&& q.scopeMask = 0 &&
  (q.flags ^^^ a.flags) &&& q.flagMask = 0 &&
  q.labelFits (a.label.getD i.name) &&
  q.subnet.all fun s => a.address.any s.contains

end Query
end VethPeer
