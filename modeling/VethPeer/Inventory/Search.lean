import VethPeer.Inventory.Query

/-! Searching an inventory: the first interface that passes a query, and all that pass it. -/
namespace VethPeer

/-- An interface and its other end. -/
structure Location where
  owner : Int32
  peer : Option Int32
  deriving DecidableEq, Repr

/-- An interface with those of its addresses that pass. -/
structure Listing where
  interface : Interface
  assignments : List Assignment
  deriving DecidableEq, Repr

namespace Inventory

/-- An interface that owns addresses passes by one of them, one that owns none by itself. -/
def satisfies (inv : Inventory) (q : Query) (i : Interface) : Bool :=
  if q.isLinkOnly then q.matchesLink i
  else
    let owned := inv.assignmentsOf i.index
    if owned.isEmpty then q.takesBare && q.matchesLink i
    else owned.any (q.matchesAddress i)

/-- The first interface, in the order of the inventory, that passes the query. -/
def locate (inv : Inventory) (q : Query) : Option Location :=
  ((inv.interfaces.filter q.admits).find? (inv.satisfies q)).map fun i => ⟨i.index, i.peer⟩

/-- What a listing shows of an interface, if anything. -/
def listing? (inv : Inventory) (q : Query) (i : Interface) : Option Listing :=
  let bare : Option Listing := if q.matchesLink i then some ⟨i, []⟩ else none
  if q.isLinkOnly then bare
  else
    let owned := inv.assignmentsOf i.index
    if owned.isEmpty then (if q.takesBare then bare else none)
    else
      let passing := owned.filter (q.matchesAddress i)
      if passing.isEmpty then none else some ⟨i, passing⟩

/-- Every interface that passes the query, in the order of the inventory. -/
def list (inv : Inventory) (q : Query) : List Listing :=
  (inv.interfaces.filter q.admits).filterMap (inv.listing? q)

end Inventory
end VethPeer
