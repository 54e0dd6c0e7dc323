import Mathlib
import VethPeer.Proofs.Inventory.Narrowing
import VethPeer.Proofs.Net.Containment

/-! Which interface the search for an address or for a device comes to. -/
namespace VethPeer

variable {q : Query} {i : Interface} {x : Assignment} {pattern : String} {glob : Glob}

namespace Query

theorem ofAddress_isLinkOnly (a : Ip) : (ofAddress a).isLinkOnly = false := by
  cases a <;> rfl

theorem ofAddress_takesBare (a : Ip) : (ofAddress a).takesBare = false := by
  cases a <;> rfl

/-- Scope, flags and label are not asked for. -/
theorem ofAddress_matchesAddress (a : Ip) (i : Interface) (x : Assignment) :
    (ofAddress a).matchesAddress i x = decide (x.family = .ofIp a ∧ x.address = some a) := by
  have hf : Family.ofIp a ≠ .unspec := by cases a <;> simp [Family.ofIp]
  have ha : (Subnet.host a).address = a := rfl
  cases hx : x.address with
  | none => simp [matchesAddress, ofAddress, withSubnet, hx]
  | some b =>
    simp [matchesAddress, ofAddress, withSubnet, hx, labelFits, Subnet.contains_host, ha, hf]

theorem ofDevice_eq (h : Glob.parse pattern = .ok glob) :
    ofDevice pattern = .ok { family := .packet, name := some glob } := by
  simp [ofDevice, withName, h]

end Query

namespace Inventory

variable {inv : Inventory}

/-- The interface with this index owns the address. -/
def owns (inv : Inventory) (index : Int32) (a : Ip) : Bool :=
  inv.assignments.any fun x => x.owner = index ∧ x.family = .ofIp a ∧ x.address = some a

theorem locate_ofAddress (inv : Inventory) (a : Ip) :
    inv.locate (.ofAddress a) =
      (inv.interfaces.find? fun i => inv.owns i.index a).map fun i => ⟨i.index, i.peer⟩ := by
  have hadmits (i : Interface) : (Query.ofAddress a).admits i = true := by
    simp [Query.admits, Query.ofAddress, Query.withSubnet]
  have hsatisfies : inv.satisfies (.ofAddress a) = fun i => inv.owns i.index a := by
    funext i
    rw [satisfies_of_not_bare (Query.ofAddress_isLinkOnly a) (Query.ofAddress_takesBare a),
      assignmentsOf, List.any_filter, owns]
    congr 1
    funext x
    simp [Query.ofAddress_matchesAddress]
  rw [locate, List.filter_eq_self.mpr fun i _ => hadmits i, hsatisfies]

theorem locate_ofDevice (inv : Inventory) (h : Query.ofDevice pattern = .ok q)
    (hg : Glob.parse pattern = .ok glob) :
    inv.locate q =
      (inv.interfaces.find? fun i => glob.isMatch i.name).map fun i => ⟨i.index, i.peer⟩ := by
  obtain rfl : { family := .packet, name := some glob } = q := by
    rw [Query.ofDevice_eq hg] at h
    exact Except.ok.inj h
  rw [locate, List.find?_filter]
  congr 2
  funext i
  simp [satisfies, Query.isLinkOnly, Query.matchesLink, Query.admits, Query.labelFits]

end Inventory
end VethPeer
