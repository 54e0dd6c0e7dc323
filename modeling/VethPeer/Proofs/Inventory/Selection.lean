import Mathlib
import VethPeer.Proofs.Inventory.Narrowing

/-! A listing shows all that passes a query and nothing else, each address under its owner only. -/
namespace VethPeer.Inventory

variable {q : Query} {inv inv' : Inventory} {i : Interface} {a : Assignment}
  {interfaces : List Interface}

/-- The query asks for the interface and for one of the addresses that it owns, or it owns none and
the query is not about addresses of one family. -/
def Passes (inv : Inventory) (q : Query) (i : Interface) : Prop :=
  q.admits i ∧
    ((∃ a ∈ inv.assignments, a.owner = i.index ∧ q.matchesAddress i a) ∨
      (∀ a ∈ inv.assignments, a.owner ≠ i.index) ∧ q.family = .unspec ∧ q.labelFits i.name)

instance (inv : Inventory) (q : Query) (i : Interface) : Decidable (inv.Passes q i) :=
  inferInstanceAs (Decidable (_ ∧ _))

/-- Some interface has the number that the address names as its owner. -/
def isOwned (inv : Inventory) (a : Assignment) : Bool := inv.interfaces.any (·.index = a.owner)

theorem owned_eq_nil_iff :
    inv.assignmentsOf i.index = [] ↔ ∀ a ∈ inv.assignments, a.owner ≠ i.index := by
  simp [assignmentsOf]

theorem takesBare_iff (hl : q.isLinkOnly = false) : q.takesBare = true ↔ q.family = .unspec := by
  constructor
  · exact family_of_takesBare hl
  · intro hf
    simp [Query.takesBare, hf]

theorem satisfies_iff (hl : q.isLinkOnly = false) (hi : q.admits i = true) :
    inv.satisfies q i = true ↔ inv.Passes q i := by
  by_cases ho : inv.assignmentsOf i.index = []
  · have hnone := owned_eq_nil_iff.mp ho
    have hs : inv.satisfies q i = (q.takesBare && q.matchesLink i) := by
      simp [satisfies, hl, ho]
    rw [hs, Bool.and_eq_true, takesBare_iff hl, Query.matchesLink, hi, Bool.true_and]
    constructor
    · intro h
      exact ⟨hi, Or.inr ⟨hnone, h⟩⟩
    · rintro ⟨-, ⟨a, ha, hown, -⟩ | ⟨-, h⟩⟩
      · exact (hnone a ha hown).elim
      · exact h
  · have hs : inv.satisfies q i = (inv.assignmentsOf i.index).any (q.matchesAddress i) := by
      simp [satisfies, hl, ho]
    rw [hs, List.any_eq_true]
    constructor
    · rintro ⟨a, ha, hm⟩
      obtain ⟨hmem, hown⟩ := List.mem_filter.mp ha
      exact ⟨hi, Or.inl ⟨a, hmem, of_decide_eq_true hown, hm⟩⟩
    · rintro ⟨-, ⟨a, ha, hown, hm⟩ | ⟨hnone, -⟩⟩
      · exact ⟨a, List.mem_filter.mpr ⟨ha, decide_eq_true hown⟩, hm⟩
      · exact (ho (owned_eq_nil_iff.mpr hnone)).elim

/-- The listing for a query about addresses. One that owns no address is shown with none. -/
theorem list_of_addresses (hl : q.isLinkOnly = false) :
    inv.list q = (inv.interfaces.filter (inv.Passes q ·)).map fun i =>
      ⟨i, inv.assignments.filter fun a => a.owner = i.index ∧ q.matchesAddress i a⟩ := by
  have hfilter : (inv.interfaces.filter q.admits).filter (inv.satisfies q) =
      inv.interfaces.filter (inv.Passes q ·) := by
    rw [List.filter_filter]
    apply List.filter_congr
    intro i _
    rw [Bool.eq_iff_iff, Bool.and_eq_true, decide_eq_true_eq]
    constructor
    · rintro ⟨hs, hi⟩
      exact (satisfies_iff hl hi).mp hs
    · intro hp
      exact ⟨(satisfies_iff hl hp.1).mpr hp, hp.1⟩
  rw [list_eq_map, hfilter]
  apply List.map_congr_left
  intro i _
  simp [shown, hl, assignmentsOf, List.filter_filter, Bool.and_comm]

theorem list_of_links (hl : q.isLinkOnly = true) :
    inv.list q = (inv.interfaces.filter fun i => q.admits i ∧ q.labelFits i.name).map (⟨·, []⟩) := by
  have hfilter : (inv.interfaces.filter q.admits).filter (inv.satisfies q) =
      inv.interfaces.filter fun i => q.admits i ∧ q.labelFits i.name := by
    rw [List.filter_filter]
    apply List.filter_congr
    intro i _
    cases hi : q.admits i <;> simp [satisfies, hl, Query.matchesLink, hi]
  rw [list_eq_map, hfilter]
  apply List.map_congr_left
  intro i _
  simp [shown, hl]

/-- Of each interface only addresses that it owns are shown. -/
theorem owner_of_listed {l : Listing} (h : l ∈ inv.list q) (ha : a ∈ l.assignments) :
    a.owner = l.interface.index ∧ inv.isOwned a = true := by
  rw [list_eq_map] at h
  obtain ⟨i, hi, rfl⟩ := List.mem_map.mp h
  have hmem : i ∈ inv.interfaces := (List.mem_filter.mp (List.mem_filter.mp hi).1).1
  have hown : a ∈ inv.assignmentsOf i.index := by
    rw [shown] at ha
    split at ha
    · cases ha
    · exact (List.mem_filter.mp ha).1
  have hindex : a.owner = i.index := of_decide_eq_true (List.mem_filter.mp hown).2
  exact ⟨hindex, List.any_eq_true.mpr ⟨i, hmem, decide_eq_true hindex.symm⟩⟩

theorem assignmentsOf_filter_isOwned (hi : i ∈ inv.interfaces) :
    (inv.assignments.filter inv.isOwned).filter (·.owner = i.index) =
      inv.assignmentsOf i.index := by
  rw [List.filter_filter, assignmentsOf]
  apply List.filter_congr
  intro a _
  by_cases hown : a.owner = i.index
  · have ho : inv.isOwned a = true := List.any_eq_true.mpr ⟨i, hi, decide_eq_true hown.symm⟩
    rw [ho, Bool.and_true]
  · simp [hown]

/-- Addresses without an owner do not change what is listed. -/
theorem list_congr_of_owned (hinterfaces : inv'.interfaces = inv.interfaces)
    (howned : inv'.assignments.filter inv.isOwned = inv.assignments.filter inv.isOwned) :
    inv'.list q = inv.list q := by
  have hsame : inv'.isOwned = inv.isOwned := by
    funext a
    rw [isOwned, isOwned, hinterfaces]
  have hof : ∀ i ∈ inv.interfaces,
      inv'.assignmentsOf i.index = inv.assignmentsOf i.index := by
    intro i hi
    rw [← assignmentsOf_filter_isOwned hi, ← howned, ← hsame,
      assignmentsOf_filter_isOwned (hinterfaces ▸ hi)]
  rw [list, list, hinterfaces]
  apply List.filterMap_congr
  intro i hi
  simp only [listing?, hof i (List.mem_filter.mp hi).1]

/-- Under different numbers no address is owned twice. -/
theorem flatMap_owned_subperm (h : (interfaces.map (·.index)).Nodup) (as : List Assignment) :
    (interfaces.flatMap fun i => as.filter (·.owner = i.index)).Subperm as := by
  induction interfaces generalizing as with
  | nil => exact List.nil_subperm
  | cons i interfaces ih =>
    obtain ⟨hi, hnodup⟩ := List.nodup_cons.mp h
    have hothers : (interfaces.flatMap fun j => as.filter (·.owner = j.index)) =
        interfaces.flatMap fun j =>
          (as.filter fun a => !decide (a.owner = i.index)).filter (·.owner = j.index) := by
      apply List.flatMap_congr
      intro j hj
      rw [List.filter_filter]
      apply List.filter_congr
      intro a _
      by_cases hown : a.owner = j.index
      · have hne : a.owner ≠ i.index := by
          intro he
          exact hi (List.mem_map.mpr ⟨j, hj, hown.symm.trans he⟩)
        simp [hown, hown ▸ hne]
      · simp [hown]
    rw [List.flatMap_cons, hothers]
    have hrest := ih hnodup (as.filter fun a => !decide (a.owner = i.index))
    exact ((List.subperm_append_left _).mpr hrest).trans
      (List.filter_append_perm (fun a => decide (a.owner = i.index)) as).subperm

theorem listed_sublist (inv : Inventory) (q : Query) :
    ((inv.list q).flatMap (·.assignments)).Sublist
      (inv.interfaces.flatMap fun i => inv.assignmentsOf i.index) := by
  have hshown : ∀ i, (inv.shown q i).Sublist (inv.assignmentsOf i.index) := by
    intro i
    rw [shown]
    split
    · exact List.nil_sublist _
    · exact List.filter_sublist
  rw [list_eq_map, List.flatMap_map]
  refine List.Sublist.trans (List.Sublist.flatMap_right _ fun i _ => hshown i) ?_
  exact (List.filter_sublist.trans List.filter_sublist).flatMap _

/-- What is listed for a query about addresses are the interfaces that pass it, each with all of its
addresses that do, and for a query about links the interfaces alone, both in the order of the
inventory. Addresses without an owner play no part, and interfaces with different numbers share
none. -/
theorem list_exact (inv : Inventory) (q : Query) :
    (q.isLinkOnly = false →
      inv.list q = (inv.interfaces.filter (inv.Passes q ·)).map fun i =>
        ⟨i, inv.assignments.filter fun a => a.owner = i.index ∧ q.matchesAddress i a⟩) ∧
    (q.isLinkOnly = true →
      inv.list q =
        (inv.interfaces.filter fun i => q.admits i ∧ q.labelFits i.name).map (⟨·, []⟩)) ∧
    (∀ l ∈ inv.list q, ∀ a ∈ l.assignments, a.owner = l.interface.index ∧ inv.isOwned a) ∧
    (∀ inv' : Inventory, inv'.interfaces = inv.interfaces →
      inv'.assignments.filter inv.isOwned = inv.assignments.filter inv.isOwned →
      inv'.list q = inv.list q) ∧
    ((inv.interfaces.map (·.index)).Nodup →
      ((inv.list q).flatMap (·.assignments)).Subperm inv.assignments) := by
  refine ⟨list_of_addresses, list_of_links, ?_, fun _ => list_congr_of_owned, ?_⟩
  · intro l hl a ha
    exact owner_of_listed hl ha
  · intro hnodup
    exact (listed_sublist inv q).subperm.trans (flatMap_owned_subperm hnodup inv.assignments)

def eth0 : Interface := ⟨5, "eth0", some 2, 0, .up, none⟩

def dummy0 : Interface := ⟨7, "dummy0", none, 0, .up, none⟩

/-- An address with its label. -/
def labelled (owner : Int32) (label : String) : Assignment :=
  ⟨owner, .inet, 24, 0, 0, some label, none⟩

/-- One interface owns two addresses, one owns none, and one address has no owner. -/
def someTables : Inventory where
  interfaces := [dummy0, eth0]
  assignments := [labelled 5 "eth0", labelled 9 "eth0", labelled 5 "eth0:1"]

/-- Everything, the links only, and what has a family: the last leaves out the bare interface. -/
theorem list_exact_someTables :
    ({} : Query).isLinkOnly = false ∧ ({ family := .inet } : Query).isLinkOnly = false ∧
    ({ family := .packet } : Query).isLinkOnly = true ∧
    (someTables.interfaces.map (·.index)).Nodup ∧
    someTables.list {} = [⟨dummy0, []⟩, ⟨eth0, [labelled 5 "eth0", labelled 5 "eth0:1"]⟩] ∧
    someTables.list { family := .packet } = [⟨dummy0, []⟩, ⟨eth0, []⟩] ∧
    someTables.list { family := .inet } =
      [⟨eth0, [labelled 5 "eth0", labelled 5 "eth0:1"]⟩] ∧
    (⟨someTables.interfaces, [labelled 5 "eth0", labelled 5 "eth0:1"]⟩ : Inventory).list {} =
      someTables.list {} ∧
    ((someTables.list {}).flatMap (·.assignments)).Subperm someTables.assignments := by
  have hnodup : (someTables.interfaces.map (·.index)).Nodup := by decide
  obtain ⟨hall, -, -, howned, hsubperm⟩ := list_exact someTables {}
  have hlinks := (list_exact someTables { family := .packet }).2.1 rfl
  have hinet := (list_exact someTables { family := .inet }).1 rfl
  refine ⟨rfl, rfl, rfl, hnodup, (hall rfl).trans ?_, hlinks.trans ?_, hinet.trans ?_,
    howned _ rfl ?_, hsubperm hnodup⟩
  · decide
  · decide
  · decide
  · decide

end VethPeer.Inventory
