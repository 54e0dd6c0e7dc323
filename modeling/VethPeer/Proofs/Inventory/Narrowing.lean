import Mathlib
import VethPeer.Proofs.Inventory.Listing

/-! An inventory that was narrowed to what a query can be about is searched with the same result. -/
namespace VethPeer.Inventory

variable {q : Query} {inv full : Inventory} {i : Interface} {a : Assignment}

/-- The assignment belongs to what is asked for under the number of the query's family. -/
def inFamily (q : Query) (a : Assignment) : Bool :=
  q.family.code = 0 ∨ a.family.code = q.family.code

/-- Only interfaces that the query does not admit are missing, and of the others only addresses
outside of its family. Without interest in addresses there need not be any. -/
structure Narrows (q : Query) (inv full : Inventory) : Prop where
  interfaces : inv.interfaces.filter q.admits = full.interfaces.filter q.admits
  owned : q.isLinkOnly = false → ∀ i, q.admits i = true →
    inv.assignmentsOf i.index = (full.assignmentsOf i.index).filter (inFamily q)

theorem inFamily_of_matchesAddress (h : q.matchesAddress i a = true) : inFamily q a = true := by
  simp only [Query.matchesAddress, Bool.and_eq_true, Bool.or_eq_true, decide_eq_true_eq] at h
  obtain ⟨⟨⟨⟨hf, -⟩, -⟩, -⟩, -⟩ := h
  rcases hf with hf | hf <;> simp [inFamily, hf, Family.code]

theorem inFamily_unspec (h : q.family = .unspec) (a : Assignment) : inFamily q a = true := by
  simp [inFamily, h, Family.code]

/-- A query that takes no bare interface passes nothing by way of owning no address. -/
theorem satisfies_of_not_bare (hl : q.isLinkOnly = false) (hb : q.takesBare = false) :
    inv.satisfies q i = (inv.assignmentsOf i.index).any (q.matchesAddress i) := by
  cases ho : inv.assignmentsOf i.index <;> simp [satisfies, hl, hb, ho]

theorem filter_inFamily_filter (owned : List Assignment) :
    (owned.filter (inFamily q)).filter (q.matchesAddress i) =
      owned.filter (q.matchesAddress i) := by
  rw [List.filter_filter]
  apply List.filter_congr
  intro a _
  cases hm : q.matchesAddress i a with
  | false => rfl
  | true => simp [inFamily_of_matchesAddress hm]

theorem any_filter_inFamily (owned : List Assignment) :
    (owned.filter (inFamily q)).any (q.matchesAddress i) = owned.any (q.matchesAddress i) := by
  rw [List.any_filter]
  congr 1
  funext a
  cases hm : q.matchesAddress i a with
  | false => simp
  | true => simp [inFamily_of_matchesAddress hm]

/-- Outside of link queries, a query takes bare interfaces only if it asks for every family. -/
theorem family_of_takesBare (hl : q.isLinkOnly = false) (hb : q.takesBare = true) :
    q.family = .unspec := by
  simp only [Query.takesBare, Query.isLinkOnly, Bool.decide_or, Bool.or_eq_true,
    decide_eq_true_eq, decide_eq_false_iff_not] at hl hb
  exact hb.resolve_right hl

namespace Narrows

/-- Either the query takes every family, and what is owned is the same, or what is missing could
not have matched. -/
theorem satisfies_eq (h : Narrows q inv full) (hi : q.admits i = true) :
    inv.satisfies q i = full.satisfies q i := by
  cases hl : q.isLinkOnly with
  | true => simp [satisfies, hl]
  | false =>
    have ho := h.owned hl i hi
    cases hb : q.takesBare with
    | true =>
      rw [List.filter_eq_self.mpr fun a _ => inFamily_unspec (family_of_takesBare hl hb) a] at ho
      simp [satisfies, ho]
    | false =>
      rw [satisfies_of_not_bare hl hb, satisfies_of_not_bare hl hb, ho, any_filter_inFamily]

theorem shown_eq (h : Narrows q inv full) (hi : q.admits i = true) :
    inv.shown q i = full.shown q i := by
  cases hl : q.isLinkOnly with
  | true => simp [shown, hl]
  | false => simp only [shown, hl, h.owned hl i hi, filter_inFamily_filter]

theorem listing?_eq (h : Narrows q inv full) (hi : q.admits i = true) :
    inv.listing? q i = full.listing? q i := by
  rw [listing?_eq_ite, listing?_eq_ite, h.satisfies_eq hi, h.shown_eq hi]

theorem locate_eq (h : Narrows q inv full) : inv.locate q = full.locate q := by
  have hf : (full.interfaces.filter q.admits).find? (inv.satisfies q) =
      (full.interfaces.filter q.admits).find? (full.satisfies q) := by
    apply List.find?_congr
    intro i hi
    exact h.satisfies_eq (List.mem_filter.mp hi).2
  rw [locate, locate, h.interfaces, hf]

theorem list_eq (h : Narrows q inv full) : inv.list q = full.list q := by
  rw [list, list, h.interfaces]
  apply List.filterMap_congr
  intro i hi
  exact h.listing?_eq (List.mem_filter.mp hi).2

end Narrows
end VethPeer.Inventory
