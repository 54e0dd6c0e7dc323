import Mathlib
import VethPeer.Inventory.Search

/-! The search for one interface against the listing of all. The rule is written twice, once to stop
at the first interface that passes and once to show every one with its addresses. -/
namespace VethPeer.Inventory

variable {inv : Inventory} {q : Query} {i : Interface}

/-- The addresses that a listing shows of an interface that passes. -/
def shown (inv : Inventory) (q : Query) (i : Interface) : List Assignment :=
  if q.isLinkOnly then [] else (inv.assignmentsOf i.index).filter (q.matchesAddress i)

theorem isEmpty_filter {α : Type} (p : α → Bool) (as : List α) :
    (as.filter p).isEmpty = !as.any p := by
  rw [Bool.eq_iff_iff, List.isEmpty_iff, List.filter_eq_nil_iff, Bool.not_eq_true',
    List.any_eq_false]

/-- An interface is shown exactly if it passes. -/
theorem listing?_eq_ite (inv : Inventory) (q : Query) (i : Interface) :
    inv.listing? q i = if inv.satisfies q i then some ⟨i, inv.shown q i⟩ else none := by
  cases hl : q.isLinkOnly with
  | true => simp only [listing?, satisfies, shown, hl, if_true]
  | false =>
    cases ho : inv.assignmentsOf i.index with
    | nil =>
      cases hb : q.takesBare <;> cases hm : q.matchesLink i <;>
        simp [listing?, satisfies, shown, hl, ho, hb, hm]
    | cons a owned =>
      have hs : inv.satisfies q i = (a :: owned).any (q.matchesAddress i) := by
        simp [satisfies, hl, ho]
      simp only [listing?, shown, hl, ho, hs, isEmpty_filter]
      cases (a :: owned).any (q.matchesAddress i) <;> simp

/-- The listing is the interfaces that pass, each with what is shown of it. -/
theorem list_eq_map (inv : Inventory) (q : Query) :
    inv.list q = ((inv.interfaces.filter q.admits).filter (inv.satisfies q)).map
      fun i => ⟨i, inv.shown q i⟩ := by
  have hf : inv.listing? q = fun i =>
      if inv.satisfies q i then some ⟨i, inv.shown q i⟩ else none :=
    funext (listing?_eq_ite inv q)
  rw [list, hf, ← List.filterMap_eq_map']
  exact List.filterMap_filter.symm

/-- The search finds an interface exactly if some interface is listed, and then it is the first one
of the list with its other end. -/
theorem locate_eq_head?_list (inv : Inventory) (q : Query) :
    ((inv.locate q).isSome = true ↔ inv.list q ≠ []) ∧
      inv.locate q =
        (inv.list q).head?.map fun l => ⟨l.interface.index, l.interface.peer⟩ := by
  have heq : inv.locate q =
      (inv.list q).head?.map fun l => ⟨l.interface.index, l.interface.peer⟩ := by
    rw [locate, list_eq_map, List.head?_map, List.head?_filter, Option.map_map]
    rfl
  refine ⟨?_, heq⟩
  rw [heq, Option.isSome_map, List.isSome_head?]

end VethPeer.Inventory
