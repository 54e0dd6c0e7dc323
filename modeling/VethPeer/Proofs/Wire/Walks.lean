import Mathlib
import VethPeer.Bytes

/-! A byte string is walked from its front to its end by a reader that takes one item off at a time,
or to where the reader finds a fault. -/
namespace VethPeer.Wire

variable {α ε ε' : Type} {b : Bytes}

/-- The items that `next` takes off the bytes in turn, and the fault that ends them if one does. -/
inductive Walks (next : Bytes → Except ε (α × Bytes)) : Bytes → List α → Option ε → Prop
  | ended : Walks next [] [] none
  | fault {b : Bytes} {e : ε} (more : b ≠ []) (fails : next b = .error e) : Walks next b [] (some e)
  | item {b rest : Bytes} {x : α} {xs : List α} {ending : Option ε} (more : b ≠ [])
      (reads : next b = .ok (x, rest)) (tail : Walks next rest xs ending) :
      Walks next b (x :: xs) ending

namespace Walks

variable {next : Bytes → Except ε (α × Bytes)} {next' : Bytes → Except ε' (α × Bytes)}
  {xs : List α} {ending : Option ε}

/-- One call of a reader that stands at these bytes: what it yields, if anything, and where it
stands then. After a fault nothing is left to read. -/
def pull (next : Bytes → Except ε (α × Bytes)) (b : Bytes) : Option (Except ε α) × Bytes :=
  if b.isEmpty then (none, b)
  else match next b with
    | .ok (x, rest) => (some (.ok x), rest)
    | .error e => (some (.error e), [])

/-- What the call yields that comes after `n` others. -/
def pulled (next : Bytes → Except ε (α × Bytes)) (b : Bytes) : ℕ → Option (Except ε α)
  | 0 => (pull next b).1
  | n + 1 => pulled next (pull next b).2 n

/-- All that is yielded: the items, then the fault if there is one. -/
def yields (xs : List α) (ending : Option ε) : List (Except ε α) :=
  xs.map .ok ++ (ending.map .error).toList

theorem pulled_nil (next : Bytes → Except ε (α × Bytes)) (n : ℕ) : pulled next [] n = none := by
  induction n with
  | zero => rfl
  | succ n ih => exact ih

theorem pulled_eq (h : Walks next b xs ending) (n : ℕ) :
    pulled next b n = (yields xs ending)[n]? := by
  induction h generalizing n with
  | ended => exact pulled_nil next n
  | @fault b e more fails =>
    have hp : pull next b = (some (.error e), []) := by simp [pull, more, fails]
    cases n with
    | zero => rw [pulled, hp]; rfl
    | succ n => rw [pulled, hp, pulled_nil]; rfl
  | @item b rest x xs ending more reads tail ih =>
    have hp : pull next b = (some (.ok x), rest) := by simp [pull, more, reads]
    cases n with
    | zero => rw [pulled, hp]; rfl
    | succ n => rw [pulled, hp, ih]; rfl

/-- Readers that take the same item off every byte string, or none, walk alike. -/
theorem congr (same : ∀ b, (next b).toOption = (next' b).toOption)
    (h : Walks next b xs ending) :
    ∃ ending', Walks next' b xs ending' ∧ ending'.isSome = ending.isSome := by
  induction h with
  | ended => exact ⟨none, .ended, rfl⟩
  | @fault b e more fails =>
    have hb := same b
    rw [fails] at hb
    cases hfails : next' b with
    | error e' => exact ⟨some e', .fault more hfails, rfl⟩
    | ok x => rw [hfails] at hb; cases hb
  | @item b rest x xs ending more reads tail ih =>
    have hb := same b
    rw [reads] at hb
    cases hreads : next' b with
    | error e' => rw [hreads] at hb; cases hb
    | ok x =>
      rw [hreads] at hb
      cases hb
      obtain ⟨ending', hwalks, hending⟩ := ih
      exact ⟨ending', .item more hreads hwalks, hending⟩

theorem unique {ys : List α} {ending' : Option ε} (h : Walks next b xs ending)
    (h' : Walks next b ys ending') : ys = xs ∧ ending' = ending := by
  induction h generalizing ys ending' with
  | ended =>
    cases h' with
    | ended => exact ⟨rfl, rfl⟩
    | fault more => exact absurd rfl more
    | item more => exact absurd rfl more
  | fault more fails =>
    cases h' with
    | ended => exact absurd rfl more
    | fault _ fails' =>
      cases fails.symm.trans fails'
      exact ⟨rfl, rfl⟩
    | item _ reads => cases fails.symm.trans reads
  | item more reads tail ih =>
    cases h' with
    | ended => exact absurd rfl more
    | fault _ fails => cases reads.symm.trans fails
    | item _ reads' tail' =>
      cases reads.symm.trans reads'
      obtain ⟨rfl, rfl⟩ := ih tail'
      exact ⟨rfl, rfl⟩

end Walks

end VethPeer.Wire
