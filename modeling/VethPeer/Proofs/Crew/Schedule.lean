import Mathlib
import VethPeer.Resolution

/-! How far a crew gets through its list, and that its bound does not change what it finds. -/
namespace VethPeer.Crew

variable {bound : Bound} {started rest outcomes : List Outcome} {c : Crew} {w : ℕ}

/-- The worker at this place found the target. -/
def found (o : Outcome) : Bool := o.finding.answer.isFound

/-- How many workers of a list are started. With a bound of `n` the last chance to stop in front of
a worker is when the one `n` places before it was waited for. Without a find, `findIdx` is the
length. -/
def reach : Bound → List Outcome → ℕ
  | none, os => os.length
  | some n, os => min os.length (os.findIdx found + n)

/-- How many workers were waited for just before there has to be room for one after `k` others. -/
def waited : Bound → ℕ → ℕ
  | none, _ => 0
  | some n, k => k - n

/-- Of the workers that were started, the first `w` were waited for and the others run. -/
structure Cut (w : ℕ) (started : List Outcome) (c : Crew) : Prop where
  outcomes : c.outcomes.reverse = started.take w
  running : c.running.map (·.outcome) = started.drop w

theorem any_take_iff {p : Outcome → Bool} {os : List Outcome} {k : ℕ} :
    (os.take k).any p = true ↔ os.findIdx p < min k os.length := by
  have hl : os.findIdx p ≤ os.length := List.findIdx_le_length
  have ht : (os.take k).any p = true ↔ (os.take k).findIdx p < (os.take k).length := by
    rw [List.findIdx_lt_length, List.any_eq_true]
  rw [ht, List.findIdx_take, List.length_take]
  omega

@[simp] theorem waited_zero : waited bound 0 = 0 := by
  cases bound with
  | none => rfl
  | some n => exact Nat.zero_sub n

theorem waited_succ_le (k : ℕ) : waited bound (k + 1) ≤ k := by
  cases bound with
  | none => exact Nat.zero_le k
  | some n =>
    have hn := n.property
    simp only [waited]
    omega

theorem cut_initial : Cut 0 [] {} := ⟨rfl, rfl⟩

theorem Cut.length_running (h : Cut w started c) : c.running.length = started.length - w := by
  simpa using congrArg List.length h.running

theorem Cut.await (h : Cut w started c) (n : ℕ) : Cut (w + n) started (c.await n) where
  outcomes := by
    simp only [Crew.await, List.reverse_append, List.reverse_reverse, List.map_take, h.outcomes,
      h.running, List.take_add]
  running := by simp only [Crew.await, List.map_drop, h.running, List.drop_drop]

theorem Cut.awaitAll (h : Cut w started c) : c.awaitAll.outcomes.reverse = started := by
  have hr := h.length_running
  exact (h.await c.running.length).outcomes.trans (List.take_of_length_le (by omega))

/-- Room for one more is made by waiting until the bound allows it. -/
theorem Cut.makeRoom (h : Cut (waited bound started.length) started c) :
    Cut (waited bound (started.length + 1)) started (c.makeRoom bound) := by
  cases bound with
  | none => exact h
  | some n =>
    have hn := n.property
    have hr := h.length_running
    have hw : waited (some n) (started.length + 1) =
        waited (some n) started.length + (c.running.length + 1 - n) := by
      simp only [waited] at hr ⊢
      omega
    rw [hw]
    exact h.await _

theorem Cut.spawn (h : Cut w started c) (hw : w ≤ started.length) (p : ℕ) (o : Outcome) :
    Cut w (started ++ [o]) (c.spawn p o) where
  outcomes := by rw [List.take_append_of_le_length hw]; exact h.outcomes
  running := by
    rw [List.drop_append_of_le_length hw, ← h.running]
    simp [Crew.spawn]

theorem Cut.hasFound_iff (h : Cut w started c) :
    c.hasFound = true ↔ started.findIdx found < min w started.length := by
  rw [← any_take_iff, ← h.outcomes, List.any_reverse]
  rfl

/-- A crew that did not stop in front of its last worker can have reached that worker. -/
theorem reach_of_not_found
    (h : ¬ started.findIdx found < min (waited bound started.length) started.length) :
    reach bound started = started.length := by
  have hl : started.findIdx found ≤ started.length := List.findIdx_le_length
  cases bound with
  | none => rfl
  | some n =>
    simp only [reach, waited] at h ⊢
    omega

/-- A find that makes the crew stop is exactly `n` places back. -/
theorem reach_of_found {n : {n : ℕ // 0 < n}}
    (hq : ¬ started.findIdx found < min (waited (some n) started.length) started.length)
    (hf : started.findIdx found < min (waited (some n) (started.length + 1)) started.length) :
    reach (some n) (started ++ rest) = started.length := by
  have hi : (started ++ rest).findIdx found = started.findIdx found := by
    rw [List.findIdx_append, if_pos (by omega)]
  simp only [reach, waited, hi, List.length_append] at hq hf ⊢
  omega

theorem findIdx_concat_iff {o : Outcome} {k : ℕ} (hk : k ≤ started.length) :
    (started ++ [o]).findIdx found < min k (started ++ [o]).length ↔
      started.findIdx found < min k started.length := by
  rw [← any_take_iff, ← any_take_iff, List.take_append_of_le_length hk]

/-- The run from any place on: the invariant is that the crew is cut where the bound says, and that
nothing was found among the workers that were waited for. -/
theorem work_launched {jobs : List Job} (h : Cut (waited bound started.length) started c)
    (hq : ¬ started.findIdx found < min (waited bound started.length) started.length)
    (hl : jobs.map (·.launch) = rest.map .ok) (p : ℕ) :
    (work bound p jobs c).1 = .ok ⟨(started ++ rest).take (reach bound (started ++ rest)),
      (started ++ rest).length - reach bound (started ++ rest)⟩ := by
  induction jobs generalizing started rest c p with
  | nil =>
    have hr : rest = [] := by simpa using hl.symm
    subst hr
    simp [work, h.awaitAll, reach_of_not_found hq]
  | cons job jobs ih =>
    obtain ⟨o, rest, rfl⟩ : ∃ o os, rest = o :: os := by
      cases rest with
      | nil => simp at hl
      | cons o os => exact ⟨o, os, rfl⟩
    simp only [List.map_cons, List.cons.injEq] at hl
    have hroom := h.makeRoom
    by_cases hs : bound.isSome && (c.makeRoom bound).hasFound
    · rw [Bool.and_eq_true] at hs
      obtain ⟨n, rfl⟩ := Option.isSome_iff_exists.mp hs.1
      have hlen : jobs.length = rest.length := by simpa using congrArg List.length hl.2
      simp [work, hs.2, hroom.awaitAll, reach_of_found hq (hroom.hasFound_iff.mp hs.2), hlen]
    · have hnot : ¬ started.findIdx found <
          min (waited bound (started.length + 1)) started.length := by
        cases bound with
        | none => simp [waited]
        | some n => simpa [hroom.hasFound_iff] using hs
      have hlen : (started ++ [o]).length = started.length + 1 := by simp
      have hle : waited bound (started ++ [o]).length ≤ started.length :=
        hlen ▸ waited_succ_le started.length
      rw [← hlen] at hroom hnot
      have hnext := ih (hroom.spawn hle p o) (mt (findIdx_concat_iff hle).mp hnot) hl.2 (p + 1)
      simpa [work, hs, hl.1] using hnext

/-- Nobody found anything among those that a crew started, so it went through the whole list. -/
theorem length_le_reach (h : ∀ o ∈ outcomes.take (reach bound outcomes), ¬ found o = true) :
    outcomes.length ≤ reach bound outcomes := by
  have hany : ¬ (outcomes.take (reach bound outcomes)).any found = true := by
    simpa using h
  rw [any_take_iff] at hany
  have hl : outcomes.findIdx found ≤ outcomes.length := List.findIdx_le_length
  cases bound with
  | none => exact le_rfl
  | some n =>
    have hn := n.property
    simp only [reach] at hany ⊢
    omega

/-- What a crew started is enough to find what the whole list would find first. -/
theorem find?_take_reach :
    (outcomes.take (reach bound outcomes)).find? found = outcomes.find? found := by
  conv_rhs => rw [← List.take_append_drop (reach bound outcomes) outcomes, List.find?_append]
  cases ht : (outcomes.take (reach bound outcomes)).find? found with
  | some o => rfl
  | none =>
    have hr := length_le_reach (List.find?_eq_none.mp ht)
    simp [List.drop_of_length_le hr]

theorem ofFindings_take_reach (host : Inventory) :
    Verdict.ofFindings ((outcomes.take (reach bound outcomes)).map (·.finding)) host =
      Verdict.ofFindings (outcomes.map (·.finding)) host := by
  have hf : ((outcomes.take (reach bound outcomes)).map (·.finding)).find? (·.answer.isFound) =
      (outcomes.map (·.finding)).find? (·.answer.isFound) := by
    rw [List.find?_map, List.find?_map]
    exact congrArg (Option.map _) find?_take_reach
  rw [Verdict.ofFindings, Verdict.ofFindings, hf]

theorem run_eq {jobs : List Job} (h : jobs.map (·.launch) = outcomes.map .ok) :
    run bound jobs = .ok ⟨outcomes.take (reach bound outcomes),
      outcomes.length - reach bound outcomes⟩ := by
  have hc : Cut (waited bound ([] : List Outcome).length) [] {} := by simpa using cut_initial
  exact work_launched hc (by simp) h 0

theorem against_eq {jobs : List Job} (h : jobs.map (·.launch) = outcomes.map .ok)
    (host : Inventory) :
    Resolution.against host bound jobs = .ok ⟨.ofFindings (outcomes.map (·.finding)) host,
      ⟨outcomes.take (reach bound outcomes), outcomes.length - reach bound outcomes⟩⟩ := by
  have hverdict : Verdict.ofFindings ((outcomes.take (reach bound outcomes)).map (·.finding)) host =
      Verdict.ofFindings (outcomes.map (·.finding)) host := ofFindings_take_reach host
  rw [Resolution.against, run_eq h, ← hverdict]
  rfl

/-- If every worker starts, a crew brings home the outcomes of the first `reach` workers in order,
and the verdict is that of the whole list whatever the bound. -/
theorem run_launched {jobs : List Job} (h : jobs.map (·.launch) = outcomes.map .ok)
    (host : Inventory) :
    run bound jobs = .ok ⟨outcomes.take (reach bound outcomes),
        outcomes.length - reach bound outcomes⟩ ∧
      (Resolution.against host bound jobs).map (·.verdict) =
        .ok (.ofFindings (outcomes.map (·.finding)) host) := by
  refine ⟨run_eq h, ?_⟩
  rw [against_eq h]
  rfl

/-- The second of five workers finds the target, and so does the last, for the same candidate. -/
def fiveOutcomes : List Outcome :=
  [(7, .absent), (8, .found (some 4)), (7, .failed .entry), (9, .found none),
    (8, .found (some 5))].map fun (candidate, answer) => ⟨⟨candidate, answer⟩, .code 0⟩

def fiveJobs : List Job := fiveOutcomes.map fun o => ⟨o.finding.candidate, .ok o⟩

def vethHost : Inventory := ⟨[⟨4, "veth4", none, 0, .up, none⟩], []⟩

/-- Two at a time, the crew learns of the find in front of the fourth worker. -/
theorem run_launched_five :
    fiveJobs.map (·.launch) = fiveOutcomes.map .ok ∧
      run (.ofNat 2) fiveJobs = .ok ⟨fiveOutcomes.take 3, 2⟩ ∧
      run (.ofNat 9) fiveJobs = .ok ⟨fiveOutcomes, 0⟩ ∧
      (Resolution.against vethHost (.ofNat 2) fiveJobs).map (·.verdict) =
        .ok (.matched 8 4 "veth4") := by
  have h : fiveJobs.map (·.launch) = fiveOutcomes.map .ok := rfl
  exact ⟨h, (run_launched h vethHost).1, (run_launched h vethHost).1, (run_launched h vethHost).2⟩

end VethPeer.Crew
