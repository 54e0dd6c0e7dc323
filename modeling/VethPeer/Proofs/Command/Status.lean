import Mathlib
import VethPeer.Command.Resolve
import VethPeer.Proofs.Crew.Schedule
import VethPeer.Proofs.Probe.Record

/-! The status and the standard output of a resolution follow from what the workers write, however
many of them may run at a time. -/
namespace VethPeer

variable {host : Inventory} {findings : List Finding} {outcomes : List Outcome}
  {program : Program} {arguments : List String} {crew : List (UInt32 × Worker)}

namespace Worker

/-- What the leader takes from a worker: what it wrote, if its time did not run out. -/
def told (candidate : UInt32) (w : Worker) : Finding :=
  match w.ending with
  | .exits _ => .ofRecord candidate w.writes
  | .hangs => ⟨candidate, .failed .entry⟩

theorem finding_outcome (candidate : UInt32) (w : Worker) :
    (w.outcome candidate).finding = w.told candidate := by
  cases he : w.ending with
  | exits status =>
    simp only [outcome, told, he]
    exact congrArg (Finding.mk candidate) (Answer.ofRecord_take w.writes)
  | hangs => simp only [outcome, told, he]

/-- Workers that all start come out as they are. -/
theorem launches_jobs (starts : ∀ job ∈ jobs arguments program crew, ∃ o, job.launch = .ok o) :
    (jobs arguments program crew).map (·.launch) =
      (crew.map fun p => p.2.outcome p.1).map .ok := by
  induction crew generalizing program with
  | nil => rfl
  | cons p crew ih =>
    obtain ⟨candidate, w⟩ := p
    rw [jobs] at starts ⊢
    split at starts
    · obtain ⟨o, ho⟩ := starts _ List.mem_cons_self
      cases ho
    · rename_i hpass
      rw [if_neg hpass]
      cases hf : program.fault? with
      | some fault =>
        simp only [hf] at starts
        obtain ⟨o, ho⟩ := starts _ List.mem_cons_self
        cases ho
      | none =>
        simp only [hf] at starts ⊢
        have hrest := ih fun job hjob => starts job (List.mem_cons_of_mem _ hjob)
        rw [List.map_cons, List.map_cons, List.map_cons, hrest]

/-- Nothing keeps a worker from being started. -/
theorem exists_launch (hz : ¬ arguments.any (·.toList.contains '\x00') = true)
    (hc : ∀ p ∈ crew, p.2.leaves = none) :
    ∀ job ∈ jobs arguments .ready crew, ∃ o, job.launch = .ok o := by
  induction crew with
  | nil => simp [jobs]
  | cons p crew ih =>
    obtain ⟨candidate, w⟩ := p
    have hw : w.leaves = none := hc _ List.mem_cons_self
    have hrest := ih fun p hp => hc p (List.mem_cons_of_mem _ hp)
    simp only [jobs, if_neg hz, Program.fault?, hw, Option.getD_none, List.mem_cons]
    rintro job (rfl | hjob)
    · exact ⟨_, rfl⟩
    · exact hrest job hjob

end Worker

theorem Verdict.exists_found (h : ofFindings findings host ≠ .noMatch) :
    ∃ f ∈ findings, f.answer.isFound = true := by
  rw [ofFindings] at h
  cases hfind : findings.find? (·.answer.isFound) with
  | none => simp [hfind] at h
  | some f => exact ⟨f, List.mem_of_find?_eq_some hfind, by simpa using List.find?_some hfind⟩

namespace Finding

/-- There are findings, and each is that the worker failed. -/
def allFailed (findings : List Finding) : Bool :=
  !findings.isEmpty && findings.all (·.answer.cause?.isSome)

theorem isSome_cause?_iff {a : Answer} : a.cause?.isSome = true ↔ ∃ cause, a = .failed cause := by
  cases a <;> simp [Answer.cause?]

theorem allFailed_iff :
    allFailed findings = true ↔
      findings ≠ [] ∧ ∀ f ∈ findings, ∃ cause, f.answer = .failed cause := by
  simp [allFailed, isSome_cause?_iff]

theorem allFailed_of_found (h : ∃ f ∈ findings, f.answer.isFound = true) :
    allFailed findings = false := by
  rw [Bool.eq_false_iff, ne_eq, allFailed_iff]
  rintro ⟨-, hall⟩
  obtain ⟨f, hf, hfound⟩ := h
  obtain ⟨cause, hcause⟩ := hall f hf
  rw [hcause] at hfound
  cases hfound

/-- If all that a crew started failed, so did all others: it leaves none out but for a find. -/
theorem allFailed_take_reach (limit : Bound) (outcomes : List Outcome) :
    allFailed ((outcomes.take (Crew.reach limit outcomes)).map (·.finding)) =
      allFailed (outcomes.map (·.finding)) := by
  by_cases hfound : ∃ o ∈ outcomes.take (Crew.reach limit outcomes), Crew.found o = true
  · obtain ⟨o, ho, hfound⟩ := hfound
    have hnot {os : List Outcome} (ho : o ∈ os) : allFailed (os.map (·.finding)) = false :=
      allFailed_of_found ⟨o.finding, List.mem_map_of_mem ho, hfound⟩
    rw [hnot ho, hnot (List.mem_of_mem_take ho)]
  · have hall : outcomes.length ≤ Crew.reach limit outcomes :=
      Crew.length_le_reach fun o ho hf => hfound ⟨o, ho, hf⟩
    rw [List.take_of_length_le hall]

end Finding

namespace Command

theorem Given.has_eq (given : Given) (key : String) :
    given.has key = !(given.values key).isEmpty := by
  rw [Bool.eq_iff_iff]
  simp [has, values, List.filter_eq_nil_iff]

namespace Resolve

variable {v : Verdict} {failed : Bool} {t : Target}

/-- The status and the standard output for a verdict, and for whether all workers failed. -/
def shown (v : Verdict) (failed : Bool) : UInt8 × Bytes :=
  match v.name? with
  | some name => (0, Utf8.encode (name ++ "\n"))
  | none => (if failed then 1 else 2, [])

theorem shown_eq_zero_iff :
    (shown v failed).1 = 0 ↔ ∃ candidate peer name, v = .matched candidate peer name := by
  cases v <;> cases failed <;> simp [shown, Verdict.name?]

theorem shown_eq_one_iff :
    (shown v failed).1 = 1 ↔
      (∀ candidate peer name, v ≠ .matched candidate peer name) ∧ failed = true := by
  cases v <;> cases failed <;> simp [shown, Verdict.name?]

theorem shown_eq_two_iff :
    (shown v failed).1 = 2 ↔ (shown v failed).1 ≠ 0 ∧ (shown v failed).1 ≠ 1 := by
  cases v <;> cases failed <;> simp [shown, Verdict.name?]

theorem output_eq_shown (t : Target) (r : Resolution) :
    ((output t r).status, (output t r).stdout) =
      shown r.verdict (Finding.allFailed r.report.findings) := by
  have hfailed : r.report.outcomes.length ≠ 0 ∧
      r.report.failures.length = r.report.outcomes.length ↔
        Finding.allFailed r.report.findings = true := by
    rw [CrewReport.failures, List.length_filter_eq_length_iff, Finding.allFailed_iff]
    simp [CrewReport.findings, Finding.isSome_cause?_iff]
  rw [output, shown]
  cases r.verdict.name? with
  | some name => rfl
  | none =>
    by_cases h : Finding.allFailed r.report.findings = true
    · simp only [if_pos (hfailed.mpr h), if_pos h]
    · simp only [if_neg (mt hfailed.mp h), if_neg h]

/-- Whatever the bound, what is shown is what goes with the findings of all workers. -/
theorem exists_against (host : Inventory) (t : Target)
    (starts : ∀ job ∈ VethPeer.Worker.jobs arguments program crew, ∃ o, job.launch = .ok o)
    (limit : Bound) :
    ∃ r, Resolution.against host limit (VethPeer.Worker.jobs arguments program crew) = .ok r ∧
      r.verdict = .ofFindings (crew.map fun p => p.2.told p.1) host ∧
      ((output t r).status, (output t r).stdout) =
        shown r.verdict (Finding.allFailed (crew.map fun p => p.2.told p.1)) := by
  have hfindings : (crew.map fun p => p.2.outcome p.1).map (·.finding) =
      crew.map fun p => p.2.told p.1 := by
    rw [List.map_map]
    exact List.map_congr_left fun p _ => p.2.finding_outcome p.1
  refine ⟨_, Crew.against_eq (VethPeer.Worker.launches_jobs starts) host, ?_, ?_⟩
  · rw [← hfindings]
  · rw [output_eq_shown, ← hfindings, ← Finding.allFailed_take_reach limit]
    rfl

/-- A target that some worker finds is never among the failures, whatever becomes of it then. -/
theorem status_of_found (h : v = .ofFindings findings host) (hv : v ≠ .noMatch)
    (hm : ∀ candidate peer name, v ≠ .matched candidate peer name) :
    (shown v (Finding.allFailed findings)).1 = 2 := by
  have hfound : Finding.allFailed findings = false :=
    Finding.allFailed_of_found (Verdict.exists_found (h ▸ hv))
  rw [shown_eq_two_iff, ne_eq, shown_eq_zero_iff, ne_eq, shown_eq_one_iff, hfound]
  simp [hm]

/-- If every worker can be started, the status is zero exactly if the verdict names an interface,
which is then all that is written; it is one exactly if the verdict names none, some worker ran and
all of those that ran failed; and else it is two, so also if the interface that was found has no
other end, or none on the host, and if there are no candidates. Both follow from what the workers
write or that their time runs out, and are the same however many workers may run at a time. -/
theorem status_of_told (host : Inventory) (t : Target)
    (starts : ∀ job ∈ VethPeer.Worker.jobs t.arguments program crew, ∃ o, job.launch = .ok o)
    (given : Given) :
    ∃ r, Resolution.against host (bound given)
        (VethPeer.Worker.jobs t.arguments program crew) = .ok r ∧
      r.verdict = .ofFindings (crew.map fun p => p.2.told p.1) host ∧
      ((output t r).status = 0 ↔ ∃ candidate peer name, r.verdict = .matched candidate peer name) ∧
      (∀ candidate peer name, r.verdict = .matched candidate peer name →
        (output t r).stdout = Utf8.encode (name ++ "\n")) ∧
      ((∀ candidate peer name, r.verdict ≠ .matched candidate peer name) →
        (output t r).stdout = []) ∧
      ((output t r).status = 1 ↔
        (∀ candidate peer name, r.verdict ≠ .matched candidate peer name) ∧
          r.report.outcomes ≠ [] ∧
          ∀ o ∈ r.report.outcomes, ∃ cause, o.finding.answer = .failed cause) ∧
      ((output t r).status = 2 ↔ (output t r).status ≠ 0 ∧ (output t r).status ≠ 1) ∧
      ((∃ candidate, r.verdict = .noPeer candidate) ∨
        (∃ candidate peer, r.verdict = .unknownPeer candidate peer) ∨ crew = [] →
          (output t r).status = 2) ∧
      ∀ given' r', Resolution.against host (bound given')
          (VethPeer.Worker.jobs t.arguments program crew) = .ok r' →
        (output t r').status = (output t r).status ∧
          (output t r').stdout = (output t r).stdout := by
  obtain ⟨r, hr, hverdict, hshown⟩ := exists_against host t starts (bound given)
  have hstatus := congrArg Prod.fst hshown
  have hstdout := congrArg Prod.snd hshown
  have hran := congrArg Prod.fst (output_eq_shown t r)
  dsimp only at hstatus hstdout hran
  refine ⟨r, hr, hverdict, ?_, ?_, ?_, ?_, ?_, ?_, ?_⟩
  · rw [hstatus, shown_eq_zero_iff]
  · intro candidate peer name hmatched
    rw [hstdout, hmatched]
    rfl
  · intro hunmatched
    rw [hstdout]
    cases hv : r.verdict with
    | matched candidate peer name => exact (hunmatched _ _ _ hv).elim
    | noMatch => rfl
    | noPeer => rfl
    | unknownPeer => rfl
  · rw [hran, shown_eq_one_iff, Finding.allFailed_iff]
    simp [CrewReport.findings]
  · rw [hstatus, shown_eq_two_iff]
  · rw [hstatus]
    rintro (⟨candidate, hv⟩ | ⟨candidate, peer, hv⟩ | rfl)
    · exact status_of_found hverdict (by simp [hv]) (by simp [hv])
    · exact status_of_found hverdict (by simp [hv]) (by simp [hv])
    · rw [hverdict]
      rfl
  · intro given' r' hr'
    obtain ⟨r'', hr'', hverdict', hshown'⟩ := exists_against host t starts (bound given')
    obtain rfl : r' = r'' := Except.ok.inj (hr'.symm.trans hr'')
    rw [hverdict', ← hverdict, ← hshown, Prod.mk.injEq] at hshown'
    exact hshown'

/-- The first worker's time runs out, the second writes too little, and the third found it. -/
def lateCrew : List (UInt32 × VethPeer.Worker) :=
  [(7, { ending := .hangs }), (8, { writes := [1] }),
    (9, { writes := (Answer.found (some 4)).record })]

/-- Without the third worker all of them failed. -/
theorem status_of_told_late :
    (∃ r, Resolution.against Crew.vethHost (bound ⟨[("jobs", "1")]⟩)
        (VethPeer.Worker.jobs Target.default.arguments .ready lateCrew) = .ok r ∧
      (output .default r).status = 0 ∧ (output .default r).stdout = Utf8.encode "veth4\n") ∧
    ∃ r, Resolution.against Crew.vethHost (bound {})
        (VethPeer.Worker.jobs Target.default.arguments .ready (lateCrew.take 2)) = .ok r ∧
      (output .default r).status = 1 := by
  have hleaves : ∀ p ∈ lateCrew, p.2.leaves = none := by decide
  have starts (n : ℕ) : ∀ job ∈ VethPeer.Worker.jobs Target.default.arguments .ready
      (lateCrew.take n), ∃ o, job.launch = .ok o :=
    VethPeer.Worker.exists_launch (by decide) fun p hp => hleaves p (List.mem_of_mem_take hp)
  constructor
  · obtain ⟨r, hr, hverdict, hzero, hname, -⟩ :=
      status_of_told Crew.vethHost .default (starts 3) ⟨[("jobs", "1")]⟩
    have hmatched : r.verdict = .matched 9 4 "veth4" := hverdict
    exact ⟨r, hr, hzero.mpr ⟨_, _, _, hmatched⟩, hname _ _ _ hmatched⟩
  · obtain ⟨r, hr, hverdict, -, -, -, hone, -⟩ :=
      status_of_told Crew.vethHost .default (starts 2) {}
    have hunmatched : r.verdict = .noMatch := hverdict
    have hran : r = ⟨.noMatch, ⟨[⟨⟨7, .failed .entry⟩, .signal 9⟩,
        ⟨⟨8, .failed .worker⟩, .code 0⟩], 0⟩⟩ := Except.ok.inj (hr.symm.trans rfl)
    refine ⟨r, hr, hone.mpr ⟨by simp [hunmatched], ?_⟩⟩
    simp [hran]

/-- An argument that cannot be passed keeps the first worker from being started. -/
theorem run_of_zeroByte (limit : Bound) (w : World) (candidate : UInt32) (candidates : List UInt32)
    (hz : t.arguments.any (·.toList.contains '\x00') = true) :
    Crew.run limit (jobs w t (candidate :: candidates)) = .error (.spawn candidate .zeroByte) := by
  rw [jobs, List.map_cons, VethPeer.Worker.jobs, if_pos hz]
  cases limit <;> simp [Crew.run, Crew.work, Crew.makeRoom, Crew.await, Crew.hasFound]

/-- A crew that cannot start its first worker fails so whatever the bound, and else what is shown
does not depend on the bound. -/
theorem shown_any_bound (host : Inventory) (w : World) (t : Target) (candidates : List UInt32) :
    (∃ f, ∀ limit, Resolution.against host limit (jobs w t candidates) = .error f) ∨
      ∃ seen, ∀ limit, ∃ r, Resolution.against host limit (jobs w t candidates) = .ok r ∧
        ((output t r).status, (output t r).stdout) = seen := by
  by_cases hz : t.arguments.any (·.toList.contains '\x00') = true
  · cases candidates with
    | nil => exact .inr ⟨_, fun limit => ⟨_, rfl, rfl⟩⟩
    | cons candidate candidates =>
      refine .inl ⟨.spawn candidate .zeroByte, fun limit => ?_⟩
      rw [Resolution.against, run_of_zeroByte limit w candidate candidates hz]
      rfl
  · have starts : ∀ job ∈ jobs w t candidates, ∃ o, job.launch = .ok o :=
      VethPeer.Worker.exists_launch hz (by simp [worker])
    let told := (candidates.map fun c => (c, worker w t c)).map fun p => p.2.told p.1
    refine .inr ⟨shown (.ofFindings told host) (Finding.allFailed told), fun limit => ?_⟩
    obtain ⟨r, hr, hverdict, hshown⟩ := exists_against host t starts limit
    exact ⟨r, hr, hverdict ▸ hshown⟩

/-- Command lines that are the same but for the number of jobs have the same status and write the
same to the standard output, in every world and also if no worker can be started. -/
theorem run_any_jobs (w : World) {given given' : Given}
    (h : ∀ key, key ≠ "jobs" → given'.values key = given.values key) :
    (run w given').status = (run w given).status ∧
      (run w given').stdout = (run w given).stdout := by
  have hhas (key : String) (hkey : key ≠ "jobs") : given'.has key = given.has key := by
    rw [Given.has_eq, Given.has_eq, h key hkey]
  have htarget : target given' = target given := by
    simp only [target, Given.value?, h "address" (by decide), h "dev" (by decide)]
  have hsource : source given' = source given := by
    simp only [source, h "pid" (by decide), h "pattern" (by decide),
      hhas "include-host" (by decide), hhas "all-pids" (by decide)]
  rw [run, run, resolution, resolution, htarget, hsource]
  cases target given with
  | error f => exact ⟨rfl, rfl⟩
  | ok t =>
    cases source given with
    | error f => exact ⟨rfl, rfl⟩
    | ok src =>
      simp only [Resolution.resolve, bind, Except.bind, Except.mapError]
      cases Resolution.hostInventory w with
      | error f => exact ⟨rfl, rfl⟩
      | ok host =>
        cases src.candidates w with
        | error f => exact ⟨rfl, rfl⟩
        | ok candidates =>
          dsimp only
          obtain ⟨f, hf⟩ | ⟨seen, hseen⟩ := shown_any_bound host w t candidates
          · rw [hf, hf]
            exact ⟨rfl, rfl⟩
          · obtain ⟨r, hr, hshown⟩ := hseen (bound given)
            obtain ⟨r', hr', hshown'⟩ := hseen (bound given')
            rw [hr, hr']
            exact Prod.mk.inj (hshown'.trans hshown.symm)

end Resolve
end Command
end VethPeer
