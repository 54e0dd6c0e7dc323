import Mathlib
import VethPeer.Proofs.Crew.Schedule
import VethPeer.Proofs.Scan.Candidates

/-! One process of each namespace is enough: asking them all gives the same verdict, by the same
candidate. -/
namespace VethPeer

variable {pids lowest all : List UInt32} {pid c : UInt32} {passes : UInt32 → Bool}
  {answers : UInt32 → Answer} {jobs : List Job}

/-- In an ascending list the first that passes is the least that passes. -/
theorem find?_eq_some_iff_least (h : pids.Pairwise (· < ·)) :
    pids.find? passes = some c ↔
      c ∈ pids ∧ passes c = true ∧ ∀ d ∈ pids, passes d = true → c ≤ d := by
  rw [List.find?_eq_some_iff_append]
  constructor
  · rintro ⟨hc, before, after, rfl, hbefore⟩
    refine ⟨by simp, hc, fun d hd hd' => ?_⟩
    rcases List.mem_append.mp hd with hd | hd
    · have hno := hbefore d hd
      rw [hd'] at hno
      cases hno
    · rcases List.mem_cons.mp hd with rfl | hd
      · exact UInt32.le_refl _
      · have hafter := (List.pairwise_append.mp h).2.1
        exact UInt32.le_of_lt ((List.pairwise_cons.mp hafter).1 d hd)
  · rintro ⟨hmem, hc, hleast⟩
    obtain ⟨before, after, rfl⟩ := List.append_of_mem hmem
    refine ⟨hc, before, after, rfl, fun d hd => ?_⟩
    have hlt : d < c := (List.pairwise_append.mp h).2.2 d hd c (by simp)
    by_contra hd'
    exact UInt32.not_le.mpr hlt (hleast d (by simp [hd]) (by simpa using hd'))

/-- Nobody passes first but one of those who stand for all. -/
theorem find?_eq_of_represented (hl : lowest.Pairwise (· < ·)) (ha : all.Pairwise (· < ·))
    (hsub : lowest ⊆ all) (hrep : ∀ c ∈ all, ∃ d ∈ lowest, d ≤ c ∧ passes d = passes c) :
    lowest.find? passes = all.find? passes := by
  apply Option.ext
  intro c
  rw [find?_eq_some_iff_least hl, find?_eq_some_iff_least ha]
  constructor
  · rintro ⟨hmem, hc, hleast⟩
    refine ⟨hsub hmem, hc, fun d hd hd' => ?_⟩
    obtain ⟨e, he, hed, hpe⟩ := hrep d hd
    exact UInt32.le_trans (hleast e he (hpe.trans hd')) hed
  · rintro ⟨hmem, hc, hleast⟩
    obtain ⟨d, hd, hdc, hd'⟩ := hrep c hmem
    obtain rfl : c = d := UInt32.le_antisymm (hleast d (hsub hd) (hd'.trans hc)) hdc
    exact ⟨hd, hc, fun e he => hleast e (hsub he)⟩

/-- The worker for this candidate starts and answers so. -/
def Job.Reports (answers : UInt32 → Answer) (pid : UInt32) (job : Job) : Prop :=
  ∃ status, job = ⟨pid, .ok ⟨⟨pid, answers pid⟩, status⟩⟩

/-- What the workers for these candidates find. -/
def findingsOf (answers : UInt32 → Answer) (pids : List UInt32) : List Finding :=
  pids.map fun pid => ⟨pid, answers pid⟩

theorem exists_outcomes (h : List.Forall₂ (Job.Reports answers) pids jobs) :
    ∃ outcomes : List Outcome, jobs.map (·.launch) = outcomes.map .ok ∧
      outcomes.map (·.finding) = findingsOf answers pids := by
  induction h with
  | nil => exact ⟨[], rfl, rfl⟩
  | @cons pid job pids jobs hjob _ ih =>
    obtain ⟨status, rfl⟩ := hjob
    obtain ⟨outcomes, hjobs, hfindings⟩ := ih
    refine ⟨⟨⟨pid, answers pid⟩, status⟩ :: outcomes, ?_, ?_⟩
    · rw [List.map_cons, List.map_cons, hjobs]
    · rw [List.map_cons, hfindings]
      rfl

/-- If all workers start, the verdict is that on all that they find, whatever the bound. -/
theorem Resolution.against_of_reports (h : List.Forall₂ (Job.Reports answers) pids jobs)
    (bound : Bound) (host : Inventory) :
    (Resolution.against host bound jobs).map (·.verdict) =
      .ok (.ofFindings (findingsOf answers pids) host) := by
  obtain ⟨outcomes, hjobs, hfindings⟩ := exists_outcomes h
  rw [Crew.against_eq hjobs, ← hfindings]
  rfl

/-- Only the first candidate that finds the target has a say. -/
theorem Verdict.ofFindings_congr
    (h : lowest.find? (answers · |>.isFound) = all.find? (answers · |>.isFound))
    (host : Inventory) :
    Verdict.ofFindings (findingsOf answers lowest) host =
      Verdict.ofFindings (findingsOf answers all) host := by
  have hfind (pids : List UInt32) :
      (findingsOf answers pids).find? (·.answer.isFound) =
        (pids.find? (answers · |>.isFound)).map fun pid => ⟨pid, answers pid⟩ :=
    List.find?_map
  rw [Verdict.ofFindings, Verdict.ofFindings, hfind, hfind, h]

namespace Scan

variable {s : Scan} {w : World} {p : ProcessEntry} {id : NamespaceId} {b : Bool}

/-- The same scan for the lowest process of each namespace, or for all. -/
def asking (s : Scan) (allPids : Bool) : Scan := { s with allPids }

theorem considers_asking_iff : (s.asking b).Considers w p ↔ s.Considers w p :=
  ⟨fun ⟨hl, hp, hc⟩ => ⟨hl, hp, hc⟩, fun ⟨hl, hp, hc⟩ => ⟨hl, hp, hc⟩⟩

/-- Which processes can stand for a namespace does not depend on how many are asked for. -/
theorem eligible_asking_iff : (s.asking b).Eligible w pid id ↔ s.Eligible w pid id := by
  constructor
  · rintro ⟨⟨p, hp, hpid, hid⟩, hforeign⟩
    exact ⟨⟨p, considers_asking_iff.mp hp, hpid, hid⟩, hforeign⟩
  · rintro ⟨⟨p, hp, hpid, hid⟩, hforeign⟩
    exact ⟨⟨p, considers_asking_iff.mpr hp, hpid, hid⟩, hforeign⟩

theorem names_lowest_iff (distinct : (w.processes.map (·.pid)).Nodup) :
    (s.asking false).Names w pid ↔
      ∃ id, s.Eligible w pid id ∧ ∀ lower, s.Eligible w lower id → pid ≤ lower := by
  constructor
  · intro h
    have hnames := h
    rcases hnames with ⟨-, hall, -⟩ | ⟨id, helig, -⟩
    · cases hall
    · refine ⟨id, eligible_asking_iff.mp helig, fun lower hlower => ?_⟩
      exact (names_iff_lowest distinct rfl helig).mp h lower (eligible_asking_iff.mpr hlower)
  · rintro ⟨id, helig, hmin⟩
    refine (names_iff_lowest distinct rfl (eligible_asking_iff.mpr helig)).mpr ?_
    intro lower hlower
    exact hmin lower (eligible_asking_iff.mp hlower)

theorem names_all_iff (known : ∀ p, s.Considers w p → ∃ id, p.identity = .ok id) :
    (s.asking true).Names w pid ↔ ∃ id, s.Eligible w pid id := by
  constructor
  · rintro (⟨hinclude, -, p, hp, hpid⟩ | ⟨id, helig, -⟩)
    · obtain ⟨id, hid⟩ := known p (considers_asking_iff.mp hp)
      refine ⟨id, ⟨p, considers_asking_iff.mp hp, hpid, hid⟩, fun hforeign => ?_⟩
      exact nomatch hinclude.symm.trans hforeign
    · exact ⟨id, eligible_asking_iff.mp helig⟩
  · rintro ⟨id, helig⟩
    exact .inr ⟨id, eligible_asking_iff.mpr helig, fun hall => nomatch hall⟩

/-- If the processes of one namespace answer alike, the lowest of each namespace come to the verdict
that all processes come to, by the same candidate, whatever the bounds. -/
theorem verdict_of_lowest (distinct : (w.processes.map (·.pid)).Nodup) (readable : s.Readable w)
    (known : ∀ p, s.Considers w p → ∃ id, p.identity = .ok id)
    (alike : ∀ id a b, s.Eligible w a id → s.Eligible w b id → answers a = answers b) :
    ∃ lowest all, (s.asking false).candidates w = .ok lowest ∧
      (s.asking true).candidates w = .ok all ∧
      ∀ host bound jobs, List.Forall₂ (Job.Reports answers) lowest jobs ∨
          List.Forall₂ (Job.Reports answers) all jobs →
        (Resolution.against host bound jobs).map (·.verdict) =
          .ok (.ofFindings (findingsOf answers all) host) := by
  have hreadable (b : Bool) : (s.asking b).Readable w := ⟨readable.table, readable.host⟩
  obtain ⟨lowest, hlowest, hl, hmeml⟩ := exists_candidates distinct (hreadable false)
  obtain ⟨all, hall, ha, hmema⟩ := exists_candidates distinct (hreadable true)
  have hsub : lowest ⊆ all := by
    intro c hc
    obtain ⟨id, helig, -⟩ := (names_lowest_iff distinct).mp ((hmeml c).mp hc)
    exact (hmema c).mpr ((names_all_iff known).mpr ⟨id, helig⟩)
  have hrep : ∀ c ∈ all, ∃ d ∈ lowest, d ≤ c ∧ (answers d).isFound = (answers c).isFound := by
    intro c hc
    obtain ⟨id, helig⟩ := (names_all_iff known).mp ((hmema c).mp hc)
    obtain ⟨d, hd, hmin⟩ := exists_lowest helig
    refine ⟨d, (hmeml d).mpr ((names_lowest_iff distinct).mpr ⟨id, hd, hmin⟩), hmin c helig, ?_⟩
    rw [alike id d c hd helig]
  refine ⟨lowest, all, hlowest, hall, fun host bound jobs hjobs => ?_⟩
  rcases hjobs with hjobs | hjobs
  · rw [Resolution.against_of_reports hjobs,
      Verdict.ofFindings_congr (find?_eq_of_represented hl ha hsub hrep)]
  · exact Resolution.against_of_reports hjobs bound host

/-- Two processes of one namespace, one of another, one of the caller's, and one that is not looked
for. -/
def sharingWorld : World where
  hostIdentity := .ok ⟨4, 100⟩
  processes := [
    { pid := 9, command := some "web", identity := .ok ⟨4, 200⟩ },
    { pid := 3, command := some "web", identity := .ok ⟨4, 300⟩ },
    { pid := 1, command := some "web", identity := .ok ⟨4, 100⟩ },
    { pid := 6, command := some "web", identity := .ok ⟨4, 200⟩ },
    { pid := 4, command := some "db", identity := .ok ⟨4, 400⟩ }]

def sharingAnswers (pid : UInt32) : Answer :=
  if pid = 6 ∨ pid = 9 then .found (some 4) else .absent

def sharingJobs (pids : List UInt32) : List Job :=
  pids.map fun pid => ⟨pid, .ok ⟨⟨pid, sharingAnswers pid⟩, .code 0⟩⟩

theorem sharingAnswers_eq {pid : UInt32} (h : webScan.Eligible sharingWorld pid id) :
    sharingAnswers pid = if id = ⟨4, 200⟩ then .found (some 4) else .absent := by
  obtain ⟨p, hp, hpid, hid⟩ := h.considered
  have hlisted := hp.listed
  simp only [sharingWorld, List.mem_cons, List.not_mem_nil, or_false] at hlisted
  rcases hlisted with rfl | rfl | rfl | rfl | rfl <;> cases hpid <;> cases hid <;> rfl

theorem verdict_of_lowest_sharingWorld :
    webScan.Readable sharingWorld ∧
      (webScan.asking false).candidates sharingWorld = .ok [3, 6] ∧
      (webScan.asking true).candidates sharingWorld = .ok [3, 6, 9] ∧
      (Resolution.against Crew.vethHost (.ofNat 1) (sharingJobs [3, 6])).map (·.verdict) =
        .ok (.matched 6 4 "veth4") ∧
      (Resolution.against Crew.vethHost (.ofNat 2) (sharingJobs [3, 6, 9])).map (·.verdict) =
        .ok (.matched 6 4 "veth4") := by
  have distinct : (sharingWorld.processes.map (·.pid)).Nodup := by decide
  have readable : webScan.Readable sharingWorld := ⟨rfl, fun _ => ⟨_, rfl⟩⟩
  have known : ∀ p, webScan.Considers sharingWorld p → ∃ id, p.identity = .ok id := by
    have hall : ∀ p ∈ sharingWorld.processes, p.identity.toOption.isSome := by decide
    intro p hp
    cases hid : p.identity with
    | ok id => exact ⟨id, rfl⟩
    | error errno => simpa [hid, Except.toOption] using hall p hp.listed
  have alike : ∀ id a b, webScan.Eligible sharingWorld a id → webScan.Eligible sharingWorld b id →
      sharingAnswers a = sharingAnswers b := fun id a b ha hb =>
    (sharingAnswers_eq ha).trans (sharingAnswers_eq hb).symm
  have hseen (b : Bool) : sharingWorld.processes.filterMap (webScan.asking b).sighting? =
      [⟨9, some ⟨4, 200⟩⟩, ⟨3, some ⟨4, 300⟩⟩, ⟨1, some ⟨4, 100⟩⟩, ⟨6, some ⟨4, 200⟩⟩] := by
    cases b <;> decide
  have hlowest : (webScan.asking false).candidates sharingWorld = .ok [3, 6] := by
    rw [candidates, hseen]
    cbv
  have hall : (webScan.asking true).candidates sharingWorld = .ok [3, 6, 9] := by
    rw [candidates, hseen]
    cbv
  obtain ⟨lowest, all, h, h', hverdict⟩ := verdict_of_lowest distinct readable known alike
  obtain rfl : [3, 6] = lowest := Except.ok.inj (hlowest.symm.trans h)
  obtain rfl : [3, 6, 9] = all := Except.ok.inj (hall.symm.trans h')
  have hreports (pids : List UInt32) :
      List.Forall₂ (Job.Reports sharingAnswers) pids (sharingJobs pids) :=
    List.forall₂_map_right_iff.mpr (List.forall₂_same.mpr fun pid _ => ⟨_, rfl⟩)
  exact ⟨readable, hlowest, hall, hverdict _ _ _ (.inl (hreports _)),
    hverdict _ _ _ (.inr (hreports _))⟩

end Scan
end VethPeer
