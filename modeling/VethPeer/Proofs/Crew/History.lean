import Mathlib
import VethPeer.Proofs.Crew.Schedule

/-! The steps of a crew in order: who is started, who is waited for, and which position ends it. -/
namespace VethPeer

namespace Event

def spawned? : Event → Option ℕ
  | .spawn position => some position
  | .await _ => none

def awaited? : Event → Option ℕ
  | .spawn _ => none
  | .await position => some position

end Event

namespace Crew

variable {bound : Bound} {es past : List Event} {e : Event} {ps : List ℕ} {p i j k : ℕ} {c : Crew}
  {jobs rest : List Job} {started : List Outcome} {o : Outcome}

/-- The positions whose workers were started, in the order of these steps. -/
def spawned (es : List Event) : List ℕ := es.filterMap (·.spawned?)

/-- The positions whose workers were waited for, in the order of these steps. -/
def awaited (es : List Event) : List ℕ := es.filterMap (·.awaited?)

@[simp] theorem spawned_append (es fs : List Event) :
    spawned (es ++ fs) = spawned es ++ spawned fs :=
  List.filterMap_append

@[simp] theorem awaited_append (es fs : List Event) :
    awaited (es ++ fs) = awaited es ++ awaited fs :=
  List.filterMap_append

@[simp] theorem spawned_map_await (ps : List ℕ) : spawned (ps.map .await) = [] := by
  simp [spawned, Event.spawned?]

@[simp] theorem awaited_map_await (ps : List ℕ) : awaited (ps.map .await) = ps := by
  have hc : (Event.awaited? ∘ Event.await) = some := rfl
  rw [awaited, List.filterMap_map, hc, List.filterMap_some]

/-- At every moment the workers that were waited for are the first ones that were started, and with
a bound no more than it allows still run. -/
structure Orderly (bound : Bound) (es : List Event) : Prop where
  inOrder : ∀ past, past <+: es → awaited past <+: spawned past
  within : ∀ n, bound = some n → ∀ past, past <+: es →
    (spawned past).length ≤ (awaited past).length + n

theorem orderly_nil : Orderly bound [] where
  inOrder := by
    intro past hp
    rw [List.prefix_nil.mp hp]
    exact List.prefix_rfl
  within := by
    intro n _ past hp
    rw [List.prefix_nil.mp hp]
    exact Nat.zero_le _

/-- A new moment has to be looked at only if a step is added. -/
theorem Orderly.concat (h : Orderly bound es) (hi : awaited (es ++ [e]) <+: spawned (es ++ [e]))
    (hw : ∀ n, bound = some n →
      (spawned (es ++ [e])).length ≤ (awaited (es ++ [e])).length + n) :
    Orderly bound (es ++ [e]) where
  inOrder := by
    intro past hp
    rcases List.prefix_concat_iff.mp hp with rfl | hp
    · exact hi
    · exact h.inOrder past hp
  within := by
    intro n hn past hp
    rcases List.prefix_concat_iff.mp hp with rfl | hp
    · exact hw n hn
    · exact h.within n hn past hp

/-- The workers that were started longest ago may be waited for in turn. -/
theorem Orderly.await (h : Orderly bound es) (hp : awaited es ++ ps <+: spawned es) :
    Orderly bound (es ++ ps.map .await) := by
  induction ps generalizing es with
  | nil => simpa using h
  | cons p ps ih =>
    have hs : spawned (es ++ [.await p]) = spawned es := by simp [spawned, Event.spawned?]
    have ha : awaited (es ++ [.await p]) = awaited es ++ [p] := by simp [awaited, Event.awaited?]
    have hnext : awaited es ++ [p] ++ ps <+: spawned es := by simpa using hp
    have hone : Orderly bound (es ++ [.await p]) := by
      apply h.concat
      · rw [hs, ha]
        exact (List.prefix_append _ _).trans hnext
      · intro n hn
        have hle := h.within n hn es List.prefix_rfl
        rw [hs, ha, List.length_append]
        omega
    have hall := ih hone (by rw [hs, ha]; exact hnext)
    simpa using hall

/-- Up to now the positions before `p` were started, and the last of them still run. -/
structure Keeps (bound : Bound) (p : ℕ) (c : Crew) : Prop where
  orderly : Orderly bound c.events.reverse
  spawned : spawned c.events.reverse = List.range p
  awaited : awaited c.events.reverse ++ c.running.map (·.position) = List.range p

theorem keeps_initial : Keeps bound 0 {} := ⟨orderly_nil, rfl, rfl⟩

theorem events_await (n : ℕ) (c : Crew) :
    (c.await n).events.reverse =
      c.events.reverse ++ ((c.running.take n).map (·.position)).map .await := by
  rw [Crew.await, List.reverse_append, List.reverse_reverse, List.map_map]
  rfl

theorem Keeps.await (h : Keeps bound p c) (n : ℕ) : Keeps bound p (c.await n) where
  orderly := by
    rw [events_await]
    apply h.orderly.await
    rw [h.spawned, ← h.awaited, List.prefix_append_right_inj]
    exact (List.take_prefix n c.running).map _
  spawned := by rw [events_await, spawned_append, spawned_map_await, List.append_nil, h.spawned]
  awaited := by
    rw [events_await, awaited_append, awaited_map_await, List.append_assoc, ← List.map_append]
    exact (List.take_append_drop n c.running).symm ▸ h.awaited

theorem Keeps.makeRoom (h : Keeps bound p c) : Keeps bound p (c.makeRoom bound) := by
  cases bound with
  | none => exact h
  | some n => exact h.await _

theorem length_running_makeRoom {n : {n : ℕ // 0 < n}} :
    (c.makeRoom (some n)).running.length < n := by
  have hn := n.property
  simp only [Crew.makeRoom, Crew.await, List.length_drop]
  omega

/-- One more may be started once there is room for it. -/
theorem Keeps.spawn (h : Keeps bound p c) (hr : ∀ n, bound = some n → c.running.length < n)
    (o : Outcome) : Keeps bound (p + 1) (c.spawn p o) := by
  have he : (c.spawn p o).events.reverse = c.events.reverse ++ [.spawn p] := by
    simp [Crew.spawn]
  have hs : Crew.spawned (c.events.reverse ++ [.spawn p]) = List.range (p + 1) := by
    rw [spawned_append, h.spawned, List.range_succ]
    rfl
  have ha : Crew.awaited (c.events.reverse ++ [.spawn p]) = Crew.awaited c.events.reverse := by
    rw [awaited_append]
    exact List.append_nil _
  refine ⟨?_, by rw [he, hs], ?_⟩
  · rw [he]
    apply h.orderly.concat
    · rw [hs, ha, List.range_succ, ← h.awaited, List.append_assoc]
      exact List.prefix_append _ _
    · intro n hn
      have hroom := hr n hn
      have hlen := congrArg List.length h.awaited
      rw [List.length_append, List.length_map, List.length_range] at hlen
      rw [hs, ha, List.length_range]
      omega
  · rw [he, ha, List.range_succ, ← h.awaited]
    simp [Crew.spawn]

/-- How the worker at this position comes out, if there is one that starts. -/
def outcomeAt? (jobs : List Job) (i : ℕ) : Option Outcome := jobs[i]?.bind (·.launch.toOption)

/-- The crew comes to start the worker at this position: those before it started, and with a bound
of `n` nobody found the target who is `n` or more places before it. -/
structure Attempted (bound : Bound) (jobs : List Job) (i : ℕ) : Prop where
  inside : i < jobs.length
  started : ∀ j < i, (outcomeAt? jobs j).isSome = true
  quiet : ∀ n, bound = some n → ∀ j, j + n ≤ i → ∀ o, outcomeAt? jobs j = some o → ¬ found o = true

theorem Attempted.of_le (h : Attempted bound jobs i) (hj : j ≤ i) : Attempted bound jobs j where
  inside := lt_of_le_of_lt hj h.inside
  started := fun k hk => h.started k (lt_of_lt_of_le hk hj)
  quiet := fun n hn k hk => h.quiet n hn k (hk.trans hj)

/-- Nobody comes past a position whose worker does not start. -/
theorem Attempted.le_of_none (h : Attempted bound jobs i) (hn : outcomeAt? jobs k = none) :
    i ≤ k := by
  by_contra hki
  have hsome := h.started k (not_le.mp hki)
  rw [hn] at hsome
  cases hsome

theorem Cut.hasFound_eq {w : ℕ} (h : Cut w started c) :
    c.hasFound = (started.take w).any found := by
  rw [← h.outcomes, List.any_reverse]
  rfl

theorem outcomeAt?_of_launch {job : Job} (hj : jobs[p]? = some job) (hl : job.launch = .ok o) :
    outcomeAt? jobs p = some o := by
  rw [outcomeAt?, hj, Option.bind_some, hl]
  rfl

/-- The crew started the workers before `p`, which are to come out like this, and has not made room
for the next one. -/
structure Reached (bound : Bound) (jobs : List Job) (p : ℕ) (started : List Outcome) (c : Crew) :
    Prop where
  keeps : Keeps bound p c
  cut : Cut (waited bound p) started c
  length : started.length = p
  outcomes : ∀ j < p, outcomeAt? jobs j = started[j]?
  attempted : ∀ j < p, Attempted bound jobs j

theorem reached_initial (bound : Bound) (jobs : List Job) : Reached bound jobs 0 [] {} where
  keeps := keeps_initial
  cut := by
    rw [waited_zero]
    exact cut_initial
  length := rfl
  outcomes := nofun
  attempted := nofun

namespace Reached

theorem isSome_outcomeAt? (h : Reached bound jobs p started c) :
    ∀ j < p, (outcomeAt? jobs j).isSome = true := by
  intro j hj
  have hl := h.length
  rw [h.outcomes j hj, List.getElem?_eq_getElem (by omega)]
  rfl

theorem cut_makeRoom (h : Reached bound jobs p started c) :
    Cut (waited bound (p + 1)) started (c.makeRoom bound) := by
  obtain rfl := h.length
  exact h.cut.makeRoom

/-- Whether the crew comes to a position is decided by those that it waits for to make room. -/
theorem attempted_iff (h : Reached bound jobs p started c) (hi : p < jobs.length) :
    Attempted bound jobs p ↔ ¬ (bound.isSome && (c.makeRoom bound).hasFound) = true := by
  have hp := h.length
  cases bound with
  | none => exact ⟨fun _ => Bool.false_ne_true, fun _ => ⟨hi, h.isSome_outcomeAt?, nofun⟩⟩
  | some n =>
    have hn := n.property
    rw [Option.isSome_some, Bool.true_and, h.cut_makeRoom.hasFound_eq, List.any_eq_true]
    constructor
    · rintro ha ⟨o, ho, hf⟩
      obtain ⟨j, hj, ho⟩ := List.mem_iff_getElem.mp ho
      rw [List.length_take, waited] at hj
      rw [List.getElem_take] at ho
      refine ha.quiet n rfl j (by omega) o ?_ hf
      rw [h.outcomes j (by omega), ← ho]
      exact List.getElem?_eq_getElem _
    · intro hno
      refine ⟨hi, h.isSome_outcomeAt?, ?_⟩
      rintro m hm j hj o ho hf
      obtain rfl := Option.some.inj hm
      rw [h.outcomes j (by omega)] at ho
      refine hno ⟨o, ?_, hf⟩
      rw [List.mem_take_iff_getElem]
      obtain ⟨hl, ho⟩ := List.getElem?_eq_some_iff.mp ho
      exact ⟨j, by simp only [waited]; omega, ho⟩

/-- The crew comes one position further if the worker there starts. -/
theorem next (h : Reached bound jobs p started c) (ha : Attempted bound jobs p)
    (ho : outcomeAt? jobs p = some o) :
    Reached bound jobs (p + 1) (started ++ [o]) ((c.makeRoom bound).spawn p o) where
  keeps := by
    apply h.keeps.makeRoom.spawn
    rintro n rfl
    exact length_running_makeRoom
  cut := by
    have hw : waited bound (p + 1) ≤ p := waited_succ_le p
    exact h.cut_makeRoom.spawn (by rwa [h.length]) p o
  length := by rw [List.length_append, h.length, List.length_singleton]
  outcomes := by
    intro j hj
    have hp := h.length
    rcases Nat.lt_succ_iff_lt_or_eq.mp hj with hj | rfl
    · rw [h.outcomes j hj, List.getElem?_append_left (by omega)]
    · rw [ho, List.getElem?_append_right (by omega), hp, Nat.sub_self]
      rfl
  attempted := by
    intro j hj
    rcases Nat.lt_succ_iff_lt_or_eq.mp hj with hj | rfl
    · exact h.attempted j hj
    · exact ha

end Reached

/-- How a run ends that started the positions before `k`: everybody was waited for, and either the
crew did not come to `k` or the worker there does not start. -/
structure Ends (bound : Bound) (jobs : List Job) (k : ℕ) (r : Except Failure CrewReport × Crew) :
    Prop where
  keeps : Keeps bound k r.2
  idle : r.2.running = []
  attempted : ∀ i < k, Attempted bound jobs i
  starts : ∀ i < k, (outcomeAt? jobs i).isSome = true
  exit : (∃ report, r.1 = .ok report) ∧ ¬ Attempted bound jobs k ∨
    ∃ candidate cause, r.1 = .error (.spawn candidate cause) ∧ Attempted bound jobs k ∧
      jobs[k]? = some ⟨candidate, .error cause⟩

/-- Whatever made it end, a run waits for those that still run. -/
theorem Reached.ends {d : Crew} {result : Except Failure CrewReport}
    (h : Reached bound jobs p started c) (hk : Keeps bound p d)
    (hexit : (∃ report, result = .ok report) ∧ ¬ Attempted bound jobs p ∨
      ∃ candidate cause, result = .error (.spawn candidate cause) ∧ Attempted bound jobs p ∧
        jobs[p]? = some ⟨candidate, .error cause⟩) :
    Ends bound jobs p (result, d.awaitAll) where
  keeps := hk.await _
  idle := by simp [Crew.awaitAll, Crew.await]
  attempted := h.attempted
  starts := h.isSome_outcomeAt?
  exit := hexit

theorem getElem?_of_drop_eq_cons {job : Job} (h : jobs.drop p = job :: rest) :
    jobs[p]? = some job ∧ jobs.drop (p + 1) = rest := by
  constructor
  · rw [← List.head?_drop, h]
    rfl
  · rw [← List.tail_drop, h]
    rfl

/-- The run from any position on. -/
theorem work_ends (h : Reached bound jobs p started c) (hd : jobs.drop p = rest) :
    ∃ k, Ends bound jobs k (work bound p rest c) := by
  induction rest generalizing p c started with
  | nil =>
    have hno : ¬ Attempted bound jobs p := fun ha =>
      absurd ha.inside (not_lt.mpr (List.drop_eq_nil_iff.mp hd))
    exact ⟨p, h.ends h.keeps (Or.inl ⟨⟨_, rfl⟩, hno⟩)⟩
  | cons job rest ih =>
    obtain ⟨hget, hrest⟩ := getElem?_of_drop_eq_cons hd
    obtain ⟨hi, -⟩ := List.getElem?_eq_some_iff.mp hget
    by_cases hstop : (bound.isSome && (c.makeRoom bound).hasFound) = true
    · -- one of those waited for found the target, so the crew does not come here
      have hno : ¬ Attempted bound jobs p := fun ha => (h.attempted_iff hi).mp ha hstop
      rw [work, if_pos hstop]
      exact ⟨p, h.ends h.keeps.makeRoom (Or.inl ⟨⟨_, rfl⟩, hno⟩)⟩
    · have ha := (h.attempted_iff hi).mpr hstop
      rw [work, if_neg hstop]
      cases hl : job.launch with
      | error cause =>
        refine ⟨p, h.ends h.keeps.makeRoom (Or.inr ⟨job.candidate, cause, rfl, ha, ?_⟩)⟩
        rw [hget, ← hl]
      | ok o => exact ih (h.next ha (outcomeAt?_of_launch hget hl)) hrest

theorem outcomeAt?_of_error {candidate : UInt32} {cause : SpawnFault}
    (hj : jobs[i]? = some ⟨candidate, .error cause⟩) : outcomeAt? jobs i = none := by
  rw [outcomeAt?, hj]
  rfl

variable {r : Except Failure CrewReport × Crew}

/-- The positions that were started are those that the crew came to and whose workers start. -/
theorem Ends.lt_iff (h : Ends bound jobs k r) :
    i < k ↔ Attempted bound jobs i ∧ (outcomeAt? jobs i).isSome = true := by
  refine ⟨fun hik => ⟨h.attempted i hik, h.starts i hik⟩, fun ⟨ha, ho⟩ => ?_⟩
  by_contra hik
  rcases h.exit with ⟨-, hno⟩ | ⟨candidate, cause, -, -, hget⟩
  · exact hno (ha.of_le (not_lt.mp hik))
  · have hnone := outcomeAt?_of_error hget
    obtain rfl := le_antisymm (ha.le_of_none hnone) (not_lt.mp hik)
    rw [hnone] at ho
    cases ho

/-- A run fails with the first worker that does not start, if the crew comes to it. -/
theorem Ends.error_iff (h : Ends bound jobs k r) {candidate : UInt32} {cause : SpawnFault} :
    r.1 = .error (.spawn candidate cause) ↔
      ∃ i, Attempted bound jobs i ∧ jobs[i]? = some ⟨candidate, .error cause⟩ := by
  constructor
  · intro he
    rcases h.exit with ⟨⟨report, hok⟩, -⟩ | ⟨candidate', cause', herr, hk, hget⟩
    · rw [hok] at he
      cases he
    · rw [herr] at he
      cases he
      exact ⟨k, hk, hget⟩
  · rintro ⟨i, ha, hi⟩
    have hnone := outcomeAt?_of_error hi
    have hki : k ≤ i := by
      by_contra hik
      have hsome := h.starts i (not_le.mp hik)
      rw [hnone] at hsome
      cases hsome
    rcases h.exit with ⟨-, hno⟩ | ⟨candidate', cause', herr, -, hget⟩
    · exact (hno (ha.of_le hki)).elim
    · obtain rfl := le_antisymm (ha.le_of_none (outcomeAt?_of_error hget)) hki
      rw [hi] at hget
      cases hget
      exact herr

/-- At every moment of a run, whatever ends it, the workers that were waited for are the first that
were started and no more run than the bound allows; in the end the workers that were started, which
are those of the first positions, were each waited for once in this order. A worker is started
exactly if the crew comes to its position and it starts, and the run fails exactly if the crew comes
to one that does not start, with that candidate; after that no other is started. -/
theorem history_orderly (bound : Bound) (jobs : List Job) :
    Orderly bound (history bound jobs) ∧
      (∃ k, spawned (history bound jobs) = List.range k ∧
        awaited (history bound jobs) = List.range k) ∧
      (∀ i, i ∈ spawned (history bound jobs) ↔
        Attempted bound jobs i ∧ (outcomeAt? jobs i).isSome = true) ∧
      (∀ candidate cause, run bound jobs = .error (.spawn candidate cause) ↔
        ∃ i, Attempted bound jobs i ∧ jobs[i]? = some ⟨candidate, .error cause⟩) ∧
      ¬ ∃ i j, Attempted bound jobs i ∧ outcomeAt? jobs i = none ∧ i < j ∧
        j ∈ spawned (history bound jobs) := by
  obtain ⟨k, h⟩ := work_ends (reached_initial bound jobs) rfl
  have hs : spawned (history bound jobs) = List.range k := h.keeps.spawned
  have ha : awaited (history bound jobs) = List.range k := by
    have hall := h.keeps.awaited
    rwa [h.idle, List.map_nil, List.append_nil] at hall
  have hmem (i : ℕ) : i ∈ spawned (history bound jobs) ↔
      Attempted bound jobs i ∧ (outcomeAt? jobs i).isSome = true := by
    rw [hs, List.mem_range]
    exact h.lt_iff
  refine ⟨h.keeps.orderly, ⟨k, hs, ha⟩, hmem, fun _ _ => h.error_iff, ?_⟩
  rintro ⟨i, j, -, hnone, hij, hj⟩
  have hle := ((hmem j).mp hj).1.le_of_none hnone
  omega

/-- The second worker does not start, and the first is waited for all the same. -/
example : history none [⟨7, .ok ⟨⟨7, .absent⟩, .code 0⟩⟩, ⟨6, .error .zeroByte⟩] =
    [.spawn 0, .await 0] := rfl

end Crew
end VethPeer
