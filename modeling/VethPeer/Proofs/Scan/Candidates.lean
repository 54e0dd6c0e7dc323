import Mathlib
import VethPeer.Scan

/-! Which processes a scan names: all that are looked for, or of each namespace the lowest. -/
namespace VethPeer.Scan

variable {s : Scan} {w : World} {p q : ProcessEntry} {x : Sighting} {xs : List Sighting}
  {own : Option NamespaceId} {seen : List NamespaceId} {pid : UInt32} {id : NamespaceId}

/-- The process is still there, and its command is one of those looked for. -/
structure Considers (s : Scan) (w : World) (p : ProcessEntry) : Prop where
  listed : p ∈ w.processes
  present : p.vanished = false
  command : ∃ command, p.command = some command ∧
    (s.patterns = [] ∨ ∃ g ∈ s.patterns, Glob.anyMatch [g] command = true)

/-- The process can stand for this namespace, which is not the caller's own unless that counts. -/
structure Eligible (s : Scan) (w : World) (pid : UInt32) (id : NamespaceId) : Prop where
  considered : ∃ p, s.Considers w p ∧ p.pid? = some pid ∧ p.identity = .ok id
  foreign : s.includeHost = false → w.hostIdentity ≠ .ok id

/-- The process is a candidate. -/
def Names (s : Scan) (w : World) (pid : UInt32) : Prop :=
  (s.includeHost = true ∧ s.allPids = true ∧ ∃ p, s.Considers w p ∧ p.pid? = some pid) ∨
    ∃ id, s.Eligible w pid id ∧ (s.allPids = false → ∀ lower < pid, ¬ s.Eligible w lower id)

theorem pid_eq_of_pid? (hp : p.pid? = some pid) (hq : q.pid? = some pid) : p.pid = q.pid := by
  unfold ProcessEntry.pid? at hp hq
  split_ifs at hp hq with hpr hqr
  have hn : p.pid.toNat % 2 ^ 32 = q.pid.toNat % 2 ^ 32 := by
    have h := congrArg UInt32.toNat (Option.some.inj (hp.trans hq.symm))
    simpa using h
  omega

theorem takesCommand_iff (command : String) :
    s.takesCommand command = true ↔
      s.patterns = [] ∨ ∃ g ∈ s.patterns, Glob.anyMatch [g] command = true := by
  simp [takesCommand, Glob.anyMatch]

/-- What has to hold of a process to be seen by the scan, and what is seen then. -/
theorem sighting?_eq_some_iff :
    s.sighting? p = some x ↔ p.vanished = false ∧ p.pid? = some x.pid ∧
      (∃ command, p.command = some command ∧ s.takesCommand command = true) ∧
      if s.needsNamespace then ∃ id, p.identity = .ok id ∧ x.namespaceId = some id
      else x.namespaceId = none := by
  obtain ⟨pid, namespaceId⟩ := x
  cases hv : p.vanished with
  | true => simp [sighting?, hv]
  | false =>
    cases hp : p.pid? with
    | none => simp [sighting?, hv, hp]
    | some n =>
      cases hc : p.command with
      | none => simp [sighting?, hv, hp, hc]
      | some command =>
        cases ht : s.takesCommand command with
        | false => simp [sighting?, hv, hp, hc, ht]
        | true =>
          cases hn : s.needsNamespace with
          | false =>
            simpa [sighting?, hv, hp, hc, ht, hn] using fun _ => eq_comm
          | true =>
            cases hi : p.identity with
            | error errno => simp [sighting?, hv, hp, hc, ht, hn, hi]
            | ok id =>
              simpa [sighting?, hv, hp, hc, ht, hn, hi] using fun _ => eq_comm

/-- The processes that are seen, the lowest first. -/
def sightings (s : Scan) (w : World) : List Sighting :=
  (w.processes.filterMap s.sighting?).mergeSort (·.pid ≤ ·.pid)

theorem mem_sightings : x ∈ s.sightings w ↔ ∃ p ∈ w.processes, s.sighting? p = some x := by
  simp [sightings]

theorem sightings_ascending (distinct : (w.processes.map (·.pid)).Nodup) :
    (s.sightings w).Pairwise (·.pid < ·.pid) := by
  have hsorted : (s.sightings w).Pairwise (·.pid ≤ ·.pid) := by
    refine (List.pairwise_mergeSort ?_ ?_ (w.processes.filterMap s.sighting?)).imp of_decide_eq_true
    · intro x y z hxy hyz
      exact decide_eq_true (UInt32.le_trans (of_decide_eq_true hxy) (of_decide_eq_true hyz))
    · intro x y
      simpa using UInt32.le_total x.pid y.pid
  have hne : (w.processes.filterMap s.sighting?).Pairwise (·.pid ≠ ·.pid) := by
    refine (List.pairwise_map.mp distinct).filterMap s.sighting? ?_
    intro p q hpq x hx y hy hxy
    have hp := (sighting?_eq_some_iff.mp hx).2.1
    have hq := (sighting?_eq_some_iff.mp hy).2.1
    exact hpq (pid_eq_of_pid? hp (hxy ▸ hq))
  have hdistinct : (s.sightings w).Pairwise (·.pid ≠ ·.pid) :=
    (List.mergeSort_perm _ _).symm.pairwise hne fun h => h.symm
  exact (hsorted.and hdistinct).imp fun ⟨hle, hn⟩ => UInt32.lt_of_le_of_ne hle hn

/-! ## The choice -/

theorem choose_sublist (s : Scan) (own : Option NamespaceId) (seen : List NamespaceId)
    (xs : List Sighting) : (s.choose own seen xs).Sublist (xs.map (·.pid)) := by
  fun_induction choose s own seen xs <;> simp_all

/-- Nobody is left out when namespaces do not matter. -/
theorem choose_of_not_needsNamespace (hn : s.needsNamespace = false) :
    s.choose own seen xs = xs.map (·.pid) := by
  induction xs with
  | nil => rfl
  | cons x xs ih => simp [choose, hn, ih]

/-- The namespace of the process counts. -/
def Admits (s : Scan) (own : Option NamespaceId) (x : Sighting) (id : NamespaceId) : Prop :=
  x.namespaceId = some id ∧ (s.includeHost = false → own ≠ some id)

/-- Of those that count this is one; unless all are asked for, it is the first of its namespace, which
is none of those seen. -/
def Picks (s : Scan) (own : Option NamespaceId) (seen : List NamespaceId) (xs : List Sighting)
    (pid : UInt32) : Prop :=
  ∃ x ∈ xs, x.pid = pid ∧ ∃ id, s.Admits own x id ∧
    (s.allPids = false → id ∉ seen ∧ ∀ y ∈ xs, y.pid < pid → y.namespaceId ≠ some id)

/-- Only namespaces that count have to be kept in mind. -/
theorem picks_congr {seen' : List NamespaceId}
    (h : s.allPids = false → ∀ id, (s.includeHost = false → own ≠ some id) →
      (id ∈ seen ↔ id ∈ seen')) :
    s.Picks own seen xs pid ↔ s.Picks own seen' xs pid := by
  refine exists_congr fun x => and_congr_right fun _ => and_congr_right fun _ =>
    exists_congr fun id => and_congr_right fun hid => forall_congr' fun hall => ?_
  rw [h hall id hid.2]

/-- The first is the lowest, so it is picked if its namespace is new, which it is not to the rest. -/
theorem picks_cons (hlt : ∀ y ∈ xs, x.pid < y.pid) :
    s.Picks own seen (x :: xs) pid ↔
      (x.pid = pid ∧ ∃ id, s.Admits own x id ∧ (s.allPids = false → id ∉ seen)) ∨
        s.Picks own (x.namespaceId.toList ++ seen) xs pid := by
  have hnotin (id : NamespaceId) :
      id ∉ x.namespaceId.toList ++ seen ↔ x.namespaceId ≠ some id ∧ id ∉ seen := by
    simp
  constructor
  · rintro ⟨y, hy, rfl, id, hid, hfirst⟩
    rcases List.mem_cons.mp hy with rfl | hy
    · exact .inl ⟨rfl, id, hid, fun hall => (hfirst hall).1⟩
    · refine .inr ⟨y, hy, rfl, id, hid, fun hall => ?_⟩
      obtain ⟨hseen, hfirst⟩ := hfirst hall
      exact ⟨(hnotin id).mpr ⟨hfirst x List.mem_cons_self (hlt y hy), hseen⟩,
        fun z hz => hfirst z (List.mem_cons_of_mem _ hz)⟩
  · rintro (⟨rfl, id, hid, hseen⟩ | ⟨y, hy, rfl, id, hid, hfirst⟩)
    · refine ⟨x, List.mem_cons_self, rfl, id, hid, fun hall => ⟨hseen hall, fun z hz hzx => ?_⟩⟩
      -- nothing is lower than the first
      rcases List.mem_cons.mp hz with rfl | hz
      · exact (UInt32.lt_irrefl _ hzx).elim
      · exact (UInt32.lt_irrefl _ (UInt32.lt_trans (hlt z hz) hzx)).elim
    · refine ⟨y, List.mem_cons_of_mem _ hy, rfl, id, hid, fun hall => ?_⟩
      obtain ⟨hnew, hfirst⟩ := hfirst hall
      obtain ⟨hne, hseen⟩ := (hnotin id).mp hnew
      refine ⟨hseen, fun z hz hzy => ?_⟩
      rcases List.mem_cons.mp hz with rfl | hz
      · exact hne
      · exact hfirst z hz hzy

theorem mem_choose (hn : s.needsNamespace = true) (hx : xs.Pairwise (·.pid < ·.pid)) :
    pid ∈ s.choose own seen xs ↔ s.Picks own seen xs pid := by
  induction xs generalizing seen with
  | nil => simp [choose, Picks]
  | cons x xs ih =>
    obtain ⟨hlt, hxs⟩ := List.pairwise_cons.mp hx
    rw [picks_cons hlt]
    simp only [choose, hn, Bool.not_true, Bool.false_eq_true, if_false]
    cases hns : x.namespaceId with
    | none =>
      have hno : ∀ id, ¬ s.Admits own x id := fun id hid => nomatch hns.symm.trans hid.1
      simp [ih hxs, hno]
    | some id =>
      have hhead : (∃ id', s.Admits own x id' ∧ (s.allPids = false → id' ∉ seen)) ↔
          (s.includeHost = false → own ≠ some id) ∧ (s.allPids = false → id ∉ seen) := by
        simp [Admits, hns, and_assoc]
      rw [hhead, Option.toList_some, List.singleton_append]
      dsimp only
      by_cases hown : s.includeHost = false ∧ own = some id
      · -- nobody else counts who is in this namespace either
        have hrest : s.Picks own (id :: seen) xs pid ↔ s.Picks own seen xs pid := by
          refine picks_congr fun _ id' hid' => ?_
          have hne : id' ≠ id := fun he => hid' hown.1 (he ▸ hown.2)
          simp [hne]
        rw [if_pos (by simpa using hown), ih hxs, hrest]
        exact ⟨.inr, fun h => h.resolve_left fun h => h.2.1 hown.1 hown.2⟩
      · have hcounts : s.includeHost = false → own ≠ some id := fun hi ho => hown ⟨hi, ho⟩
        rw [if_neg (by simpa using hown), and_iff_right hcounts]
        cases hall : s.allPids with
        | true =>
          have hrest : s.Picks own (id :: seen) xs pid ↔ s.Picks own seen xs pid :=
            picks_congr fun h => nomatch hall.symm.trans h
          rw [if_pos rfl, List.mem_cons, ih hxs, hrest, eq_comm]
          simp
        | false =>
          by_cases hseen : id ∈ seen
          · have hrest : s.Picks own (id :: seen) xs pid ↔ s.Picks own seen xs pid := by
              refine picks_congr fun _ id' _ => ?_
              simp only [List.mem_cons, or_iff_right_iff_imp]
              exact fun he => he ▸ hseen
            simp [ih hxs, hrest, hseen]
          · -- from here on the namespace is taken
            have hnot : ¬ seen.contains id = true := by simpa using hseen
            rw [if_neg Bool.false_ne_true, if_neg hnot, List.mem_cons, ih hxs, eq_comm]
            simp [hseen]

/-- The namespace whose processes do not count, if there is one. -/
def barred? (s : Scan) (w : World) : Option NamespaceId :=
  if s.includeHost then none else w.hostIdentity.toOption

theorem barred?_ne_iff :
    (s.includeHost = false → s.barred? w ≠ some id) ↔
      (s.includeHost = false → w.hostIdentity ≠ .ok id) := by
  refine forall_congr' fun hi => not_congr ?_
  cases ho : w.hostIdentity <;> simp [barred?, hi, ho, Except.toOption]

theorem considers_iff :
    s.Considers w p ↔ p ∈ w.processes ∧ p.vanished = false ∧
      ∃ command, p.command = some command ∧ s.takesCommand command = true := by
  simp only [takesCommand_iff]
  exact ⟨fun h => ⟨h.listed, h.present, h.command⟩, fun ⟨hl, hp, hc⟩ => ⟨hl, hp, hc⟩⟩

theorem eligible_iff (hn : s.needsNamespace = true) :
    s.Eligible w pid id ↔ ∃ x ∈ s.sightings w, x.pid = pid ∧ s.Admits (s.barred? w) x id := by
  constructor
  · rintro ⟨⟨p, hp, hpid, hid⟩, hforeign⟩
    obtain ⟨hlisted, hpresent, hcommand⟩ := considers_iff.mp hp
    have hx : s.sighting? p = some ⟨pid, some id⟩ :=
      sighting?_eq_some_iff.mpr ⟨hpresent, hpid, hcommand, by simp [hn, hid]⟩
    exact ⟨⟨pid, some id⟩, mem_sightings.mpr ⟨p, hlisted, hx⟩, rfl, rfl,
      barred?_ne_iff.mpr hforeign⟩
  · rintro ⟨x, hx, rfl, hid, hbarred⟩
    obtain ⟨p, hlisted, hx⟩ := mem_sightings.mp hx
    obtain ⟨hpresent, hpid, hcommand, hnamespace⟩ := sighting?_eq_some_iff.mp hx
    rw [if_pos hn, hid] at hnamespace
    obtain ⟨id', hidentity, hsame⟩ := hnamespace
    obtain rfl := Option.some.inj hsame
    exact ⟨⟨p, considers_iff.mpr ⟨hlisted, hpresent, hcommand⟩, hpid, hidentity⟩,
      barred?_ne_iff.mp hbarred⟩

theorem mem_choose_iff_names (distinct : (w.processes.map (·.pid)).Nodup) :
    pid ∈ s.choose (s.barred? w) [] (s.sightings w) ↔ s.Names w pid := by
  cases hn : s.needsNamespace with
  | false =>
    have hall : s.includeHost = true ∧ s.allPids = true := by simpa [needsNamespace] using hn
    have hpids : pid ∈ (s.sightings w).map (·.pid) ↔
        ∃ p, s.Considers w p ∧ p.pid? = some pid := by
      simp only [List.mem_map, mem_sightings, considers_iff]
      constructor
      · rintro ⟨x, ⟨p, hp, hx⟩, rfl⟩
        obtain ⟨hpresent, hpid, hcommand, -⟩ := sighting?_eq_some_iff.mp hx
        exact ⟨p, ⟨hp, hpresent, hcommand⟩, hpid⟩
      · rintro ⟨p, ⟨hp, hpresent, hcommand⟩, hpid⟩
        refine ⟨⟨pid, none⟩, ⟨p, hp, ?_⟩, rfl⟩
        exact sighting?_eq_some_iff.mpr ⟨hpresent, hpid, hcommand, by simp [hn]⟩
    rw [choose_of_not_needsNamespace hn, hpids]
    refine ⟨fun h => Or.inl ⟨hall.1, hall.2, h⟩, ?_⟩
    rintro (⟨-, -, h⟩ | ⟨id, ⟨⟨p, hp, hpid, -⟩, -⟩, -⟩)
    · exact h
    · exact ⟨p, hp, hpid⟩
  | true =>
    have hnot : ¬ (s.includeHost = true ∧ s.allPids = true) := by
      rintro ⟨hi, ha⟩
      simp [needsNamespace, hi, ha] at hn
    rw [mem_choose hn (sightings_ascending distinct)]
    constructor
    · rintro ⟨x, hx, rfl, id, hadmits, hfirst⟩
      refine Or.inr ⟨id, (eligible_iff hn).mpr ⟨x, hx, rfl, hadmits⟩, fun ha lower hlt hlower => ?_⟩
      obtain ⟨y, hy, rfl, hid, -⟩ := (eligible_iff hn).mp hlower
      exact (hfirst ha).2 y hy hlt hid
    · rintro (⟨hi, ha, -⟩ | ⟨id, helig, hfirst⟩)
      · exact (hnot ⟨hi, ha⟩).elim
      · obtain ⟨x, hx, rfl, hadmits⟩ := (eligible_iff hn).mp helig
        refine ⟨x, hx, rfl, id, hadmits, fun ha => ⟨List.not_mem_nil, fun y hy hlt hid => ?_⟩⟩
        -- a lower process of the same namespace counts as well
        exact hfirst ha y.pid hlt ((eligible_iff hn).mpr ⟨y, hy, rfl, hid, hadmits.2⟩)

/-- Nothing keeps the scan from reading what it needs. -/
structure Readable (s : Scan) (w : World) : Prop where
  table : w.tableFault = none
  host : s.includeHost = false → ∃ own, w.hostIdentity = .ok own

theorem candidates_of_readable (h : s.Readable w) :
    s.candidates w = .ok (s.choose (s.barred? w) [] (s.sightings w)) := by
  obtain ⟨ht, ho⟩ := h
  cases hi : s.includeHost with
  | true => simp [candidates, ht, hi, sightings, barred?]
  | false =>
    obtain ⟨own, ho⟩ := ho hi
    simp [candidates, ht, hi, ho, sightings, barred?, World.ownIdentity, Except.mapError,
      Except.toOption]

/-- A scan names candidates in ascending order, whatever the order of the table. -/
theorem exists_candidates (distinct : (w.processes.map (·.pid)).Nodup) (h : s.Readable w) :
    ∃ pids, s.candidates w = .ok pids ∧ pids.Pairwise (· < ·) ∧
      ∀ pid, pid ∈ pids ↔ s.Names w pid := by
  refine ⟨_, candidates_of_readable h, ?_, fun pid => mem_choose_iff_names distinct⟩
  exact (List.pairwise_map.mpr (sightings_ascending distinct)).sublist (choose_sublist _ _ _ _)

theorem candidates_of_not_readable (h : ¬ s.Readable w) :
    ∃ defect, s.candidates w = .error (.scan defect) := by
  cases ht : w.tableFault with
  | some text => exact ⟨.table text, by simp [candidates, ht]⟩
  | none =>
    cases hi : s.includeHost with
    | true => exact (h ⟨ht, by simp [hi]⟩).elim
    | false =>
      cases ho : w.hostIdentity with
      | ok own => exact (h ⟨ht, fun _ => ⟨own, ho⟩⟩).elim
      | error errno =>
        exact ⟨.identity (.entry World.ownNamespacePath errno), by
          simp [candidates, ht, hi, ho, World.ownIdentity, Except.mapError]⟩

/-- A process is in one namespace. -/
theorem eligible_unique (distinct : (w.processes.map (·.pid)).Nodup) {id' : NamespaceId}
    (h : s.Eligible w pid id) (h' : s.Eligible w pid id') : id = id' := by
  obtain ⟨p, hp, hpid, hid⟩ := h.considered
  obtain ⟨q, hq, hqid, hid'⟩ := h'.considered
  have hpq : p = q :=
    List.inj_on_of_nodup_map distinct hp.listed hq.listed (pid_eq_of_pid? hpid hqid)
  subst hpq
  exact Except.ok.inj (hid.symm.trans hid')

theorem exists_lowest (h : s.Eligible w pid id) :
    ∃ lowest, s.Eligible w lowest id ∧ ∀ lower, s.Eligible w lower id → lowest ≤ lower := by
  obtain ⟨lowest, helig, hmin⟩ :=
    (measure UInt32.toNat).wf.has_min {n | s.Eligible w n id} ⟨pid, h⟩
  exact ⟨lowest, helig, fun lower hlower => UInt32.not_lt.mp fun hlt => hmin lower hlower hlt⟩

/-- The one candidate of a namespace is the lowest of its processes. -/
theorem names_iff_lowest (distinct : (w.processes.map (·.pid)).Nodup) (ha : s.allPids = false)
    (h : s.Eligible w pid id) :
    s.Names w pid ↔ ∀ lower, s.Eligible w lower id → pid ≤ lower := by
  have hlower : (∀ lower < pid, ¬ s.Eligible w lower id) ↔
      ∀ lower, s.Eligible w lower id → pid ≤ lower :=
    forall_congr' fun lower => imp_not_comm.trans (by rw [UInt32.not_lt])
  rw [← hlower]
  constructor
  · rintro (⟨-, hall, -⟩ | ⟨id', helig, hlowest⟩)
    · rw [ha] at hall
      cases hall
    · obtain rfl := eligible_unique distinct h helig
      exact hlowest ha
  · exact fun hlowest => Or.inr ⟨id, h, fun _ => hlowest⟩

/-- If the table can be read, and the caller's own namespace as well if its processes do not count,
a scan names in ascending order exactly the processes that can stand for themselves or are the
lowest to stand for their namespace; otherwise it fails. Unless all are asked for, every namespace
that counts has one candidate, which is the lowest of its processes. -/
theorem candidates_eligible (distinct : (w.processes.map (·.pid)).Nodup) (s : Scan) :
    (s.Readable w → ∃ pids, s.candidates w = .ok pids ∧ pids.Pairwise (· < ·) ∧
      (∀ pid, pid ∈ pids ↔ s.Names w pid) ∧
      (s.allPids = false → ∀ id, (∃ pid, s.Eligible w pid id) →
        ∃ lowest, s.Eligible w lowest id ∧ (∀ pid, s.Eligible w pid id → lowest ≤ pid) ∧
          pids.count lowest = 1 ∧ ∀ other ∈ pids, s.Eligible w other id → other = lowest)) ∧
    (¬ s.Readable w → ∃ defect, s.candidates w = .error (.scan defect)) := by
  refine ⟨fun h => ?_, candidates_of_not_readable⟩
  obtain ⟨pids, hpids, hascending, hmem⟩ := exists_candidates distinct h
  refine ⟨pids, hpids, hascending, hmem, fun ha id ⟨pid, helig⟩ => ?_⟩
  obtain ⟨lowest, hlowest, hmin⟩ := exists_lowest helig
  have hnodup : pids.Nodup := hascending.imp UInt32.ne_of_lt
  have hin : lowest ∈ pids := (hmem lowest).mpr ((names_iff_lowest distinct ha hlowest).mpr hmin)
  refine ⟨lowest, hlowest, hmin, List.count_eq_one_of_mem hnodup hin, fun other ho hother => ?_⟩
  have hmin' := (names_iff_lowest distinct ha hother).mp ((hmem other).mp ho)
  exact UInt32.le_antisymm (hmin' lowest hlowest) (hmin other hother)

/-- Processes of the caller and of three other namespaces, one of which has ended, one of which does
not tell its command, and one of which does not tell its namespace. -/
def someWorld : World where
  hostIdentity := .ok ⟨4, 100⟩
  processes := [
    { pid := 9, command := some "web", identity := .ok ⟨4, 200⟩ },
    { pid := 12, command := some "web", identity := .ok ⟨4, 300⟩ },
    { pid := 1, command := some "web", identity := .ok ⟨4, 100⟩ },
    { pid := 2, command := some "web", identity := .ok ⟨4, 200⟩, vanished := true },
    { pid := 6, command := some "web", identity := .ok ⟨4, 200⟩ },
    { pid := 3, command := none, identity := .ok ⟨4, 300⟩ },
    { pid := 4, command := some "db", identity := .ok ⟨4, 400⟩ },
    { pid := 5, command := some "web", identity := .error .accessDenied }]

def webScan : Scan := { patterns := [⟨"w*", [.literal 'w', .anyRun]⟩] }

theorem candidates_eligible_someWorld :
    (someWorld.processes.map (·.pid)).Nodup ∧ webScan.Readable someWorld ∧
      webScan.candidates someWorld = .ok [6, 12] ∧ webScan.Names someWorld 6 ∧
      ¬ webScan.Names someWorld 9 := by
  have distinct : (someWorld.processes.map (·.pid)).Nodup := by decide
  have readable : webScan.Readable someWorld := ⟨rfl, fun _ => ⟨_, rfl⟩⟩
  have hseen : someWorld.processes.filterMap webScan.sighting? =
      [⟨9, some ⟨4, 200⟩⟩, ⟨12, some ⟨4, 300⟩⟩, ⟨1, some ⟨4, 100⟩⟩, ⟨6, some ⟨4, 200⟩⟩] := by decide
  have hcandidates : webScan.candidates someWorld = .ok [6, 12] := by
    rw [candidates, hseen]
    cbv
  obtain ⟨pids, hpids, -, hmem, -⟩ := (candidates_eligible distinct webScan).1 readable
  obtain rfl : [6, 12] = pids := Except.ok.inj (hcandidates.symm.trans hpids)
  exact ⟨distinct, readable, hcandidates, (hmem 6).mp (by decide), fun h =>
    absurd ((hmem 9).mpr h) (by decide)⟩

end VethPeer.Scan
