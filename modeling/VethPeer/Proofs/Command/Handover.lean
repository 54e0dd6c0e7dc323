import Mathlib
import VethPeer.Command.Resolve
import VethPeer.Proofs.Probe.Record
import VethPeer.Text.Digits

/-! How a worker process reads the target that it is started with. -/
namespace VethPeer

theorem Target.eq_device_of_ofDevice {pattern : String} {t : Target}
    (h : Target.ofDevice pattern = .ok t) : t = .device pattern := by
  unfold ofDevice at h
  cases hq : Query.ofDevice pattern with
  | error f => simp [hq, Except.map] at h
  | ok q =>
    simp only [hq, Except.map, Except.ok.injEq] at h
    exact h.symm

/-- The option that tells a worker the target, and what it is given for it. -/
def Target.key : Target → String
  | .address _ => "address"
  | .device _ => "dev"

def Target.value : Target → String
  | .address a => a.text
  | .device pattern => pattern

theorem Target.arguments_eq (t : Target) : t.arguments = ["--" ++ t.key, t.value] := by
  cases t <;> rfl

theorem Target.arguments_any_zero (t : Target) :
    t.arguments.any (·.toList.contains '\x00') = t.value.toList.contains '\x00' := by
  cases t <;> simp [arguments, value]

/-- The target is taken for itself when it is read. -/
def Target.ReadsBack : Target → Prop
  | .address a => Target.ofAddress a.text = .ok (.address a)
  | .device pattern => Target.ofDevice pattern = .ok (.device pattern)

/-- Workers that leave the program alone are all started, unless an argument cannot be passed. -/
theorem Worker.jobs_ready (arguments : List String) (f : UInt32 → Worker)
    (hf : ∀ c, (f c).leaves = none) (candidates : List UInt32) :
    jobs arguments .ready (candidates.map fun c => (c, f c)) =
      candidates.map fun c =>
        ⟨c, if arguments.any (·.toList.contains '\x00') then .error .zeroByte
          else .ok ((f c).outcome c)⟩ := by
  induction candidates with
  | nil => rfl
  | cons c cs ih =>
    simp only [List.map_cons, jobs, Program.fault?, hf, Option.getD_none, ih]
    by_cases hz : (arguments.any (·.toList.contains '\x00')) = true
    · rw [if_pos hz, if_pos hz]
    · rw [if_neg hz, if_neg hz]

namespace Command

variable {g : Grammar} {given given' : Given} {s : Spec} {name key value text pattern : String}
  {rest args : List String} {pid : UInt32} {t : Target}

/-- A dash and something after it. -/
def ReadsAsOption (text : String) : Prop := text.toList.head? = some '-' ∧ text.toList ≠ ['-']

instance (text : String) : Decidable (ReadsAsOption text) := inferInstanceAs (Decidable (_ ∧ _))

theorem readsAsOption_iff : ReadsAsOption text ↔ ∃ c cs, text.toList = '-' :: c :: cs := by
  unfold ReadsAsOption
  cases text.toList with
  | nil => simp
  | cons c cs => cases cs <;> simp

theorem not_readsAsOption_of_digits (h : ∀ c ∈ text.toList, c.isDigit = true) :
    ¬ ReadsAsOption text := by
  intro ho
  obtain ⟨c, cs, he⟩ := readsAsOption_iff.mp ho
  have hdash : '-' ∈ text.toList := he ▸ List.mem_cons_self
  cases h _ hdash

namespace Grammar

/-- An option that waits for its value refuses what reads as an option. -/
theorem read_waiting_of_readsAsOption (h : ReadsAsOption text) :
    g.read given (some s) (text :: rest) = .error .usage := by
  obtain ⟨c, cs, he⟩ := readsAsOption_iff.mp h
  rw [read.eq_def]
  simp only [he]

theorem read_waiting (h : ¬ ReadsAsOption text) :
    g.read given (some s) (text :: rest) =
      match given.record s text with
      | .error halt => .error halt
      | .ok given => g.read given none rest := by
  have hne : ∀ c cs, text.toList ≠ '-' :: c :: cs := by
    intro c cs he
    exact h (readsAsOption_iff.mpr ⟨c, cs, he⟩)
  rw [read.eq_def]
  split
  · cases ‹_ :: _ = []›
  · cases ‹_ :: _ = []›
  · rename_i hlist
    cases hlist
    split
    case h_5 hwaiting _ =>
      cases hwaiting
      rfl
    -- the other patterns begin with a dash and more, or take no waiting option
    all_goals simp_all

theorem read_long {cs : List Char} {waiting : Option Spec}
    (ht : text.toList = '-' :: '-' :: cs) (hn : cs ≠ [])
    (hl : g.long given cs = .ok (given', waiting)) :
    g.read given none (text :: rest) = g.read given' waiting rest := by
  obtain ⟨c, cs, rfl⟩ := List.exists_cons_of_ne_nil hn
  rw [read.eq_def]
  simp only [ht, hl]

/-- The grammar has an option of this long name that takes a value. -/
structure Takes (g : Grammar) (name : String) (s : Spec) : Prop where
  found : g.specs.find? (·.long = some name) = some s
  takes : s.value.isSome = true
  plain : '=' ∉ name.toList
  nonempty : name.toList ≠ []
  notHelp : isHelp name = false

namespace Takes

theorem long_eq (h : g.Takes name s) : g.long given name.toList = .ok (given, some s) := by
  simp only [long, takeWhile_ne h.plain, String.ofList_toList, List.drop_length, h.notHelp,
    Bool.false_eq_true, if_false, h.found, h.takes]

theorem long_attached (h : g.Takes name s) (value : String) :
    g.long given (name.toList ++ '=' :: value.toList) = (given.record s value).map (·, none) := by
  simp only [long, takeWhile_ne_append h.plain, String.ofList_toList, List.drop_left, h.notHelp,
    Bool.false_eq_true, if_false, h.found, h.takes]

/-- An option without an attached value waits for it. -/
theorem read (h : g.Takes name s) (rest : List String) :
    g.read given none (("--" ++ name) :: rest) = g.read given (some s) rest := by
  have hlist : ("--" ++ name).toList = '-' :: '-' :: name.toList := String.toList_append
  exact read_long hlist h.nonempty h.long_eq

/-- An attached value may be anything. -/
theorem read_attached (h : g.Takes name s) (hr : given.record s value = .ok given')
    (rest : List String) :
    g.read given none (("--" ++ name ++ "=" ++ value) :: rest) = g.read given' none rest := by
  have hlist : ("--" ++ name ++ "=" ++ value).toList =
      '-' :: '-' :: (name.toList ++ '=' :: value.toList) := by
    simp [String.toList_append]
  have hlong : g.long given (name.toList ++ '=' :: value.toList) = .ok (given', none) := by
    rw [h.long_attached, hr]
    rfl
  exact read_long hlist (by simp) hlong

end Takes
end Grammar

namespace Worker

theorem integer?_toString (pid : UInt32) :
    Numeral.integer? (toString pid) = some (pid.toNat : ℤ) :=
  Numeral.integer?_toString pid.toNat

theorem isPid_toString (pid : UInt32) : isPid (toString pid) = true := by
  have hlt := pid.toNat_lt
  simp only [isPid, Numeral.between?, integer?_toString, Option.filter]
  rw [if_pos (by simp; omega)]
  rfl

theorem pidOf_toString (pid : UInt32) : pidOf (toString pid) = pid := by
  rw [pidOf, integer?_toString, Option.getD_some, Int.toNat_natCast, UInt32.ofNat_toNat]

theorem not_readsAsOption_pid (pid : UInt32) : ¬ ReadsAsOption (toString pid) :=
  not_readsAsOption_of_digits fun _ hc => Numeral.isDigit_of_mem_toString (n := pid.toNat) hc

/-- An option of the worker, which may be given once. -/
def option (key : String) (takes : String → Bool) : Spec :=
  { key, long := some key, value := some takes }

theorem takes_pid : grammar.Takes "pid" (option "pid" isPid) :=
  ⟨rfl, rfl, by decide, by decide, rfl⟩

theorem takes_key (t : Target) : grammar.Takes t.key (option t.key Show.anyText) := by
  have plain : '=' ∉ "address".toList ∧ '=' ∉ "dev".toList := by decide
  have nonempty : "address".toList ≠ [] ∧ "dev".toList ≠ [] := by decide
  cases t with
  | address a => exact ⟨rfl, rfl, plain.1, nonempty.1, rfl⟩
  | device pattern => exact ⟨rfl, rfl, plain.2, nonempty.2, rfl⟩

theorem record_option {takes : String → Bool} (hnew : given.has key = false)
    (hvalue : takes value = true) :
    given.record (option key takes) value = .ok ⟨(key, value) :: given.items⟩ := by
  simp [Given.record, option, hnew, hvalue]

/-- The number of the candidate is read back. -/
theorem read_pid (pid : UInt32) (rest : List String) :
    grammar.read {} none ("--pid" :: toString pid :: rest) =
      grammar.read ⟨[("pid", toString pid)]⟩ none rest := by
  refine (takes_pid.read (toString pid :: rest)).trans ?_
  rw [Grammar.read_waiting (not_readsAsOption_pid pid), record_option rfl (isPid_toString pid)]

/-- The text of the target is none of the reader's business. -/
theorem record_value (pid : UInt32) (t : Target) :
    Given.record ⟨[("pid", toString pid)]⟩ (option t.key Show.anyText) t.value =
      .ok ⟨[(t.key, t.value), ("pid", toString pid)]⟩ := by
  apply record_option
  · cases t <;> rfl
  · rfl

/-- The arguments of a worker as they are read back. -/
def Arguments.of (pid : UInt32) : Target → Arguments
  | .address a => ⟨pid, some a.text, none⟩
  | .device pattern => ⟨pid, none, some pattern⟩

theorem target_of (h : t.ReadsBack) (pid : UInt32) : (Arguments.of pid t).target = .ok t := by
  cases t <;> exact h

theorem pid_of (pid : UInt32) (t : Target) : (Arguments.of pid t).pid = pid := by
  cases t <;> rfl

theorem parse_of_read (h : grammar.parse args = .ok ⟨[(t.key, t.value), ("pid", toString pid)]⟩) :
    parse args = .ok (.of pid t) := by
  rw [parse, h]
  cases t <;> simp [bind, Except.bind, Given.has, Given.value?, Given.values, pidOf_toString,
    Target.key, Target.value, Arguments.of]

/-- A target is read back unless its text reads as an option. -/
theorem parse_arguments (pid : UInt32) (t : Target) :
    parse (arguments pid t) =
      if ReadsAsOption t.value then .error .usage else .ok (.of pid t) := by
  have hread : grammar.parse (arguments pid t) =
      grammar.read ⟨[("pid", toString pid)]⟩ (some (option t.key Show.anyText)) [t.value] := by
    rw [arguments, Target.arguments_eq]
    exact (read_pid pid _).trans ((takes_key t).read [t.value])
  by_cases ho : ReadsAsOption t.value
  · rw [if_pos ho, parse, hread, Grammar.read_waiting_of_readsAsOption ho]
    rfl
  · rw [if_neg ho]
    apply parse_of_read
    rw [hread, Grammar.read_waiting ho, record_value]
    rfl

/-- Attached to its option the text would be read back whatever it is. -/
theorem parse_attached (pid : UInt32) (t : Target) :
    parse ["--pid", toString pid, "--" ++ t.key ++ "=" ++ t.value] = .ok (.of pid t) := by
  apply parse_of_read
  exact (read_pid pid _).trans ((takes_key t).read_attached (record_value pid t) [])

theorem execute_arguments (w : World) (pid : UInt32) (h : t.ReadsBack) :
    execute w (arguments pid t) =
      if ReadsAsOption t.value then Halt.usage.output
      else match Probe.run w pid t with
        | some finding => { stdout := finding.record }
        | none => .ofOverflow := by
  rw [execute, parse_arguments]
  by_cases ho : ReadsAsOption t.value
  · rw [if_pos ho, if_pos ho]
  · rw [if_neg ho, if_neg ho]
    cases hrun : Probe.run w pid t with
    | none => simp only [run, target_of h, pid_of, hrun]
    | some finding => simp only [run, target_of h, pid_of, hrun]

end Worker

/-- What is heard of a worker: its record is believed, and if it broke off it counts as failed. -/
def heard (candidate : UInt32) : Option Finding → Outcome
  | some finding => ⟨.ofRecord candidate finding.record, .code 0⟩
  | none => ⟨⟨candidate, .failed .worker⟩, .code 101⟩

/-- Without a record a worker counts as failed. -/
theorem outcome_worker (w : World) (candidate : UInt32) (h : t.ReadsBack) :
    (Resolve.worker w t candidate).outcome candidate =
      if ReadsAsOption t.value then ⟨⟨candidate, .failed .worker⟩, .code 2⟩
      else heard candidate (Probe.run w candidate t) := by
  rw [Resolve.worker, Worker.execute_arguments w candidate h]
  by_cases ho : ReadsAsOption t.value
  · rw [if_pos ho, if_pos ho]
    rfl
  · rw [if_neg ho, if_neg ho]
    cases Probe.run w candidate t with
    | none => rfl
    | some finding =>
      exact congrArg (Outcome.mk · (.code 0))
        (congrArg (Finding.mk candidate) (Answer.ofRecord_take _))

/-- A text with a zero byte starts no worker at all. -/
theorem jobs_eq (w : World) (h : t.ReadsBack) (candidates : List UInt32) :
    Resolve.jobs w t candidates = candidates.map fun c =>
      ⟨c, if '\x00' ∈ t.value.toList then .error .zeroByte
        else .ok (if ReadsAsOption t.value then ⟨⟨c, .failed .worker⟩, .code 2⟩
          else heard c (Probe.run w c t))⟩ := by
  rw [Resolve.jobs, VethPeer.Worker.jobs_ready _ _ (fun _ => rfl), t.arguments_any_zero]
  simp only [List.contains_iff_mem]
  apply List.map_congr_left
  intro c _
  rw [outcome_worker w c h]

/-- Every pattern that is taken for a device comes back from the command line of the worker with
the candidate, and as the same target, exactly if it does not read as an option. If it does, the
command line is not understood: the worker of every candidate ends without a record and counts as
failed, whatever is in its namespace. Otherwise every worker reports what is found there. A pattern
with a zero byte starts no worker at all. -/
theorem device_handed_over (pid : UInt32) (h : Target.ofDevice pattern = .ok t) :
    ((∃ a, Worker.parse (Worker.arguments pid t) = .ok a ∧ a.pid = pid ∧ a.target = .ok t) ↔
        ¬ ReadsAsOption pattern) ∧
      (ReadsAsOption pattern → Worker.parse (Worker.arguments pid t) = .error .usage) ∧
      ∀ w candidates, Resolve.jobs w t candidates = candidates.map fun c =>
        ⟨c, if '\x00' ∈ pattern.toList then .error .zeroByte
          else .ok (if ReadsAsOption pattern then ⟨⟨c, .failed .worker⟩, .code 2⟩
            else heard c (Probe.run w c t))⟩ := by
  obtain rfl := Target.eq_device_of_ofDevice h
  have hparse : Worker.parse (Worker.arguments pid (.device pattern)) =
      if ReadsAsOption pattern then .error .usage else .ok (.of pid (.device pattern)) :=
    Worker.parse_arguments pid (.device pattern)
  refine ⟨⟨?_, ?_⟩, ?_, fun w => jobs_eq (t := .device pattern) w h⟩
  · rintro ⟨a, ha, -⟩ ho
    rw [hparse, if_pos ho] at ha
    cases ha
  · intro ho
    rw [if_neg ho] at hparse
    exact ⟨_, hparse, rfl, h⟩
  · intro ho
    exact hparse.trans (if_pos ho)

theorem device_handed_over_veth :
    Target.ofDevice "veth*" = .ok (.device "veth*") ∧
      ∃ a, Worker.parse (Worker.arguments 101 (.device "veth*")) = .ok a ∧ a.pid = 101 ∧
        a.target = .ok (.device "veth*") := by
  have h : Target.ofDevice "veth*" = .ok (.device "veth*") := rfl
  exact ⟨h, (device_handed_over 101 h).1.mpr (by decide)⟩

/-- The target of a pattern that begins with a dash is taken and not handed over. -/
theorem dashed_device_lost :
    Target.ofDevice "-x" = .ok (.device "-x") ∧
      Worker.parse (Worker.arguments 101 (.device "-x")) = .error .usage := by
  exact ⟨rfl, (Worker.parse_arguments 101 (.device "-x")).trans (if_pos (by decide))⟩

end Command
end VethPeer
