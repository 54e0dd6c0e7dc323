import Mathlib
import VethPeer.Proofs.Probe.Confinement
import VethPeer.Proofs.Session.Troubles

/-! What a worker reports of what went wrong, told by where it went wrong. -/
namespace VethPeer

open Wire

variable {w : World} {candidate : UInt32} {e : Endpoint} {q : Query} {t : Target} {s : Session}
  {errno : Errno} {trouble : Trouble} {course : Option Trouble}

theorem Errno.isPermission_iff (errno : Errno) :
    errno.isPermission = true ↔ errno = 1 ∨ errno = 13 :=
  decide_eq_true_iff

namespace Trouble

/-- Permission is lacking if the error number is 1 or 13, which the kernel sends with its sign
changed. Nothing is reported of a number that has no negative. -/
def cause? : Trouble → Option Cause
  | .entry errno => some (if errno = 1 ∨ errno = 13 then .permission else .entry)
  | .system errno => some (if errno = 1 ∨ errno = 13 then .permission else .netlink)
  | .refusal code => some (if code = -1 ∨ code = -13 then .permission else .netlink)
  | .pattern | .reply => some .netlink
  | .overflow => none

/-- A worker reports a fault by the trouble that it means. -/
theorem cause?_ofFault (fault : Fault) : (ofFault fault).cause? = some (Cause.ofFault fault) := by
  cases fault with
  | io errno | entry path errno =>
    simp only [Cause.ofFault, Fault.isPermission, Fault.isEntry, Errno.isPermission_iff, ofFault,
      cause?, if_true, Bool.false_eq_true, if_false]
  | kernel errno | refused operation errno =>
    simp only [Cause.ofFault, Fault.isPermission, Fault.isEntry, Errno.isPermission_iff, ofFault,
      cause?, Bool.false_eq_true, if_false, Int32.neg_inj]
  | _ => rfl

theorem cause?_ofStop (why : Stop Fault) :
    (Answer.ofStop why).map Answer.cause? = (ofStop why).cause?.map some := by
  cases why with
  | fault fault =>
    rw [ofStop, cause?_ofFault]
    rfl
  | overflow => rfl

theorem cause?_ne_worker (trouble : Trouble) : trouble.cause? ≠ some .worker := by
  unfold cause?
  split <;> first | split_ifs <;> exact nofun | exact nofun

theorem cause?_eq_entry (h : trouble.cause? = some .entry) : ∃ errno, trouble = .entry errno := by
  cases trouble with
  | entry errno => exact ⟨errno, rfl⟩
  | system errno | refusal code =>
    simp only [cause?] at h
    split_ifs at h <;> cases h
  | pattern | reply | overflow => cases h

theorem cause?_eq_none_iff : trouble.cause? = none ↔ trouble = .overflow := by
  cases trouble <;> simp [cause?]

end Trouble

/-- The cause that is on record after such a course, if a record is written. -/
def recorded : Option Trouble → Option (Option Cause)
  | none => some none
  | some trouble => trouble.cause?.map some

theorem recorded_eq_none_iff : recorded course = none ↔ course = some .overflow := by
  cases course with
  | none => simp [recorded]
  | some trouble => simp [recorded, Trouble.cause?_eq_none_iff]

theorem recorded_eq_cause {cause : Cause} (h : recorded course = some (some cause)) :
    ∃ trouble, course = some trouble ∧ trouble.cause? = some cause := by
  cases course with
  | none => cases h
  | some trouble => exact ⟨trouble, rfl, by simpa [recorded] using h⟩

theorem recorded_eq_no_cause (h : recorded course = some none) : course = none := by
  cases course with
  | none => rfl
  | some trouble => simp [recorded] at h

/-- A device pattern is a glob. -/
def Target.Sound : Target → Prop
  | .address _ => True
  | .device text => ∃ glob, Glob.parse text = .ok glob

/-- How it goes to ask for a table: the request may not even be sent. -/
inductive Fetched {α : Type} (decode : Bytes → Except Fault α) (sendFault : UInt32 → Option Errno)
    (seq : UInt32) (ds : List Delivery) : Option Trouble → Prop
  | unsent {errno : Errno} (fails : sendFault seq = some errno) :
      Fetched decode sendFault seq ds (some (.system errno))
  | sent {course : Option Trouble} (sends : sendFault seq = none)
      (dumped : Dumped decode seq ds course) : Fetched decode sendFault seq ds course

section

variable {α : Type} {decode : Bytes → Except Fault α} {sendFault : UInt32 → Option Errno}
  {seq : UInt32} {ds : List Delivery}

theorem exists_fetched (decode : Bytes → Except Fault α) (sendFault : UInt32 → Option Errno)
    (seq : UInt32) (ds : List Delivery) : ∃ course, Fetched decode sendFault seq ds course := by
  cases sends : sendFault seq with
  | some errno => exact ⟨_, .unsent sends⟩
  | none =>
    obtain ⟨course, dumped⟩ := exists_dumped decode seq ds
    exact ⟨course, .sent sends dumped⟩

theorem Fetched.ne_entry (h : Fetched decode sendFault seq ds course) (errno : Errno) :
    course ≠ some (.entry errno) := by
  cases h with
  | unsent => exact nofun
  | sent sends dumped => exact dumped.ne_entry errno

theorem Fetched.sends_of_none (h : Fetched decode sendFault seq ds none) : sendFault seq = none := by
  cases h with
  | sent sends dumped => exact sends

end

namespace Session

variable {family : UInt8} {index : UInt32}

theorem trouble_links (h : Fetched LinkEntry.decode s.sendFault s.nextSeq s.deliveries course) :
    Trouble.of? s.links.1 = course := by
  cases h with
  | unsent fails =>
    simp [links, dump, exchange, fails, decodeAll, Trouble.of?, Trouble.ofStop, Trouble.ofFault,
      bind, Except.bind]
  | sent sends dumped =>
    have hr : ∀ b fault, LinkEntry.decode b = .error fault → fault.isOfReply = true :=
      fun _ _ => Cursor.isOfReply_of_record
    have hd := dumped.trouble_eq hr "link dump"
    simpa [links, dump, exchange, sends] using hd

theorem trouble_addresses
    (h : Fetched AddressEntry.decode s.sendFault s.nextSeq s.deliveries course) :
    Trouble.of? (s.addresses family index).1 = course := by
  cases h with
  | unsent fails =>
    simp [addresses, dump, exchange, fails, decodeAll, Trouble.of?, Trouble.ofStop,
      Trouble.ofFault, bind, Except.bind]
  | sent sends dumped =>
    have hr : ∀ b fault, AddressEntry.decode b = .error fault → fault.isOfReply = true :=
      fun _ _ => Cursor.isOfReply_of_record
    have hd := dumped.trouble_eq hr "address dump"
    simpa [addresses, dump, exchange, sends] using hd

/-- The second request has the next number, and what the first left unread. -/
theorem after_links (hs : s.sendFault s.nextSeq = none) :
    s.links.2.sendFault = s.sendFault ∧ s.links.2.nextSeq = s.nextSeq + 1 ∧
      s.links.2.deliveries = unread s.nextSeq s.deliveries := by
  simp [links, dump, exchange, hs, collect_unread]

/-- Trouble with the links keeps a survey from anything else. -/
theorem survey_of_link_trouble (hi : q.index = none) (h : Trouble.of? s.links.1 = some trouble) :
    Trouble.of? (s.survey q).1 = some trouble := by
  cases hl : s.links with
  | mk outcome s' =>
    rw [hl] at h
    cases outcome with
    | error why => simpa [survey, surveyLinks, hi, hl, Except.map, Trouble.of?] using h
    | ok links => cases h

theorem survey_of_links_only (hi : q.index = none) (hq : q.isLinkOnly = true)
    (h : Trouble.of? s.links.1 = none) : Trouble.of? (s.survey q).1 = none := by
  cases hl : s.links with
  | mk outcome s' =>
    rw [hl] at h
    cases outcome with
    | error why => cases h
    | ok links => simp [survey, surveyLinks, hi, hl, surveyAddresses, hq, Except.map, Trouble.of?]

theorem survey_of_no_link_trouble (hi : q.index = none) (hq : q.isLinkOnly = false)
    (h : Trouble.of? s.links.1 = none) :
    Trouble.of? (s.survey q).1 = Trouble.of? (s.links.2.addresses q.family.code 0).1 := by
  cases hl : s.links with
  | mk outcome s' =>
    rw [hl] at h
    cases outcome with
    | error why => cases h
    | ok links =>
      cases ha : (s'.addresses q.family.code 0).1 <;>
        simp [survey, surveyLinks, hi, hl, surveyAddresses, hq, ha, Except.map, Trouble.of?]

end Session

namespace Probe

/-- The way to the candidate's namespace fails so. -/
inductive NotEntered (w : World) (candidate : UInt32) : Errno → Prop
  | missing (none : w.process? candidate = none) : NotEntered w candidate 2
  | closed {p : ProcessEntry} {errno : Errno} (there : w.process? candidate = some p)
      (fails : p.openFault = some errno) : NotEntered w candidate errno
  | barred {p : ProcessEntry} {errno : Errno} (there : w.process? candidate = some p)
      (opens : p.openFault = none) (fails : p.enterFault = some errno) :
      NotEntered w candidate errno

/-- The worker gets to the sockets of its candidate. -/
def Entered (w : World) (candidate : UInt32) (e : Endpoint) : Prop :=
  ∃ p, w.process? candidate = some p ∧ p.openFault = none ∧ p.enterFault = none ∧ p.endpoint = e

/-- Opening a socket or binding it fails so. -/
inductive Unusable (e : Endpoint) : Errno → Prop
  | unopened {errno : Errno} (fails : e.openFault = some errno) : Unusable e errno
  | unbound {errno : Errno} (opens : e.openFault = none) (fails : e.bindFault = some errno) :
      Unusable e errno

structure Usable (e : Endpoint) : Prop where
  opens : e.openFault = none
  binds : e.bindFault = none

/-- The first request of a worker is for the links. -/
abbrev LinksFetched (e : Endpoint) : Option Trouble → Prop :=
  Fetched LinkEntry.decode e.sendFault 1 e.deliveries

/-- The second request is for the addresses. -/
abbrev AddressesFetched (e : Endpoint) : Option Trouble → Prop :=
  Fetched AddressEntry.decode e.sendFault 2 (unread 1 e.deliveries)

/-- How a worker fares up to its report: what trouble it meets, or that it meets none. -/
inductive Course (w : World) (candidate : UInt32) : Target → Option Trouble → Prop
  | pattern {text : String} {fault : Glob.Fault} (fails : Glob.parse text = .error fault) :
      Course w candidate (.device text) (some .pattern)
  | entry {t : Target} {errno : Errno} (sound : t.Sound) (fails : NotEntered w candidate errno) :
      Course w candidate t (some (.entry errno))
  | socket {t : Target} {e : Endpoint} {errno : Errno} (sound : t.Sound)
      (enters : Entered w candidate e) (fails : Unusable e errno) :
      Course w candidate t (some (.system errno))
  | links {t : Target} {e : Endpoint} {trouble : Trouble} (sound : t.Sound)
      (enters : Entered w candidate e) (works : Usable e)
      (fails : LinksFetched e (some trouble)) : Course w candidate t (some trouble)
  | device {text : String} {e : Endpoint} (sound : (Target.device text).Sound)
      (enters : Entered w candidate e) (works : Usable e) (links : LinksFetched e none) :
      Course w candidate (.device text) none
  | address {a : Ip} {e : Endpoint} {course : Option Trouble} (enters : Entered w candidate e)
      (works : Usable e) (links : LinksFetched e none) (addresses : AddressesFetched e course) :
      Course w candidate (.address a) course

theorem enter_of_notEntered (h : NotEntered w candidate errno) :
    w.enter candidate = .error (.entry (World.namespacePath candidate) errno) := by
  cases h with
  | missing none => simp [World.enter, none, Errno.noEntry]
  | closed there fails => simp [World.enter, there, fails]
  | barred there opens fails => simp [World.enter, there, opens, fails]

theorem enter_of_entered (h : Entered w candidate e) : w.enter candidate = .ok e := by
  obtain ⟨p, there, opens, enters, rfl⟩ := h
  simp [World.enter, there, opens, enters]

theorem entered_or_notEntered (w : World) (candidate : UInt32) :
    (∃ e, Entered w candidate e) ∨ ∃ errno, NotEntered w candidate errno := by
  cases there : w.process? candidate with
  | none => exact .inr ⟨2, .missing there⟩
  | some p =>
    cases opens : p.openFault with
    | some errno => exact .inr ⟨errno, .closed there opens⟩
    | none =>
      cases enters : p.enterFault with
      | some errno => exact .inr ⟨errno, .barred there opens enters⟩
      | none => exact .inl ⟨p.endpoint, p, there, opens, enters, rfl⟩

theorem usable_or_unusable (e : Endpoint) : Usable e ∨ ∃ errno, Unusable e errno := by
  cases opens : e.openFault with
  | some errno => exact .inr ⟨errno, .unopened opens⟩
  | none =>
    cases binds : e.bindFault with
    | some errno => exact .inr ⟨errno, .unbound opens binds⟩
    | none => exact .inl ⟨opens, binds⟩

theorem query_of_sound (h : t.Sound) : ∃ q, t.query = .ok q ∧ q.index = none := by
  cases t with
  | address a => exact ⟨_, rfl, rfl⟩
  | device text =>
    obtain ⟨glob, hg⟩ := h
    exact ⟨_, Query.ofDevice_eq hg, rfl⟩

theorem survey_of_unusable (q : Query) (h : Unusable e errno) :
    Trouble.of? (survey e q).1 = some (.system errno) := by
  cases h with
  | unopened fails =>
    simp [survey, Endpoint.connect, fails, Trouble.of?, Trouble.ofStop, Trouble.ofFault]
  | unbound opens fails =>
    simp [survey, Endpoint.connect, opens, fails, Trouble.of?, Trouble.ofStop, Trouble.ofFault]

theorem survey_of_link_dump (hi : q.index = none) (works : Usable e)
    (h : LinksFetched e (some trouble)) : Trouble.of? (survey e q).1 = some trouble := by
  obtain ⟨s, hconnect, hseq, hs, hd⟩ := connect_of_opens works.opens works.binds
  rw [LinksFetched, ← hseq, ← hs, ← hd] at h
  rw [survey, hconnect]
  exact Session.survey_of_link_trouble hi (Session.trouble_links h)

theorem survey_of_device_dump (hi : q.index = none) (hq : q.isLinkOnly = true) (works : Usable e)
    (h : LinksFetched e none) : Trouble.of? (survey e q).1 = none := by
  obtain ⟨s, hconnect, hseq, hs, hd⟩ := connect_of_opens works.opens works.binds
  rw [LinksFetched, ← hseq, ← hs, ← hd] at h
  rw [survey, hconnect]
  exact Session.survey_of_links_only hi hq (Session.trouble_links h)

theorem survey_of_address_dump (hi : q.index = none) (hq : q.isLinkOnly = false)
    (works : Usable e) (h : LinksFetched e none) (h' : AddressesFetched e course) :
    Trouble.of? (survey e q).1 = course := by
  obtain ⟨s, hconnect, hseq, hs, hd⟩ := connect_of_opens works.opens works.binds
  rw [LinksFetched, ← hseq, ← hs, ← hd] at h
  obtain ⟨hs', hseq', hd'⟩ := Session.after_links h.sends_of_none
  have hnext : (2 : UInt32) = s.links.2.nextSeq := by
    rw [hseq', hseq]
    rfl
  rw [AddressesFetched, hnext, ← hs, ← hs', ← hseq, ← hd, ← hd'] at h'
  rw [survey, hconnect]
  exact (Session.survey_of_no_link_trouble hi hq (Session.trouble_links h)).trans
    (Session.trouble_addresses h')

theorem cause?_answer (q : Query) (outcome : Except (Stop Fault) Inventory) :
    (answer q outcome).map Answer.cause? = recorded (Trouble.of? outcome) := by
  cases outcome with
  | error why => exact Trouble.cause?_ofStop why
  | ok inventory =>
    unfold answer
    dsimp only
    cases inventory.locate q <;> rfl

theorem visit_of_entered (hq : t.query = .ok q) (h : Entered w candidate e) :
    (visit w candidate t).answer = answer q (survey e q).1 := by
  simp [visit, hq, enter_of_entered h]

/-- A worker reports how it fared. -/
theorem Course.cause?_eq (h : Course w candidate t course) :
    (visit w candidate t).answer.map Answer.cause? = recorded course := by
  cases h with
  | pattern fails =>
    simp [visit, Target.query, Query.ofDevice, Query.withName, fails, Answer.cause?, recorded,
      Trouble.cause?]
  | @entry t errno sound fails =>
    obtain ⟨q, hq, -⟩ := query_of_sound sound
    have hcause := Trouble.cause?_ofFault (.entry (World.namespacePath candidate) errno)
    simp only [visit, hq, enter_of_notEntered fails]
    exact congrArg (Option.map some) hcause.symm
  | socket sound enters fails =>
    obtain ⟨q, hq, hi⟩ := query_of_sound sound
    rw [visit_of_entered hq enters, cause?_answer, survey_of_unusable q fails]
  | links sound enters works fails =>
    obtain ⟨q, hq, hi⟩ := query_of_sound sound
    rw [visit_of_entered hq enters, cause?_answer, survey_of_link_dump hi works fails]
  | @device text e sound enters works links =>
    obtain ⟨glob, hg⟩ := sound
    rw [visit_of_entered (t := .device text) (Query.ofDevice_eq hg) enters, cause?_answer,
      survey_of_device_dump rfl rfl works links]
  | @address a e course enters works links addresses =>
    rw [visit_of_entered (t := .address a) rfl enters, cause?_answer,
      survey_of_address_dump rfl (Query.ofAddress_isLinkOnly a) works links addresses]

/-- Every worker fares somehow. -/
theorem exists_course (w : World) (candidate : UInt32) (t : Target) :
    ∃ course, Course w candidate t course := by
  by_cases sound : t.Sound
  · rcases entered_or_notEntered w candidate with ⟨e, enters⟩ | ⟨errno, fails⟩
    · rcases usable_or_unusable e with works | ⟨errno, fails⟩
      · obtain ⟨course, links⟩ := exists_fetched LinkEntry.decode e.sendFault 1 e.deliveries
        cases course with
        | some trouble => exact ⟨_, .links sound enters works links⟩
        | none =>
          cases t with
          | address a =>
            obtain ⟨course, addresses⟩ :=
              exists_fetched AddressEntry.decode e.sendFault 2 (unread 1 e.deliveries)
            exact ⟨_, .address enters works links addresses⟩
          | device text => exact ⟨_, .device sound enters works links⟩
      · exact ⟨_, .socket sound enters fails⟩
    · exact ⟨_, .entry sound fails⟩
  · cases t with
    | address a => exact (sound trivial).elim
    | device text =>
      cases parsed : Glob.parse text with
      | ok glob => exact (sound ⟨glob, parsed⟩).elim
      | error fault => exact ⟨_, .pattern parsed⟩

theorem Course.notEntered (h : Course w candidate t (some (.entry errno))) :
    NotEntered w candidate errno := by
  cases h with
  | entry sound fails => exact fails
  | links sound enters works fails => exact (fails.ne_entry errno rfl).elim
  | address enters works links addresses => exact (addresses.ne_entry errno rfl).elim

/-- Only what was entered and fetched to the end is reported without a cause. -/
theorem course_none_iff :
    Course w candidate t none ↔ t.Sound ∧ ∃ e, Entered w candidate e ∧ Usable e ∧
      LinksFetched e none ∧ ∀ a, t = .address a → AddressesFetched e none := by
  constructor
  · intro h
    cases h with
    | device sound enters works links => exact ⟨sound, _, enters, works, links, nofun⟩
    | address enters works links addresses =>
      exact ⟨trivial, _, enters, works, links, fun _ _ => addresses⟩
  · rintro ⟨sound, e, enters, works, links, addresses⟩
    cases t with
    | address a => exact .address enters works links (addresses a rfl)
    | device text => exact .device sound enters works links

theorem getLast?_record (a : Answer) : a.record.getLast? = some (a.cause?.elim 0 Cause.code) := by
  rw [Answer.record, List.getLast?_concat]
  cases a.cause? <;> rfl

theorem Course.recorded_eq (h : Course w candidate t course) :
    (run w candidate t).map (·.answer.cause?) = recorded course := by
  rw [run, Option.map_map, ← h.cause?_eq]
  rfl

theorem Course.cause?_of_mem (h : Course w candidate t course) {finding : Finding}
    (hf : finding ∈ run w candidate t) : recorded course = some finding.answer.cause? := by
  rw [← h.recorded_eq, Option.mem_def.mp hf]
  rfl

/-- A worker writes one record of six bytes, and in it the cause of the trouble that it met. The
cause is never the worker itself, and it is the namespace only if that could not be entered. There
is none exactly if the dumps that are needed were complete and could be decoded. But a worker whose
kernel refuses one of these dumps with the lowest code of all breaks off, and writes nothing. -/
theorem report_of_course (w : World) (candidate : UInt32) (t : Target) :
    (∀ m, 7 ≤ m → (Process.after w candidate t m).records =
      (run w candidate t).toList.map Finding.record) ∧
      (∃ course, Course w candidate t course) ∧
      (run w candidate t = none ↔ Course w candidate t (some .overflow)) ∧
      (∀ course, Course w candidate t course →
        (run w candidate t).map (·.answer.cause?) = recorded course ∧
        (run w candidate t).map (·.record.getLast?) =
          (recorded course).map fun cause => some (cause.elim 0 Cause.code)) ∧
      (∀ finding ∈ run w candidate t, finding.record.length = 6 ∧
        finding.answer.cause? ≠ some .worker ∧
        (finding.answer.cause? = some .entry → ∃ errno, NotEntered w candidate errno)) ∧
      ((∃ finding ∈ run w candidate t, finding.answer.cause? = none) ↔
        t.Sound ∧ ∃ e, Entered w candidate e ∧ Usable e ∧ LinksFetched e none ∧
          ∀ a, t = .address a → AddressesFetched e none) := by
  obtain ⟨course, hcourse⟩ := exists_course w candidate t
  refine ⟨fun m hm => ?_, ⟨course, hcourse⟩, ?_, fun other hother => ⟨hother.recorded_eq, ?_⟩,
    fun finding hf => ⟨Answer.length_record _, ?_, ?_⟩, ?_⟩
  · rw [(Process.ended_after w candidate t hm).records]
    cases run w candidate t <;> rfl
  · have hnone (h : Course w candidate t course) :
        run w candidate t = none ↔ course = some .overflow := by
      rw [← recorded_eq_none_iff, ← h.recorded_eq, Option.map_eq_none_iff]
    constructor
    · intro h
      rwa [(hnone hcourse).mp h] at hcourse
    · intro h
      rw [← Option.map_eq_none_iff, h.recorded_eq, recorded_eq_none_iff]
  · rw [← hother.recorded_eq, Option.map_map]
    exact congrArg (fun f => Option.map f _) (funext fun finding => getLast?_record finding.answer)
  · intro h
    obtain ⟨trouble, -, hworker⟩ := recorded_eq_cause (h ▸ hcourse.cause?_of_mem hf)
    exact trouble.cause?_ne_worker hworker
  · intro h
    obtain ⟨trouble, rfl, hentry⟩ := recorded_eq_cause (h ▸ hcourse.cause?_of_mem hf)
    obtain ⟨errno, rfl⟩ := Trouble.cause?_eq_entry hentry
    exact ⟨errno, hcourse.notEntered⟩
  · rw [← course_none_iff]
    constructor
    · rintro ⟨finding, hf, h⟩
      obtain rfl : course = none := recorded_eq_no_cause (h ▸ hcourse.cause?_of_mem hf)
      exact hcourse
    · intro h
      obtain ⟨finding, hf, hcause⟩ := Option.map_eq_some_iff.mp h.recorded_eq
      exact ⟨finding, hf, hcause⟩

/-- The end of a dump of no links, and a refusal of the dump of the addresses. -/
def linksEnd : Frame := ⟨⟨16, Kind.done, 0x2, 1, 0⟩, []⟩

def addressesRefused : Frame :=
  ⟨⟨36, Kind.error, 0, 2, 0⟩, [0xF3, 0xFF, 0xFF, 0xFF] ++ List.replicate 16 0⟩

def refusingWorld : World where
  processes := [{ pid := 42, endpoint :=
    { deliveries := [Session.datagramOf [linksEnd], Session.datagramOf [addressesRefused]] } }]

/-- Only the second request cannot be sent. -/
def mutedWorld : World where
  processes := [{ pid := 42, endpoint :=
    { deliveries := [Session.datagramOf [linksEnd]]
      sendFault := fun seq => if seq = 2 then some .notPermitted else none } }]

theorem settled_linksEnd (later : List Delivery) :
    Settled 1 (Session.datagramOf [linksEnd] :: later) [] (.message linksEnd) := by
  have hbrings : Brings [Session.datagramOf [linksEnd]] [linksEnd] :=
    Session.brings_datagramOf (by decide) (by decide) (by decide)
  exact ⟨⟨_, Item.ofDeliveries_brings_append hbrings later⟩, List.forall_mem_nil _⟩

theorem unread_linksEnd (later : List Delivery) :
    unread 1 (Session.datagramOf [linksEnd] :: later) = later := by
  have hitems : (Session.datagramOf [linksEnd]).items = [.message linksEnd] := by
    rw [Session.datagramOf, Delivery.items, Item.ofDatagram,
      split_received (by decide) (by decide)]
    rfl
  rw [unread, hitems]
  rfl

theorem dumped_linksEnd (later : List Delivery) :
    Dumped LinkEntry.decode 1 (Session.datagramOf [linksEnd] :: later) none :=
  .complete (settled_linksEnd later) rfl (by decide) (List.forall_mem_nil _)

theorem report_of_course_refusingWorld :
    Course refusingWorld 42 (.address (.v4 0x0A000002)) (some (.refusal (-13))) ∧
      (run refusingWorld 42 (.address (.v4 0x0A000002))).map (·.record.getLast?) = some (some 3) ∧
      Course mutedWorld 42 (.address (.v4 0x0A000002)) (some (.system 1)) ∧
      (run mutedWorld 42 (.address (.v4 0x0A000002))).map (·.record.getLast?) = some (some 3) ∧
      (run mutedWorld 42 .default).map (·.answer.cause?) = some none := by
  have second : Brings [Session.datagramOf [addressesRefused]] [addressesRefused] :=
    Session.brings_datagramOf (by decide) (by decide) (by decide)
  have addressesSettled : Settled 2 [Session.datagramOf [addressesRefused]] []
      (.message addressesRefused) :=
    ⟨⟨_, Item.ofDeliveries_brings_append second []⟩, List.forall_mem_nil _⟩
  have refused : Course refusingWorld 42 (.address (.v4 0x0A000002)) (some (.refusal (-13))) := by
    refine .address ⟨_, rfl, rfl, rfl, rfl⟩ ⟨rfl, rfl⟩ (.sent rfl (dumped_linksEnd _))
      (.sent rfl ?_)
    rw [unread_linksEnd]
    exact .troubled addressesSettled (by decide)
  have muted : Course mutedWorld 42 (.address (.v4 0x0A000002)) (some (.system 1)) :=
    .address ⟨_, rfl, rfl, rfl, rfl⟩ ⟨rfl, rfl⟩ (.sent rfl (dumped_linksEnd _)) (.unsent rfl)
  have unhindered : Course mutedWorld 42 .default none :=
    .device ⟨_, rfl⟩ ⟨_, rfl, rfl, rfl, rfl⟩ ⟨rfl, rfl⟩ (.sent rfl (dumped_linksEnd _))
  obtain ⟨-, -, -, hrefusing, -⟩ := report_of_course refusingWorld 42 (.address (.v4 0x0A000002))
  obtain ⟨-, -, -, hmuted, -⟩ := report_of_course mutedWorld 42 (.address (.v4 0x0A000002))
  obtain ⟨-, -, -, hdevice, -⟩ := report_of_course mutedWorld 42 .default
  exact ⟨refused, (hrefusing _ refused).2, muted, (hmuted _ muted).2, (hdevice _ unhindered).1⟩

def overflowingWorld : World where
  processes := [{
    pid := 42
    endpoint := { deliveries := [Session.datagramOf [Session.lowestRefusal]] } }]

/-- A worker is over and has written nothing when the kernel refuses the dump of the links with the
lowest code. -/
theorem lowest_code_unreported :
    Entered overflowingWorld 42 { deliveries := [Session.datagramOf [Session.lowestRefusal]] } ∧
      run overflowingWorld 42 .default = none ∧
      (worked overflowingWorld 42 .default).phase = .ended none ∧
      (worked overflowingWorld 42 .default).records = [] := by
  have brings : Brings [Session.datagramOf [Session.lowestRefusal]] [Session.lowestRefusal] :=
    Session.brings_datagramOf (by decide) (by decide) (by decide)
  have settled : Settled 1 [Session.datagramOf [Session.lowestRefusal]] []
      (.message Session.lowestRefusal) :=
    ⟨⟨_, Item.ofDeliveries_brings_append brings []⟩, List.forall_mem_nil _⟩
  have enters : Entered overflowingWorld 42
      { deliveries := [Session.datagramOf [Session.lowestRefusal]] } := ⟨_, rfl, rfl, rfl, rfl⟩
  have course : Course overflowingWorld 42 .default (some .overflow) :=
    .links ⟨_, rfl⟩ enters ⟨rfl, rfl⟩ (.sent rfl (.troubled settled (by decide)))
  have hrun : run overflowingWorld 42 .default = none := by
    rw [← Option.map_eq_none_iff, course.recorded_eq]
    rfl
  have hended := Process.ended_worked overflowingWorld 42 .default
  rw [hrun] at hended
  exact ⟨enters, hrun, hended.phase, hended.records⟩

end Probe
end VethPeer
