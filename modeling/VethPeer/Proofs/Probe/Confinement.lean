import Mathlib
import VethPeer.Probe.Steps
import VethPeer.Proofs.Probe.Record
import VethPeer.Proofs.Probe.Report

/-! A worker step by step: it opens no socket before it has moved to its candidate's namespace, and
so nothing but that process can make a difference to it. -/
namespace VethPeer

variable {w w' : World} {pid candidate : UInt32} {t : Target} {q : Query} {s : Session}

namespace Session

theorem sentSince_append {s' : Session} (h : s.sent <:+ s'.sent) :
    s.sentSince s' ++ s.sent = s'.sent := by
  obtain ⟨new, hnew⟩ := h
  have hlen : s'.sent.length - s.sent.length = new.length := by
    rw [← hnew, List.length_append]
    omega
  rw [sentSince, hlen, ← hnew, List.take_left]

theorem sent_suffix_exchange (s : Session) (r : Wire.Request) (c : Collector) :
    s.sent <:+ (s.exchange r c).2.sent := by
  unfold exchange
  dsimp only
  cases s.sendFault s.nextSeq with
  | none => exact List.suffix_cons _ _
  | some errno => exact List.suffix_rfl

theorem sent_suffix_surveyLinks (s : Session) (q : Query) :
    s.sent <:+ (s.surveyLinks q).2.sent := by
  cases hi : q.index with
  | none =>
    simp only [surveyLinks, hi, links]
    exact sent_suffix_exchange s _ _
  | some index =>
    simp only [surveyLinks, hi, link?]
    exact sent_suffix_exchange s _ _

theorem sent_suffix_surveyAddresses (s : Session) (q : Query) :
    s.sent <:+ (s.surveyAddresses q).2.sent := by
  cases hl : q.isLinkOnly with
  | true =>
    simp only [surveyAddresses, hl]
    exact List.suffix_rfl
  | false =>
    simp only [surveyAddresses, hl, addresses]
    exact sent_suffix_exchange s _ _

end Session

namespace Probe

/-! ## The way in -/

theorem enter_of_not_opened {fault : Fault} (h : Handle.of w pid = .error fault) :
    w.enter pid = .error fault := by
  unfold Handle.of at h
  unfold World.enter
  cases hp : w.process? pid with
  | none =>
    rw [hp] at h
    cases h
    rfl
  | some p =>
    rw [hp] at h
    cases ho : p.openFault with
    | none => simp [ho] at h
    | some errno =>
      simp only [ho] at h
      cases h
      simp [ho]

/-- The way in, for a process whose namespace could be opened. -/
theorem enter_of_opened {handle : Handle} (h : Handle.of w pid = .ok handle) :
    match handle.enter with
    | .error fault => w.enter pid = .error fault
    | .ok side => side = .process pid ∧ ∃ e, w.enter pid = .ok e ∧ side.connect w = e.connect := by
  unfold Handle.of at h
  unfold World.enter
  cases hp : w.process? pid with
  | none => simp [hp] at h
  | some p =>
    cases ho : p.openFault with
    | some errno => simp [hp, ho] at h
    | none =>
      simp only [hp, ho, Except.ok.injEq] at h
      subst h
      cases he : p.enterFault with
      | some errno => simp [Handle.enter, ho, he]
      | none => simp [Handle.enter, Side.connect, hp, ho, he]

/-- Only the candidate's own side is used, and only if the worker could go there. -/
def Admits (w : World) (candidate : UInt32) (side : Side) : Prop :=
  side = .process candidate ∧ ∃ e, w.enter candidate = .ok e

/-- What a worker has in hand is its candidate's. -/
def Phase.Fits (w : World) (candidate : UInt32) (side : Side) : Phase → Prop
  | .enter _ handle => Handle.of w candidate = .ok handle
  | .connect _ => Admits w candidate side
  | .askLinks _ socket | .askAddresses _ socket _ => Admits w candidate socket.side
  | _ => True

namespace Process

structure Confined (w : World) (candidate : UInt32) (p : Process) : Prop where
  phase : p.phase.Fits w candidate p.side
  calls : ∀ call ∈ p.calls, ∀ side ∈ call.side?, Admits w candidate side

variable {p : Process}

theorem Confined.goOn (h : Confined w candidate p) {phase : Phase}
    (hp : phase.Fits w candidate p.side) : Confined w candidate (p.goOn phase) := ⟨hp, h.calls⟩

theorem Confined.log (h : Confined w candidate p) (call : Call)
    (hc : ∀ side ∈ call.side?, Admits w candidate side) : Confined w candidate (p.log call) := by
  refine ⟨h.phase, fun other ho => ?_⟩
  rcases List.mem_cons.mp ho with rfl | ho
  · exact hc
  · exact h.calls other ho

theorem Confined.logSent (h : Confined w candidate p) {socket : Socket}
    (hs : Admits w candidate socket.side) (session : Session) :
    Confined w candidate (p.logSent socket session) := by
  refine ⟨h.phase, fun call hc side hside => ?_⟩
  rcases List.mem_append.mp hc with hc | hc
  · obtain ⟨message, -, rfl⟩ := List.mem_map.mp hc
    obtain rfl := Option.some.inj hside
    exact hs
  · exact h.calls call hc side hside

theorem Confined.conclude (h : Confined w candidate p) (a : Option Answer) :
    Confined w candidate (p.conclude a) := by
  cases a with
  | none => exact h.goOn trivial
  | some a => exact h.goOn trivial

theorem Confined.stop (h : Confined w candidate p) (reason : Stop Fault) :
    Confined w candidate (p.stop reason) := h.conclude _

theorem Confined.step (h : Confined w candidate p) (t : Target) :
    Confined w candidate (p.step w candidate t) := by
  have hfits := h.phase
  unfold Process.step
  cases hp : p.phase with
  | readTarget =>
    cases t.query with
    | error failure => exact h.goOn trivial
    | ok q => exact h.goOn trivial
  | openNamespace q =>
    dsimp only
    have hlog := h.log (.openNamespace candidate) nofun
    cases ho : Handle.of w candidate with
    | error fault => exact hlog.stop _
    | ok handle => exact hlog.goOn ho
  | enter q handle =>
    dsimp only
    rw [hp] at hfits
    have hlog := h.log (.enterNamespace handle.pid) nofun
    have hway := enter_of_opened hfits
    cases he : handle.enter with
    | error fault => exact hlog.stop _
    | ok side =>
      rw [he] at hway
      obtain ⟨hside, e, hin, -⟩ := hway
      exact ⟨⟨hside, e, hin⟩, hlog.calls⟩
  | connect q =>
    dsimp only
    rw [hp] at hfits
    have hlog : Confined w candidate (p.log (.openSocket p.side)) :=
      h.log _ fun side hside => Option.some.inj hside ▸ hfits
    cases hc : p.side.connect w with
    | error fault => exact hlog.stop _
    | ok session => exact hlog.goOn hfits
  | askLinks q socket =>
    dsimp only
    rw [hp] at hfits
    have hlog := h.logSent hfits (socket.session.surveyLinks q).2
    cases ho : (socket.session.surveyLinks q).1 with
    | error fault => exact hlog.stop _
    | ok interfaces => exact hlog.goOn hfits
  | askAddresses q socket interfaces =>
    rw [hp] at hfits
    exact (h.logSent hfits (socket.session.surveyAddresses q).2).conclude _
  | report a => exact (h.log (.write a.record) nofun).goOn trivial
  | ended a => exact h

def messages (p : Process) : List Bytes := p.calls.filterMap Call.message?

def records (p : Process) : List Bytes := p.calls.filterMap Call.record?

theorem messages_logSent (p : Process) (socket : Socket) (session : Session) :
    (p.logSent socket session).messages = socket.session.sentSince session ++ p.messages := by
  simp [messages, logSent, Call.message?, Function.comp_def]

theorem records_logSent (p : Process) (socket : Socket) (session : Session) :
    (p.logSent socket session).records = p.records := by
  simp [records, logSent, Call.record?, Function.comp_def]

/-- The worker has written its answer down, if it has one, and sent these messages before. -/
structure Ended (a : Option Answer) (sent : List Bytes) (p : Process) : Prop where
  phase : p.phase = .ended a
  records : p.records = a.toList.map Answer.record
  messages : p.messages.reverse = sent

/-- After so many more steps the worker has ended so, and it stays there. -/
def ComesTo (n : ℕ) (w : World) (candidate : UInt32) (t : Target) (p : Process)
    (a : Option Answer) (sent : List Bytes) : Prop :=
  ∀ m, n ≤ m → Ended a sent ((step w candidate t)^[m] p)

variable {n : ℕ} {a : Option Answer} {sent : List Bytes} {e : Endpoint}

theorem after_eq_iterate (w : World) (candidate : UInt32) (t : Target) (n : ℕ) :
    after w candidate t n = (step w candidate t)^[n] {} := by
  induction n with
  | zero => rfl
  | succ n ih => rw [after, ih, Function.iterate_succ_apply']

theorem ComesTo.mono {k : ℕ} (h : ComesTo n w candidate t p a sent) (hk : n ≤ k) :
    ComesTo k w candidate t p a sent := fun m hm => h m (hk.trans hm)

theorem comesTo_of_step (h : ComesTo n w candidate t (p.step w candidate t) a sent) :
    ComesTo (n + 1) w candidate t p a sent := by
  intro m hm
  obtain ⟨k, rfl⟩ : ∃ k, m = k + 1 := ⟨m - 1, by omega⟩
  exact h k (by omega)

theorem comesTo_ended (h : Ended a sent p) : ComesTo 0 w candidate t p a sent := by
  have hfix : p.step w candidate t = p := by rw [step, h.phase]
  intro m _
  rwa [Function.iterate_fixed hfix]

theorem comesTo_report {a : Answer} (hp : p.phase = .report a) (hr : p.records = [])
    (hm : p.messages.reverse = sent) : ComesTo 1 w candidate t p (some a) sent := by
  apply comesTo_of_step
  apply comesTo_ended
  rw [step, hp]
  exact ⟨rfl, congrArg (a.record :: ·) hr, hm⟩

theorem comesTo_conclude (hr : p.records = []) (hm : p.messages.reverse = sent)
    (a : Option Answer) : ComesTo 1 w candidate t (p.conclude a) a sent := by
  cases a with
  | none =>
    have hended : Ended none sent (p.conclude none) := ⟨rfl, hr, hm⟩
    exact (comesTo_ended hended).mono (by omega)
  | some a => exact comesTo_report rfl hr hm

theorem comesTo_stop (hr : p.records = []) (hm : p.messages.reverse = sent)
    (reason : Stop Fault) :
    ComesTo 1 w candidate t (p.stop reason) (Answer.ofStop reason) sent :=
  comesTo_conclude hr hm _

theorem comesTo_askAddresses (socket : Socket) {interfaces : List Interface}
    (hp : p.phase = .askAddresses q socket interfaces) (hr : p.records = [])
    (hm : p.messages = socket.session.sent) :
    ComesTo 2 w candidate t p
      (answer q ((socket.session.surveyAddresses q).1.map fun assignments =>
        ⟨interfaces, assignments⟩))
      (socket.session.surveyAddresses q).2.sent.reverse := by
  apply comesTo_of_step
  rw [step, hp]
  have hsent := Session.sentSince_append (socket.session.sent_suffix_surveyAddresses q)
  refine comesTo_conclude ((records_logSent p socket _).trans hr) ?_ _
  exact congrArg List.reverse ((messages_logSent p socket _).trans (hm ▸ hsent))

theorem comesTo_askLinks (socket : Socket) (hp : p.phase = .askLinks q socket)
    (hr : p.records = []) (hm : p.messages = socket.session.sent) :
    ComesTo 3 w candidate t p (answer q (socket.session.survey q).1)
      (socket.session.survey q).2.sent.reverse := by
  apply comesTo_of_step
  rw [step, hp]
  have hsent := Session.sentSince_append (socket.session.sent_suffix_surveyLinks q)
  cases hl : socket.session.surveyLinks q with
  | mk outcome s =>
    rw [hl, ← hm, ← messages_logSent] at hsent
    have hr' : (p.logSent socket s).records = [] := (records_logSent p socket s).trans hr
    cases outcome with
    | error reason =>
      simp only [Session.survey, hl]
      exact (comesTo_stop hr' (congrArg List.reverse hsent) reason).mono (by omega)
    | ok interfaces =>
      simp only [Session.survey, hl]
      exact comesTo_askAddresses ⟨socket.side, s⟩ rfl hr' hsent

theorem comesTo_connect (hp : p.phase = .connect q) (hr : p.records = []) (hm : p.messages = [])
    (hc : p.side.connect w = e.connect) :
    ComesTo 4 w candidate t p (answer q (survey e q).1) (survey e q).2 := by
  apply comesTo_of_step
  rw [step, hp]
  cases hs : e.connect with
  | error fault =>
    simp only [hc, hs, survey]
    exact (comesTo_stop (p := p.log (.openSocket p.side)) hr (congrArg List.reverse hm) _).mono
      (by omega)
  | ok session =>
    have hnew : session.sent = [] := by
      unfold Endpoint.connect at hs
      split at hs
      · cases hs
      · cases hs
        rfl
    simp only [hc, hs, survey]
    exact comesTo_askLinks ⟨p.side, session⟩ rfl hr (hm.trans hnew.symm)

theorem comesTo_enter {handle : Handle} (ho : Handle.of w candidate = .ok handle)
    (hp : p.phase = .enter q handle) (hr : p.records = []) (hm : p.messages = [])
    (hq : t.query = .ok q) :
    ComesTo 5 w candidate t p (visit w candidate t).answer
      ((visit w candidate t).sent.getD []) := by
  apply comesTo_of_step
  rw [step, hp]
  have hway := enter_of_opened ho
  cases he : handle.enter with
  | error fault =>
    rw [he] at hway
    simp only [he, visit, hq, hway]
    exact (comesTo_stop (p := p.log (.enterNamespace handle.pid)) hr (congrArg List.reverse hm)
      _).mono (by omega)
  | ok side =>
    rw [he] at hway
    obtain ⟨-, e, hin, hc⟩ := hway
    simp only [he, visit, hq, hin]
    exact comesTo_connect rfl hr hm hc

theorem comesTo_openNamespace (hp : p.phase = .openNamespace q) (hr : p.records = [])
    (hm : p.messages = []) (hq : t.query = .ok q) :
    ComesTo 6 w candidate t p (visit w candidate t).answer
      ((visit w candidate t).sent.getD []) := by
  apply comesTo_of_step
  rw [step, hp]
  cases ho : Handle.of w candidate with
  | error fault =>
    simp only [visit, hq, enter_of_not_opened ho]
    exact (comesTo_stop (p := p.log (.openNamespace candidate)) hr (congrArg List.reverse hm)
      _).mono (by omega)
  | ok handle =>
    exact comesTo_enter ho rfl hr hm hq

/-- A worker comes to what its visit comes to. -/
theorem comesTo_visit (w : World) (candidate : UInt32) (t : Target) :
    ComesTo 7 w candidate t {} (visit w candidate t).answer
      ((visit w candidate t).sent.getD []) := by
  apply comesTo_of_step
  cases hq : t.query with
  | error failure =>
    simp only [step, visit, hq]
    exact (comesTo_report rfl rfl rfl).mono (by omega)
  | ok q =>
    simp only [step, hq]
    exact comesTo_openNamespace rfl rfl rfl hq

theorem ended_after (w : World) (candidate : UInt32) (t : Target) {m : ℕ} (hm : 7 ≤ m) :
    Ended ((run w candidate t).map (·.answer)) ((visit w candidate t).sent.getD [])
      (after w candidate t m) := by
  have hanswer : (run w candidate t).map (·.answer) = (visit w candidate t).answer := by
    rw [run, Option.map_map]
    exact Option.map_id'
  rw [hanswer, after_eq_iterate]
  exact comesTo_visit w candidate t m hm

theorem ended_worked (w : World) (candidate : UInt32) (t : Target) :
    Ended ((run w candidate t).map (·.answer)) ((visit w candidate t).sent.getD [])
      (worked w candidate t) :=
  ended_after w candidate t le_rfl

end Process
end Probe
end VethPeer
