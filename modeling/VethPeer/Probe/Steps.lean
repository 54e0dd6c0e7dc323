import VethPeer.Probe.Basic

/-! A worker as a process: what it asks the system for, one step after the other. -/
namespace VethPeer

/-- What the second session has sent beyond the first, the last message first. -/
def Session.sentSince (s s' : Session) : List Bytes :=
  s'.sent.take (s'.sent.length - s.sent.length)

namespace Probe

/-- Where a process is: where it was started, or in the namespace of another process. -/
inductive Side
  | host
  | process (pid : UInt32)
  deriving DecidableEq, Repr

/-- Opening a socket gives one of the side that the process is on. -/
def Side.connect (w : World) : Side → Except Fault Session
  | .host => w.host.connect
  | .process pid =>
    match w.process? pid with
    | some p => p.endpoint.connect
    | none => .error (.entry (World.namespacePath pid) .noEntry)

/-- The namespace of a process, opened. -/
structure Handle where
  pid : UInt32
  enterFault : Option Errno

def Handle.of (w : World) (pid : UInt32) : Except Fault Handle :=
  match w.process? pid with
  | none => .error (.entry (World.namespacePath pid) .noEntry)
  | some p =>
    match p.openFault with
    | some errno => .error (.entry (World.namespacePath pid) errno)
    | none => .ok ⟨pid, p.enterFault⟩

/-- The side where the process is after that. -/
def Handle.enter (h : Handle) : Except Fault Side :=
  match h.enterFault with
  | some errno => .error (.entry (World.namespacePath h.pid) errno)
  | none => .ok (.process h.pid)

/-- A socket stays on the side that it was opened on. -/
structure Socket where
  side : Side
  session : Session

/-- What a worker asks the system for. -/
inductive Call
  | openNamespace (pid : UInt32)
  | enterNamespace (pid : UInt32)
  | openSocket (side : Side)
  | send (side : Side) (message : Bytes)
  | write (record : Bytes)
  deriving DecidableEq, Repr

/-- The side of the socket that a call is about. -/
def Call.side? : Call → Option Side
  | .openSocket side | .send side _ => some side
  | _ => none

def Call.message? : Call → Option Bytes
  | .send _ message => some message
  | _ => none

def Call.record? : Call → Option Bytes
  | .write record => some record
  | _ => none

/-- What a worker does next. -/
inductive Phase
  | readTarget
  | openNamespace (q : Query)
  | enter (q : Query) (handle : Handle)
  | connect (q : Query)
  | askLinks (q : Query) (socket : Socket)
  | askAddresses (q : Query) (socket : Socket) (interfaces : List Interface)
  | report (answer : Answer)
  /-- Without an answer it broke off. -/
  | ended (answer : Option Answer)

/-- A worker while it works, with all that it asked for, the latest first. -/
structure Process where
  side : Side := .host
  phase : Phase := .readTarget
  calls : List Call := []

namespace Process

def goOn (p : Process) (phase : Phase) : Process := { p with phase }

/-- Without an answer there is nothing to report. -/
def conclude (p : Process) : Option Answer → Process
  | some answer => p.goOn (.report answer)
  | none => p.goOn (.ended none)

def stop (p : Process) (stop : Stop Fault) : Process := p.conclude (Answer.ofStop stop)

def log (p : Process) (call : Call) : Process := { p with calls := call :: p.calls }

/-- Notes what was sent until the session came to be this. -/
def logSent (p : Process) (socket : Socket) (s : Session) : Process :=
  { p with calls := (socket.session.sentSince s).map (.send socket.side) ++ p.calls }

def step (w : World) (candidate : UInt32) (t : Target) (p : Process) : Process :=
  match p.phase with
  | .readTarget =>
    match t.query with
    | .error _ => p.goOn (.report (.failed .netlink))
    | .ok q => p.goOn (.openNamespace q)
  | .openNamespace q =>
    let asked := p.log (.openNamespace candidate)
    match Handle.of w candidate with
    | .error fault => asked.stop (.fault fault)
    | .ok handle => asked.goOn (.enter q handle)
  | .enter q handle =>
    let asked := p.log (.enterNamespace handle.pid)
    match handle.enter with
    | .error fault => asked.stop (.fault fault)
    | .ok side => { asked with side, phase := .connect q }
  | .connect q =>
    let asked := p.log (.openSocket p.side)
    match p.side.connect w with
    | .error fault => asked.stop (.fault fault)
    | .ok session => asked.goOn (.askLinks q ⟨p.side, session⟩)
  | .askLinks q socket =>
    let (outcome, session) := socket.session.surveyLinks q
    let asked := p.logSent socket session
    match outcome with
    | .error stop => asked.stop stop
    | .ok interfaces => asked.goOn (.askAddresses q ⟨socket.side, session⟩ interfaces)
  | .askAddresses q socket interfaces =>
    let (outcome, session) := socket.session.surveyAddresses q
    (p.logSent socket session).conclude
      (answer q (outcome.map fun assignments => ⟨interfaces, assignments⟩))
  | .report a => (p.log (.write a.record)).goOn (.ended (some a))
  | .ended _ => p

/-- A worker after so many steps. -/
def after (w : World) (candidate : UInt32) (t : Target) : Nat → Process
  | 0 => {}
  | n + 1 => (after w candidate t n).step w candidate t

end Process

/-- A worker when it is over, which takes seven steps. -/
def worked (w : World) (candidate : UInt32) (t : Target) : Process := .after w candidate t 7

end Probe
end VethPeer
