import VethPeer.Wire.Frame

/-! What a socket delivers, and what the messages of one request in it amount to. -/
namespace VethPeer

/-- What one attempt to receive brings. -/
inductive Delivery
  | datagram (bytes : Bytes)
  | failure (errno : Errno)
  | notReady
  deriving DecidableEq, Repr

namespace Delivery

/-- A datagram longer than this loses its end. -/
def capacity : Nat := 32768

def received (b : Bytes) : Bytes := b.take capacity

end Delivery

namespace Wire.Frame

/-- The refusal that an error message carries. One with code zero acknowledges. -/
def refusal? (operation : String) (f : Frame) : Option (Stop Fault) :=
  if f.header.isError then
    match Acknowledgement.read f.payload with
    | .error fault => some (.fault fault)
    | .ok a => if a.code = 0 then none else some (.ofRefusal operation a.code)
  else none

end Wire.Frame

open Wire

namespace Reply

/-- What a datagram says about the request `seq`: nothing, or its outcome. Messages of other
requests do not count, but everything has to be framed well. -/
def ofDatagram (seq : UInt32) (operation : String) (b : Bytes) :
    Option (Except (Stop Fault) (List Bytes)) :=
  let (frames, fault) := Frame.split b
  let own := frames.filter (·.header.seq = seq)
  match (own.findSome? (Frame.refusal? operation)).or (fault.map .fault) with
  | some stop => some (.error stop)
  | none =>
    if own.isEmpty then none
    else some (.ok ((own.filter (!·.header.isError)).map (·.payload)))

/-- The outcome that the first datagram to have one gives, and the deliveries after it. -/
def collect (seq : UInt32) (operation : String) :
    List Delivery → Except (Stop Fault) (List Bytes) × List Delivery
  | [] => (.error (.fault (.io .timedOut)), [])
  | .notReady :: rest => collect seq operation rest
  | .failure errno :: rest => (.error (.fault (.io errno)), rest)
  | .datagram b :: rest =>
    match ofDatagram seq operation (Delivery.received b) with
    | some outcome => (outcome, rest)
    | none => collect seq operation rest

end Reply

/-- A table that the kernel lists in many messages, as far as it has come. -/
structure Dump where
  /-- The last payload first. -/
  payloads : List Bytes := []
  interrupted : Bool := false
  deriving DecidableEq, Repr

namespace Dump

/-- What one message does to a dump. -/
inductive Part
  | nothing
  | payload (b : Bytes)
  | stop (stop : Stop Fault)
  | finish
  deriving DecidableEq, Repr

def part (operation : String) (f : Frame) : Part :=
  if f.header.isError then
    match f.refusal? operation with
    | some stop => .stop stop
    | none => .nothing
  else if f.header.isDone then .finish
  else if f.header.kind = Kind.noop then .nothing
  else if f.header.kind = Kind.overrun then .stop (.fault (.badMessage (.dataLost operation)))
  else .payload f.payload

/-- Takes the messages of one datagram in, up to the end of the dump; true once that was seen. -/
def feed (seq : UInt32) (operation : String) (d : Dump) :
    List Frame → Except (Stop Fault) (Dump × Bool)
  | [] => .ok (d, false)
  | f :: fs =>
    if f.header.seq ≠ seq then feed seq operation d fs
    else
      let d := { d with interrupted := d.interrupted || f.header.isInterrupted }
      match part operation f with
      | .nothing => feed seq operation d fs
      | .payload b => feed seq operation { d with payloads := b :: d.payloads } fs
      | .stop stop => .error stop
      | .finish => .ok (d, true)

/-- Payloads of a table that changed meanwhile are worth nothing. -/
def finish (operation : String) (d : Dump) : Except (Stop Fault) (List Bytes) :=
  if d.interrupted then .error (.fault (.interrupted operation)) else .ok d.payloads.reverse

/-- The whole table, and the deliveries after the datagram that ended it. -/
def collect (seq : UInt32) (operation : String) (d : Dump) :
    List Delivery → Except (Stop Fault) (List Bytes) × List Delivery
  | [] => (.error (.fault (.io .timedOut)), [])
  | .notReady :: rest => collect seq operation d rest
  | .failure errno :: rest => (.error (.fault (.io errno)), rest)
  | .datagram b :: rest =>
    let (frames, fault) := Frame.split (Delivery.received b)
    match feed seq operation d frames, fault with
    | .error stop, _ => (.error stop, rest)
    | .ok (d, true), _ => (finish operation d, rest)
    | .ok (_, false), some fault => (.error (.fault fault), rest)
    | .ok (d, false), none => collect seq operation d rest

end Dump
end VethPeer
