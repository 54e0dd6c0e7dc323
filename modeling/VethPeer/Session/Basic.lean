import VethPeer.Session.Reply
import VethPeer.Wire.AddressEntry
import VethPeer.Wire.LinkEntry
import VethPeer.Wire.Request

/-! Requests over one socket: their numbering, and the tables that they fetch. -/
namespace VethPeer

open Wire

/-- An open socket: what it will deliver, and what was sent over it, the last message first. -/
structure Session where
  portId : UInt32
  nextSeq : UInt32 := 1
  deliveries : List Delivery := []
  /-- How the attempt to send the request with this number fails, if it does. -/
  sendFault : UInt32 → Option Errno := fun _ => none
  sent : List Bytes := []

namespace Session

/-- Collects the reply to request `seq` from what is delivered; the rest stays. -/
abbrev Collector := UInt32 → List Delivery → Except (Stop Fault) (List Bytes) × List Delivery

/-- A failed attempt to send uses up a number too. -/
def exchange (s : Session) (r : Request) (collector : Collector) :
    Except (Stop Fault) (List Bytes) × Session :=
  let seq := s.nextSeq
  let s := { s with nextSeq := seq + 1 }
  match s.sendFault seq with
  | some errno => (.error (.fault (.io errno)), s)
  | none =>
    let message := { r with seq, portId := s.portId }.bytes
    let (outcome, deliveries) := collector seq s.deliveries
    (outcome, { s with deliveries, sent := message :: s.sent })

/-- The payloads of the reply to one request. -/
def request (s : Session) (r : Request) (operation : String) :
    Except (Stop Fault) (List Bytes) × Session :=
  s.exchange r fun seq => Reply.collect seq operation

/-- The payloads of a whole table. -/
def dump (s : Session) (r : Request) (operation : String) :
    Except (Stop Fault) (List Bytes) × Session :=
  s.exchange r fun seq => Dump.collect seq operation {}

/-- Decodes every payload; the first failure counts. -/
def decodeAll {α : Type} (decode : Bytes → Except Fault α)
    (outcome : Except (Stop Fault) (List Bytes)) : Except (Stop Fault) (List α) := do
  ((← outcome).mapM decode).mapError .fault

def askLess (r : Request) : Request := r.appendWord LinkEntry.extentAttribute LinkEntry.skipStatistics

/-- The whole link table. -/
def links (s : Session) : Except (Stop Fault) (List LinkEntry) × Session :=
  let r := askLess ((Request.dump Kind.getLink).append (LinkEntry.requestHeader 0))
  let (outcome, s) := s.dump r "link dump"
  (decodeAll LinkEntry.decode outcome, s)

/-- The first entry of a reply about one link; none if the kernel knows no such link. -/
def firstLink (outcome : Except (Stop Fault) (List Bytes)) :
    Except (Stop Fault) (Option LinkEntry) :=
  match outcome with
  | .ok [] => .ok none
  | .ok (payload :: _) => ((LinkEntry.decode payload).map some).mapError .fault
  | .error (.fault fault) => if fault.isNotFound then .ok none else .error (.fault fault)
  | .error .overflow => .error .overflow

/-- The link with one index, if there is one. -/
def link? (s : Session) (index : Int32) : Except (Stop Fault) (Option LinkEntry) × Session :=
  let r : Request := { kind := Kind.getLink, flags := Flag.request }
  let (outcome, s) :=
    s.request (askLess (r.append (LinkEntry.requestHeader index))) s!"getting link {index.toInt}"
  (firstLink outcome, s)

/-- The address table of one family, zero for all; the kernel may ignore the index. -/
def addresses (s : Session) (family : UInt8) (index : UInt32) :
    Except (Stop Fault) (List AddressEntry) × Session :=
  let r := (Request.dump Kind.getAddress).append (AddressEntry.requestHeader family index)
  let (outcome, s) := s.dump r "address dump"
  (decodeAll AddressEntry.decode outcome, s)

end Session
end VethPeer
