import VethPeer.Inventory.Basic
import VethPeer.Wire.Cursor
import VethPeer.Wire.Payload

/-! One entry of the kernel's link table, as a message carries it. -/
namespace VethPeer.Wire

structure LinkEntry where
  family : UInt8
  type : UInt16
  index : Int32
  flags : UInt32
  change : UInt32
  name : Option String := none
  link : Option Int32 := none
  state : Option OperState := none
  kind : Option String := none
  deriving DecidableEq, Repr

namespace LinkEntry

def headerSize : Nat := 16

/-- Numbers of the attributes that are read. -/
def nameAttribute : UInt16 := 3
def linkAttribute : UInt16 := 5
def stateAttribute : UInt16 := 16
def infoAttribute : UInt16 := 18
def infoKindAttribute : UInt16 := 1

/-- Numbers of the attribute by which a request asks for less, and of what to leave out. -/
def extentAttribute : UInt16 := 29
def skipStatistics : UInt32 := 8

def ofHeader (b : Bytes) : LinkEntry where
  family := .ofNat (b.field 0 1)
  type := .ofNat (b.field 2 2)
  index := (UInt32.ofNat (b.field 4 4)).toInt32
  flags := .ofNat (b.field 8 4)
  change := .ofNat (b.field 12 4)

/-- The family header of a request for the link with this index, zero for all. -/
def requestHeader (index : Int32) : Bytes :=
  Bytes.ofNatLE 4 0 ++ Bytes.ofNatLE 4 index.toUInt32.toNat ++ Bytes.ofNatLE 8 0

/-- The last kind that the nested attributes name. They have to be well formed to the end. -/
def infoKind (b : Bytes) : Option (Option String) :=
  match Attribute.split b with
  | (as, none) =>
    some <| (as.reverse.find? (·.kind = infoKindAttribute)).map fun a => Payload.name a.payload
  | (_, some _) => none

def take (e : LinkEntry) (a : Attribute) : Option LinkEntry :=
  if a.kind = nameAttribute then some { e with name := some (Payload.name a.payload) }
  else if a.kind = linkAttribute then
    (Payload.integer a.payload).toOption.map fun link => { e with link := some link }
  else if a.kind = stateAttribute then
    (Payload.byte a.payload).toOption.map fun n => { e with state := some (.ofCode n) }
  else if a.kind = infoAttribute then (infoKind a.payload).map fun kind => { e with kind }
  else some e

def decode (data : Bytes) : Except Fault LinkEntry := Cursor.record headerSize ofHeader take data

def interface (e : LinkEntry) : Interface where
  index := e.index
  name := e.name.getD ""
  peer := e.link
  flags := e.flags
  state := e.state.getD .unknown
  kind := e.kind

end LinkEntry
end VethPeer.Wire
