import VethPeer.Inventory.Basic
import VethPeer.Wire.Cursor
import VethPeer.Wire.Payload

/-! One entry of the kernel's address table, as a message carries it. -/
namespace VethPeer.Wire

structure AddressEntry where
  family : UInt8
  length : UInt8
  headerFlags : UInt8
  scope : UInt8
  index : UInt32
  address : Option Ip := none
  local? : Option Ip := none
  label : Option String := none
  flags : Option UInt32 := none
  deriving DecidableEq, Repr

namespace AddressEntry

def headerSize : Nat := 8

/-- Numbers of the attributes that are read. -/
def addressAttribute : UInt16 := 1
def localAttribute : UInt16 := 2
def labelAttribute : UInt16 := 3
def flagsAttribute : UInt16 := 8

def ofHeader (b : Bytes) : AddressEntry where
  family := .ofNat (b.field 0 1)
  length := .ofNat (b.field 1 1)
  headerFlags := .ofNat (b.field 2 1)
  scope := .ofNat (b.field 3 1)
  index := .ofNat (b.field 4 4)

/-- The family header of a request; zero stands for all families and for all interfaces. -/
def requestHeader (family : UInt8) (index : UInt32) : Bytes :=
  Bytes.ofNatLE 4 family.toNat ++ Bytes.ofNatLE 4 index.toNat

/-- Only entries of the two internet families hold addresses. -/
def hasIp (e : AddressEntry) : Bool := e.family = 2 ∨ e.family = 10

def take (e : AddressEntry) (a : Attribute) : Option AddressEntry :=
  let ip := (Payload.address e.family a.payload).toOption
  if a.kind = addressAttribute ∧ e.hasIp then ip.map fun ip => { e with address := some ip }
  else if a.kind = localAttribute ∧ e.hasIp then ip.map fun ip => { e with local? := some ip }
  else if a.kind = labelAttribute then some { e with label := some (Payload.name a.payload) }
  else if a.kind = flagsAttribute then
    (Payload.word a.payload).toOption.map fun flags => { e with flags := some flags }
  else some e

def decode (data : Bytes) : Except Fault AddressEntry := Cursor.record headerSize ofHeader take data

/-- On a point-to-point link the address attribute is the far end. -/
def primary (e : AddressEntry) : Option Ip := e.local?.or e.address

/-- The header has room for eight flags only. -/
def allFlags (e : AddressEntry) : UInt32 := e.flags.getD e.headerFlags.toUInt32

def assignment (e : AddressEntry) : Assignment where
  owner := e.index.toInt32
  family := .ofCode e.family
  length := e.length
  scope := e.scope
  flags := e.allFlags
  label := e.label
  address := e.primary

end AddressEntry
end VethPeer.Wire
