import VethPeer.Wire.Attribute
import VethPeer.Wire.Frame

/-! Requests to the kernel, put together piece by piece. -/
namespace VethPeer.Wire

/-- A request before it is sent; every piece of the body is padded to four bytes. -/
structure Request where
  kind : Kind
  flags : UInt16
  seq : UInt32 := 0
  portId : UInt32 := 0
  body : Bytes := []
  deriving DecidableEq, Repr

namespace Request

/-- A request for a whole table. -/
def dump (kind : Kind) : Request := { kind, flags := Flag.request ||| Flag.dump }

def append (r : Request) (b : Bytes) : Request := { r with body := r.body ++ Bytes.padded b }

def appendAttribute (r : Request) (type : UInt16) (payload : Bytes) : Request :=
  { r with body := r.body ++ Attribute.encode type payload }

def appendWord (r : Request) (type : UInt16) (value : UInt32) : Request :=
  r.appendAttribute type (Bytes.ofNatLE 4 value.toNat)

def header (r : Request) : Header where
  length := .ofNat (Header.size + r.body.length)
  kind := r.kind
  flags := r.flags
  seq := r.seq
  portId := r.portId

def bytes (r : Request) : Bytes := Frame.bytes ⟨r.header, r.body⟩

end Request
end VethPeer.Wire
