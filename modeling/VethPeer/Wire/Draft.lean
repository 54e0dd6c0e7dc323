import VethPeer.Wire.Request

/-! A request put together in a buffer that grows and whose header is changed in place. -/
namespace VethPeer

/-- The bytes with others in the place of those from `start` on. -/
def Bytes.overwrite (b : Bytes) (start : Nat) (new : Bytes) : Bytes :=
  b.take start ++ new ++ b.drop (start + new.length)

namespace Wire

/-- One step in putting a request together. -/
inductive Step
  | bytes (b : Bytes)
  | attr (type : UInt16) (payload : Bytes)
  | word (type : UInt16) (value : UInt32)
  | seq (n : UInt32)
  | port (n : UInt32)
  deriving DecidableEq, Repr

/-- What the step appends, without padding. -/
def Step.piece : Step → Bytes
  | .bytes b => b
  | .attr type payload => (RawAttribute.mk type payload).bytes
  | .word type value => (RawAttribute.mk type (Bytes.ofNatLE 4 value.toNat)).bytes
  | .seq _ | .port _ => []

namespace Request

def step (r : Request) : Step → Request
  | .bytes b => r.append b
  | .attr type payload => r.appendAttribute type payload
  | .word type value => r.appendWord type value
  | .seq n => { r with seq := n }
  | .port n => { r with portId := n }

/-- The request after all steps. -/
def assembled (kind : Kind) (flags : UInt16) (steps : List Step) : Request :=
  steps.foldl step { kind, flags }

/-- A buffer for a request with nothing in it: the header alone. -/
def blank (kind : Kind) (flags : UInt16) : Bytes :=
  Header.bytes ⟨.ofNat Header.size, kind, flags, 0, 0⟩

/-- A step on the buffer. What is appended brings the whole buffer to a multiple of four bytes, and
a number is written over the one that stands in the header. -/
def draft (b : Bytes) : Step → Bytes
  | .seq n => b.overwrite 8 (Bytes.ofNatLE 4 n.toNat)
  | .port n => b.overwrite 12 (Bytes.ofNatLE 4 n.toNat)
  | s => Bytes.padded (b ++ s.piece)

/-- The length is written when nothing more is appended. -/
def finish (b : Bytes) : Bytes := b.overwrite 0 (Bytes.ofNatLE 4 (UInt32.ofNat b.length).toNat)

/-- The message that the steps leave in the buffer. -/
def message (kind : Kind) (flags : UInt16) (steps : List Step) : Bytes :=
  finish (steps.foldl draft (blank kind flags))

end Request
end Wire
end VethPeer
