import VethPeer.Fault

/-! Netlink messages: the header, and cutting a datagram into messages. -/
namespace VethPeer.Wire

/-- What a message type number means to both sides. -/
abbrev Kind := UInt16

namespace Kind

def noop : Kind := 1
def error : Kind := 2
def done : Kind := 3
def overrun : Kind := 4
def newLink : Kind := 16
def getLink : Kind := 18
def newAddress : Kind := 20
def getAddress : Kind := 22

end Kind

namespace Flag

def request : UInt16 := 0x1
def interrupted : UInt16 := 0x10
def dump : UInt16 := 0x300

end Flag

structure Header where
  length : UInt32
  kind : Kind
  flags : UInt16
  seq : UInt32
  portId : UInt32
  deriving DecidableEq, Repr

namespace Header

def size : Nat := 16

def ofBytes (b : Bytes) : Header where
  length := .ofNat (b.field 0 4)
  kind := .ofNat (b.field 4 2)
  flags := .ofNat (b.field 6 2)
  seq := .ofNat (b.field 8 4)
  portId := .ofNat (b.field 12 4)

def bytes (h : Header) : Bytes :=
  Bytes.ofNatLE 4 h.length.toNat ++ Bytes.ofNatLE 2 h.kind.toNat ++ Bytes.ofNatLE 2 h.flags.toNat ++
    Bytes.ofNatLE 4 h.seq.toNat ++ Bytes.ofNatLE 4 h.portId.toNat

@[simp] theorem length_bytes (h : Header) : h.bytes.length = size := by
  simp [bytes, size]

def isError (h : Header) : Bool := h.kind = .error
def isDone (h : Header) : Bool := h.kind = .done

/-- The kernel's tables changed while it was listing them. -/
def isInterrupted (h : Header) : Bool := h.flags &&& Flag.interrupted ≠ 0

/-- The header at the start of a byte string. In memory the string has to begin where a header can
lie, at a multiple of four, which is taken for granted: one that does not is refused as too short. -/
def read (b : Bytes) : Except Fault Header :=
  match Bytes.cut? size b with
  | some (head, _) => .ok (ofBytes head)
  | none => .error (.truncated size b.length)

end Header

structure Frame where
  header : Header
  payload : Bytes
  deriving DecidableEq, Repr

namespace Frame

/-- The first message, and what follows its padding. -/
def next (data : Bytes) : Except Fault (Frame × Bytes) := do
  let header ← Header.read data
  let declared := header.length.toNat
  if declared < Header.size then
    .error (.badMessage (.length declared))
  else match Bytes.cut? declared data with
    | none => .error (.truncated declared data.length)
    | some (whole, _) => .ok (⟨header, whole.drop Header.size⟩, data.drop (Bytes.aligned declared))

theorem length_of_next {data rest : Bytes} {frame : Frame} (h : next data = .ok (frame, rest)) :
    rest.length < data.length := by
  unfold next at h
  cases hr : Header.read data with
  | error f => simp [hr, bind, Except.bind] at h
  | ok header =>
    simp only [hr, bind, Except.bind] at h
    split at h
    · simp at h
    · rename_i hs
      split at h
      · simp at h
      · rename_i hc
        have := Bytes.length_of_cut? hc
        have := Bytes.le_aligned header.length.toNat
        simp only [Except.ok.injEq, Prod.mk.injEq] at h
        rw [← h.2, List.length_drop]
        simp only [Header.size] at hs
        omega

/-- All messages of a datagram, and the fault that ended them before its end. -/
def split (data : Bytes) : List Frame × Option Fault :=
  if data.isEmpty then ([], none)
  else match _h : next data with
    | .error fault => ([], some fault)
    | .ok (frame, rest) =>
      let (frames, fault) := split rest
      (frame :: frames, fault)
termination_by data.length
decreasing_by exact length_of_next _h

/-- The bytes of a message, whatever length its header declares. -/
def bytes (f : Frame) : Bytes := f.header.bytes ++ f.payload

end Frame

/-- The payload of an error message: a negative error number, or zero for a plain acknowledgement,
and the header of the request. -/
structure Acknowledgement where
  code : Int32
  request : Header
  deriving DecidableEq, Repr

/-- As with headers, the bytes are taken to begin at a multiple of four in memory. -/
def Acknowledgement.read (b : Bytes) : Except Fault Acknowledgement :=
  match Bytes.cut? 20 b with
  | some (head, _) => .ok ⟨(UInt32.ofNat (head.field 0 4)).toInt32, .ofBytes (head.drop 4)⟩
  | none => .error (.truncated 20 b.length)

end VethPeer.Wire
