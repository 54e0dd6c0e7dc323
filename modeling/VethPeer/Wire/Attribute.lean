import VethPeer.Fault

/-! Attributes nested in an attribute: the header, cutting a payload into attributes, and writing one. -/
namespace VethPeer.Wire

/-- The low bits of an attribute's type field; the two highest say how its payload is coded. -/
def kindMask : UInt16 := 0x3fff

structure AttributeHeader where
  length : UInt16
  type : UInt16
  deriving DecidableEq, Repr

namespace AttributeHeader

def size : Nat := 4

def kind (h : AttributeHeader) : UInt16 := h.type &&& kindMask

/-- The header at the start of a byte string. In memory the string has to begin where a header can
lie, which is taken for granted: one that does not is refused as too short. -/
def read (b : Bytes) : Except Fault AttributeHeader :=
  match Bytes.cut? size b with
  | some (head, _) => .ok ⟨.ofNat (head.field 0 2), .ofNat (head.field 2 2)⟩
  | none => .error (.truncated size b.length)

def bytes (h : AttributeHeader) : Bytes :=
  Bytes.ofNatLE 2 h.length.toNat ++ Bytes.ofNatLE 2 h.type.toNat

end AttributeHeader

structure Attribute where
  kind : UInt16
  payload : Bytes
  deriving DecidableEq, Repr

namespace Attribute

/-- The first attribute, and what follows its padding. -/
def next (data : Bytes) : Except Fault (Attribute × Bytes) := do
  let header ← AttributeHeader.read data
  let declared := header.length.toNat
  match if declared < AttributeHeader.size then none else Bytes.cut? declared data with
  | none => .error (.badAttribute (.length header.kind declared data.length))
  | some (whole, _) =>
    .ok (⟨header.kind, whole.drop AttributeHeader.size⟩, data.drop (Bytes.aligned declared))

theorem length_of_next {data rest : Bytes} {a : Attribute} (h : next data = .ok (a, rest)) :
    rest.length < data.length := by
  unfold next at h
  cases hr : AttributeHeader.read data with
  | error f => simp [hr, bind, Except.bind] at h
  | ok header =>
    simp only [hr, bind, Except.bind] at h
    split at h
    · simp at h
    · rename_i hc
      split at hc
      · simp at hc
      · have := Bytes.length_of_cut? hc
        have := Bytes.le_aligned header.length.toNat
        simp only [Except.ok.injEq, Prod.mk.injEq] at h
        rw [← h.2, List.length_drop]
        simp_all only [AttributeHeader.size]
        omega

/-- All attributes of a payload, and the fault that ended them before its end. -/
def split (data : Bytes) : List Attribute × Option Fault :=
  if data.isEmpty then ([], none)
  else match _h : next data with
    | .error fault => ([], some fault)
    | .ok (a, rest) =>
      let (as, fault) := split rest
      (a :: as, fault)
termination_by data.length
decreasing_by exact length_of_next _h

/-- An attribute as it is sent, padded; its length field holds sixteen bits. -/
def encode (type : UInt16) (payload : Bytes) : Bytes :=
  Bytes.padded <|
    AttributeHeader.bytes ⟨.ofNat (AttributeHeader.size + payload.length), type⟩ ++ payload

end Attribute

/-- An attribute as a sender writes it. The two highest bits of its type are not of its kind. -/
structure RawAttribute where
  type : UInt16
  payload : Bytes
  deriving DecidableEq, Repr

/-- The attribute without its padding. -/
def RawAttribute.bytes (a : RawAttribute) : Bytes :=
  AttributeHeader.bytes ⟨.ofNat (AttributeHeader.size + a.payload.length), a.type⟩ ++ a.payload

end VethPeer.Wire
