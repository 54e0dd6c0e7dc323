import VethPeer.Fault
import VethPeer.Ip

/-! The values that an attribute's payload can hold. -/
namespace VethPeer.Wire.Payload

def byte : Bytes → Except Fault UInt8
  | b :: _ => .ok b
  | [] => .error (.badAttribute .emptyByte)

def word (b : Bytes) : Except Fault UInt32 :=
  match Bytes.cut? 4 b with
  | some (head, _) => .ok (.ofNat (Bytes.toNatLE head))
  | none => .error (.badAttribute .shortWord)

def integer (b : Bytes) : Except Fault Int32 :=
  match Bytes.cut? 4 b with
  | some (head, _) => .ok (UInt32.ofNat (Bytes.toNatLE head)).toInt32
  | none => .error (.badAttribute .shortInteger)

/-- Text up to the first zero byte. -/
def string (b : Bytes) : Except Fault String :=
  (Utf8.decode b.untilNul).mapError fun defect => .badAttribute (.notUtf8 defect)

/-- Text up to the first zero byte, with replacement characters for what is no text. -/
def name (b : Bytes) : String := Utf8.decodeLossy b.untilNul

/-- An address of the family with this number; bytes after it are ignored. -/
def address (family : UInt8) (b : Bytes) : Except Fault Ip :=
  if family = 2 then
    match Bytes.cut? 4 b with
    | some (head, _) => .ok (.ofBytes4 head)
    | none => .error (.truncated 4 b.length)
  else if family = 10 then
    match Bytes.cut? 16 b with
    | some (head, _) => .ok (.ofBytes6 head)
    | none => .error (.truncated 16 b.length)
  else .error (.badMessage (.family family))

end VethPeer.Wire.Payload
