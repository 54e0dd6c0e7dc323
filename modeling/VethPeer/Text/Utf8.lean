import VethPeer.Bytes

/-! UTF-8 text in byte strings: strict reading, and reading that marks what is broken. -/
namespace VethPeer.Utf8

/-- A run of bytes that is one character, or the longest run that began as one. -/
inductive Piece
  | char (c : Char) (width : Nat)
  | broken (width : Nat) (ended : Bool)

def Piece.width : Piece → Nat
  | .char _ width => width
  | .broken width _ => width

/-- The ranges of the bytes that complete a character, by its first byte. -/
def followers (lead : UInt8) : Option (List (UInt8 × UInt8)) :=
  let any := (0x80, 0xBF)
  if lead < 0x80 then some []
  else if lead < 0xC2 then none
  else if lead < 0xE0 then some [any]
  else if lead = 0xE0 then some [(0xA0, 0xBF), any]
  else if lead = 0xED then some [(0x80, 0x9F), any]
  else if lead < 0xF0 then some [any, any]
  else if lead = 0xF0 then some [(0x90, 0xBF), any, any]
  else if lead < 0xF4 then some [any, any, any]
  else if lead = 0xF4 then some [(0x80, 0x8F), any, any]
  else none

/-- How many bytes in a row lie in their ranges. -/
def fitting : List (UInt8 × UInt8) → Bytes → Nat
  | (low, high) :: ranges, b :: rest => if low ≤ b ∧ b ≤ high then fitting ranges rest + 1 else 0
  | _, _ => 0

/-- The bits that the first byte holds make way for six from each byte after it. -/
def codePoint (lead : UInt8) (after : Bytes) : Nat :=
  let high := if after.isEmpty then lead.toNat else lead.toNat % (1 <<< (6 - after.length))
  after.foldl (fun n b => n * 64 + b.toNat % 64) high

/-- The piece that starts with `lead`. -/
def front (lead : UInt8) (rest : Bytes) : Piece :=
  match followers lead with
  | none => .broken 1 false
  | some ranges =>
    let n := fitting ranges rest
    if n = ranges.length then .char (Char.ofNat (codePoint lead (rest.take n))) (n + 1)
    else .broken (n + 1) (rest.drop n).isEmpty

def pieces : Bytes → List Piece
  | [] => []
  | lead :: rest =>
    let piece := front lead rest
    piece :: pieces (rest.drop (piece.width - 1))
termination_by b => b.length
decreasing_by
  simp only [List.length_drop, List.length_cons]
  omega

inductive Defect
  | invalid (width index : Nat)
  | incomplete (index : Nat)
  deriving DecidableEq, Repr

def Defect.message : Defect → String
  | .invalid width index => s!"invalid utf-8 sequence of {width} bytes from index {index}"
  | .incomplete index => s!"incomplete utf-8 byte sequence from index {index}"

/-- All pieces as characters, or the first that is none, `index` bytes being read before. -/
def characters (index : Nat) : List Piece → Except Defect (List Char)
  | [] => .ok []
  | .char c width :: rest => (characters (index + width) rest).map (c :: ·)
  | .broken width ended :: _ => .error (if ended then .incomplete index else .invalid width index)

def decode (b : Bytes) : Except Defect String :=
  (characters 0 (pieces b)).map String.ofList

/-- Every broken piece becomes one replacement character. -/
def decodeLossy (b : Bytes) : String :=
  String.ofList <| (pieces b).map fun
    | .char c _ => c
    | .broken .. => '\uFFFD'

def encode (s : String) : Bytes := s.toList.flatMap String.utf8EncodeChar

end VethPeer.Utf8
