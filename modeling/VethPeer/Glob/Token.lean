import VethPeer.Text.Utf8

/-! The pieces of a glob and which offsets of a name they lead to. -/
namespace VethPeer.Glob

inductive Token
  | literal (c : Char)
  | anyByte
  | anyRun
  /-- Nothing, or directories in front of the rest, with or without a slash before them. -/
  | leadingDirs
  /-- A slash and all that follows it. -/
  | trailingDirs
  /-- A slash, or directories between two slashes. -/
  | innerDirs
  | oneOf (negated : Bool) (ranges : List (Char × Char))
  | branches (alternatives : List (List Token))
  deriving Repr

/-- For every offset of a name, its end included, whether a match can stand there. -/
abbrev Reach := List Bool

namespace Reach

def start (name : Bytes) : Reach := true :: name.map fun _ => false

/-- One byte further, over a byte that passes. -/
def step (name : Bytes) (ok : UInt8 → Bool) (r : Reach) : Reach :=
  false :: List.zipWith (fun b here => ok b && here) name r

/-- Any number of bytes further. -/
def onward (seen : Bool) : Reach → Reach
  | [] => []
  | here :: r => (seen || here) :: onward (seen || here) r

def either (r s : Reach) : Reach := List.zipWith (· || ·) r s

def accepts (r : Reach) : Bool := r.getLast?.getD false

end Reach

def slash : UInt8 := 47

/-- A class takes one byte, so a character outside ASCII stands for each byte of its encoding. In a
range only the byte next to the dash is an end of it. -/
def rangeHas (b : UInt8) (low high : Char) : Bool :=
  let first := String.utf8EncodeChar low
  let last := String.utf8EncodeChar high
  if low = high then first.contains b
  else first.dropLast.contains b || last.tail.contains b ||
    (first.getLast?.any (· ≤ b) && last.head?.any (b ≤ ·))

def classHas (negated : Bool) (ranges : List (Char × Char)) (b : UInt8) : Bool :=
  ranges.any (fun (low, high) => rangeHas b low high) != negated

mutual

/-- Groups of empty branches stand for nothing at all. -/
def Token.isBlank : Token → Bool
  | .branches alternatives => areBlank alternatives
  | _ => false

def isBlank : List Token → Bool
  | [] => true
  | t :: seq => t.isBlank && isBlank seq

def areBlank : List (List Token) → Bool
  | [] => true
  | seq :: alternatives => isBlank seq && areBlank alternatives

end

mutual

def Token.advance (name : Bytes) : Token → Reach → Reach
  | .literal c, r => (String.utf8EncodeChar c).foldl (fun r b => r.step name (· = b)) r
  | .anyByte, r => r.step name fun _ => true
  | .anyRun, r => r.onward false
  | .leadingDirs, r => r.either ((r.onward false).step name (· = slash))
  | .trailingDirs, r => (r.step name (· = slash)).onward false
  | .innerDirs, r =>
    let after := r.step name (· = slash)
    after.either ((after.onward false).step name (· = slash))
  | .oneOf negated ranges, r => r.step name (classHas negated ranges)
  | .branches alternatives, r =>
    if areBlank alternatives then r else advanceAny name alternatives r

def advanceAll (name : Bytes) : List Token → Reach → Reach
  | [], r => r
  | t :: seq, r => advanceAll name seq (t.advance name r)

/-- Blank branches do not count beside others. -/
def advanceAny (name : Bytes) : List (List Token) → Reach → Reach
  | [], r => r.map fun _ => false
  | seq :: alternatives, r =>
    let others := advanceAny name alternatives r
    if isBlank seq then others else (advanceAll name seq r).either others

end

end VethPeer.Glob
