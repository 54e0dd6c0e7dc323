import VethPeer.Text.Numeral

/-! Internet addresses of both families, their octets and groups, and their text. -/
namespace VethPeer

inductive Ip
  | v4 (bits : BitVec 32)
  | v6 (bits : BitVec 128)
  deriving DecidableEq, Repr

namespace Ip

/-- The number of bits of an address of the family. -/
def width : Ip → Nat
  | .v4 _ => 32
  | .v6 _ => 128

/-- From bytes in network order; shorter and longer strings count as numbers do. -/
def ofBytes4 (b : Bytes) : Ip := .v4 (.ofNat 32 (Bytes.toNatBE b))

def ofBytes6 (b : Bytes) : Ip := .v6 (.ofNat 128 (Bytes.toNatBE b))

def octets (bits : BitVec 32) : List Nat := Numeral.spread 256 4 bits.toNat

def groups (bits : BitVec 128) : List Nat := Numeral.spread 65536 8 bits.toNat

/-- Four decimal octets with points between them. -/
def dottedText (bits : BitVec 32) : List Char :=
  ['.'].intercalate ((octets bits).map (Numeral.digits 10))

def colonText (gs : List Nat) : List Char :=
  [':'].intercalate (gs.map (Numeral.digits 16))

/-- Start and length of the longest run of zeros, the leftmost of equally long ones. -/
def zeroRun (gs : List Nat) : Nat × Nat :=
  (List.range gs.length).foldl (fun best i =>
    let run := ((gs.drop i).takeWhile (· = 0)).length
    if best.2 < run then (i, run) else best) (0, 0)

/-- Addresses under `::ffff:0:0/96` end as an IPv4 address; else the longest run of at least two
zero groups is left out. -/
def hexText (bits : BitVec 128) : List Char :=
  let gs := groups bits
  if gs.take 6 = [0, 0, 0, 0, 0, 0xffff] then
    "::ffff:".toList ++ dottedText (bits.setWidth 32)
  else
    let (start, length) := zeroRun gs
    if 1 < length then colonText (gs.take start) ++ "::".toList ++ colonText (gs.drop (start + length))
    else colonText gs

def chars : Ip → List Char
  | .v4 bits => dottedText bits
  | .v6 bits => hexText bits

def text (a : Ip) : String := String.ofList a.chars

/-- A number of at most `most` digits and what follows it. Only `zeros` allows them in front. -/
def number? (base most : Nat) (zeros : Bool) (cs : List Char) : Option (Nat × List Char) :=
  let ds := cs.takeWhile fun c => (Numeral.digitValue? base c).isSome
  if ds.isEmpty ∨ most < ds.length ∨ (!zeros ∧ ds.head? = some '0' ∧ 1 < ds.length) then none
  else some (Numeral.gather base (ds.filterMap (Numeral.digitValue? base)), cs.drop ds.length)

def octet? (cs : List Char) : Option (Nat × List Char) :=
  (number? 10 3 false cs).filter fun (n, _) => n < 256

/-- Passes a separator, except in front of the first item. -/
def separated? (sep : Char) (first : Bool) (cs : List Char) : Option (List Char) :=
  if first then some cs
  else match cs with
    | c :: rest => if c = sep then some rest else none
    | [] => none

def octets? (first : Bool) : Nat → List Char → Option (List Nat × List Char)
  | 0, cs => some ([], cs)
  | count + 1, cs =>
    match (separated? '.' first cs).bind octet? with
    | some (n, rest) => (octets? false count rest).map fun (ns, rest) => (n :: ns, rest)
    | none => none

def dotted? (cs : List Char) : Option (BitVec 32 × List Char) :=
  (octets? true 4 cs).map fun (ns, rest) => (.ofNat 32 (Numeral.gather 256 ns), rest)

/-- As many groups as there are, up to `room`. A dotted quad with room for two ends them. -/
def groups? (first : Bool) : Nat → List Char → List Nat × Bool × List Char
  | 0, cs => ([], false, cs)
  | room + 1, cs =>
    match separated? ':' first cs with
    | none => ([], false, cs)
    | some after =>
      match if room = 0 then none else dotted? after with
      | some (quad, rest) => (Numeral.spread 65536 2 quad.toNat, true, rest)
      | none =>
        match number? 16 4 true after with
        | none => ([], false, cs)
        | some (n, rest) =>
          let (ns, quad, rest) := groups? false room rest
          (n :: ns, quad, rest)

/-- Eight groups, or fewer around one `::` that stands for at least one; a quad comes last. -/
def colons? (cs : List Char) : Option (BitVec 128 × List Char) :=
  let (head, quad, rest) := groups? true 8 cs
  if head.length = 8 then some (.ofNat 128 (Numeral.gather 65536 head), rest)
  else if quad then none
  else match rest with
    | ':' :: ':' :: rest =>
      let (tail, _, rest) := groups? true (7 - head.length) rest
      let zeros := List.replicate (8 - head.length - tail.length) 0
      some (.ofNat 128 (Numeral.gather 65536 (head ++ zeros ++ tail)), rest)
    | _ => none

def ofChars? (cs : List Char) : Option Ip :=
  match dotted? cs with
  | some (bits, rest) => if rest.isEmpty then some (.v4 bits) else none
  | none =>
    match colons? cs with
    | some (bits, rest) => if rest.isEmpty then some (.v6 bits) else none
    | none => none

def ofText? (s : String) : Option Ip := ofChars? s.toList

end Ip
end VethPeer
