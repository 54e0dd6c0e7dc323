import VethPeer.Failure

/-! Addresses that agree in their leading bits. -/
namespace VethPeer

structure Subnet where
  address : Ip
  length : Nat
  length_le : length ≤ address.width
  deriving DecidableEq

namespace Subnet

def ofAddress (a : Ip) (length : Nat) : Except Failure Subnet :=
  if h : length ≤ a.width then .ok ⟨a, length, h⟩ else .error (.target (.tooLong length a))

/-- The subnet of one address alone. -/
def host (a : Ip) : Subnet := ⟨a, a.width, Nat.le_refl _⟩

/-- The bits moved up by so many places. A shift by the whole width or more has no value. -/
def shiftUp? {w : Nat} (bits : BitVec w) (places : Nat) : Option (BitVec w) :=
  if places < w then some (bits <<< places) else none

/-- The `length` highest of `w` bits, if there are so many. -/
def mask? (w length : Nat) : Option (BitVec w) :=
  if length = 0 then some 0
  else if length ≤ w then shiftUp? (BitVec.allOnes w) (w - length)
  else none

theorem isSome_mask?_iff {w length : Nat} : (mask? w length).isSome = true ↔ length ≤ w := by
  unfold mask? shiftUp?
  split
  · simp; omega
  · split
    · rw [if_pos (by omega)]
      simpa
    · simp; omega

/-- What the subnet says about an address, as far as its mask has a value. -/
def contains? (s : Subnet) (a : Ip) : Option Bool :=
  match s.address, a with
  | .v4 p, .v4 x => (mask? 32 s.length).map fun mask => p &&& mask = x &&& mask
  | .v6 p, .v6 x => (mask? 128 s.length).map fun mask => p &&& mask = x &&& mask
  | _, _ => some false

/-- No subnet is so long that its mask has no value. -/
theorem isSome_contains? (s : Subnet) (a : Ip) : (s.contains? a).isSome = true := by
  obtain ⟨address, length, hle⟩ := s
  cases address with
  | v4 p =>
    cases a with
    | v4 x => exact Option.isSome_map.trans (isSome_mask?_iff.mpr hle)
    | v6 x => rfl
  | v6 p =>
    cases a with
    | v4 x => rfl
    | v6 x => exact Option.isSome_map.trans (isSome_mask?_iff.mpr hle)

def contains (s : Subnet) (a : Ip) : Bool := (s.contains? a).get (s.isSome_contains? a)

/-- An address, and after the first slash a length of at most eight bits if there is one. -/
def ofText (s : String) : Except Failure Subnet :=
  let invalid := Failure.target (.notSubnet s)
  let cs := s.toList
  let front := cs.takeWhile (· ≠ '/')
  match Ip.ofChars? front, cs.drop front.length with
  | some a, [] => .ok (host a)
  | some a, _ :: length =>
    match (Numeral.natural? (String.ofList length)).filter (· < 256) with
    | some n => ofAddress a n
    | none => .error invalid
  | none, _ => .error invalid

def text (s : Subnet) : String := s!"{s.address.text}/{s.length}"

end Subnet
end VethPeer
