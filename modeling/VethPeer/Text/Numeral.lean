import VethPeer.Bytes

/-! Numbers in text: digits in a base, decimal readers with bounds, and fixed counts of wide digits. -/
namespace VethPeer.Numeral

/-- Digits above nine are lower-case letters. -/
def digitChar (d : Nat) : Char :=
  if d < 10 then Char.ofNat (48 + d) else Char.ofNat (87 + d)

/-- Letters of either case stand for ten to fifteen. -/
def digitValue? (base : Nat) (c : Char) : Option Nat :=
  let d :=
    if '0' ≤ c ∧ c ≤ '9' then c.toNat - 48
    else if 'a' ≤ c ∧ c ≤ 'f' then c.toNat - 87
    else if 'A' ≤ c ∧ c ≤ 'F' then c.toNat - 55
    else base
  if d < base then some d else none

/-- The digits of a number without leading zeros. -/
def digits (base n : Nat) : List Char :=
  if n < base ∨ base ≤ 1 then [digitChar n]
  else digits base (n / base) ++ [digitChar (n % base)]
termination_by n
decreasing_by exact Nat.div_lt_self (by omega) (by omega)

/-- The number that a list of digits stands for, the highest first. -/
def gather (base : Nat) (ds : List Nat) : Nat := ds.foldl (fun n d => n * base + d) 0

/-- The `count` lowest digits of a number, the highest first. -/
def spread (base : Nat) : Nat → Nat → List Nat
  | 0, _ => []
  | count + 1, n => spread base count (n / base) ++ [n % base]

@[simp] theorem length_spread (base count n : Nat) : (spread base count n).length = count := by
  induction count generalizing n with
  | zero => rfl
  | succ count ih => simp [spread, ih]

/-- At least one decimal digit and nothing else. -/
def decimal? (cs : List Char) : Option Nat :=
  match cs.mapM (digitValue? 10) with
  | some (d :: ds) => some (gather 10 (d :: ds))
  | _ => none

/-- A plus sign may stand in front. -/
def natural? (s : String) : Option Nat :=
  match s.toList with
  | '+' :: cs => decimal? cs
  | cs => decimal? cs

/-- A sign may stand in front. -/
def integer? (s : String) : Option Int :=
  match s.toList with
  | '-' :: cs => (decimal? cs).map fun n => -(n : Int)
  | '+' :: cs => (decimal? cs).map Int.ofNat
  | cs => (decimal? cs).map Int.ofNat

/-- An integer within bounds, both included. -/
def between? (low high : Int) (s : String) : Option Int :=
  (integer? s).filter fun n => low ≤ n ∧ n ≤ high

end VethPeer.Numeral
