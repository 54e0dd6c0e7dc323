/-! Byte strings: exact cuts, padding to four bytes, and little-endian numbers. -/
namespace VethPeer

abbrev Bytes := List UInt8

namespace Bytes

/-- The first `n` bytes and all that follows them, when there are `n`. -/
def cut? (n : Nat) (b : Bytes) : Option (Bytes × Bytes) :=
  let head := b.take n
  if head.length = n then some (head, b.drop n) else none

theorem cut?_eq (n : Nat) (b : Bytes) :
    cut? n b = if n ≤ b.length then some (b.take n, b.drop n) else none := by
  simp only [cut?, List.length_take]
  congr 1
  simp only [eq_iff_iff]
  omega

theorem length_of_cut? {n : Nat} {b head rest : Bytes} (h : cut? n b = some (head, rest)) :
    head.length = n ∧ rest.length + n = b.length := by
  rw [cut?_eq] at h
  split at h <;> simp_all
  obtain ⟨rfl, rfl⟩ := h
  simp
  omega

/-- The least multiple of four that is not below `n`. -/
def aligned (n : Nat) : Nat := (n + 3) / 4 * 4

theorem le_aligned (n : Nat) : n ≤ aligned n := by
  unfold aligned
  omega

/-- Zero bytes follow up to the next multiple of four. -/
def padded (b : Bytes) : Bytes := b ++ List.replicate (aligned b.length - b.length) 0

theorem length_padded (b : Bytes) : (padded b).length = aligned b.length := by
  have := le_aligned b.length
  simp [padded]
  omega

/-- What comes before the first zero byte. -/
def untilNul (b : Bytes) : Bytes := b.takeWhile (· ≠ 0)

def toNatLE : Bytes → Nat
  | [] => 0
  | b :: rest => b.toNat + 256 * toNatLE rest

/-- The `width` low digits of a number in base 256, the lowest first. -/
def ofNatLE : Nat → Nat → Bytes
  | 0, _ => []
  | width + 1, n => UInt8.ofNat n :: ofNatLE width (n / 256)

@[simp] theorem length_ofNatLE (width n : Nat) : (ofNatLE width n).length = width := by
  induction width generalizing n with
  | zero => rfl
  | succ width ih => simp [ofNatLE, ih]

def toNatBE (b : Bytes) : Nat := toNatLE b.reverse

def ofNatBE (width n : Nat) : Bytes := (ofNatLE width n).reverse

/-- The little-endian number in the `width` bytes at `start`. -/
def field (b : Bytes) (start width : Nat) : Nat := toNatLE ((b.drop start).take width)

end Bytes
end VethPeer
