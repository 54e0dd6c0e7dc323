import Mathlib
import VethPeer.Bytes

/-! Numbers that are written as bytes are read back, up to what the width can hold, wherever in a
byte string they stand, and bytes that are read as a number are written back. A string in bytes
ends in front of the first zero. -/
namespace VethPeer

section TakeWhile

variable {α : Type} [DecidableEq α] {a : α} {front : List α}

theorem takeWhile_ne (h : a ∉ front) : front.takeWhile (· ≠ a) = front := by
  rw [List.takeWhile_eq_self_iff]
  intro c hc
  exact decide_eq_true (ne_of_mem_of_not_mem hc h)

theorem takeWhile_ne_append (h : a ∉ front) (back : List α) :
    (front ++ a :: back).takeWhile (· ≠ a) = front := by
  have hfront : ∀ c ∈ front, decide (c ≠ a) = true := by
    intro c hc
    exact decide_eq_true (ne_of_mem_of_not_mem hc h)
  rw [List.takeWhile_append_of_pos hfront, List.takeWhile_cons_of_neg (by simp), List.append_nil]

end TakeWhile

namespace Bytes

theorem untilNul_of_not_mem {front : Bytes} (h : 0 ∉ front) : untilNul front = front :=
  takeWhile_ne h

theorem untilNul_append_zero {front : Bytes} (h : 0 ∉ front) (back : Bytes) :
    untilNul (front ++ 0 :: back) = front :=
  takeWhile_ne_append h back

theorem toNatLE_ofNatLE (width n : ℕ) : toNatLE (ofNatLE width n) = n % 256 ^ width := by
  induction width generalizing n with
  | zero => simp [ofNatLE, toNatLE, Nat.mod_one]
  | succ width ih =>
    have h : (UInt8.ofNat n).toNat = n % 256 := UInt8.toNat_ofNat'
    rw [ofNatLE, toNatLE, ih, h, Nat.pow_succ', Nat.mod_mul]

theorem toNatBE_ofNatBE (width n : ℕ) : toNatBE (ofNatBE width n) = n % 256 ^ width := by
  simp [toNatBE, ofNatBE, toNatLE_ofNatLE]

@[simp] theorem length_ofNatBE (width n : ℕ) : (ofNatBE width n).length = width := by
  simp [ofNatBE]

theorem dvd_aligned (n : ℕ) : 4 ∣ aligned n := Dvd.intro_left _ rfl

/-- A cut at the seam gives both parts back. -/
theorem cut?_append {a : Bytes} {n : ℕ} (h : a.length = n) (b : Bytes) :
    cut? n (a ++ b) = some (a, b) := by
  subst h
  simp [cut?]

theorem field_append {a : Bytes} {start : ℕ} (h : a.length ≤ start) (b : Bytes) (width : ℕ) :
    field (a ++ b) start width = field b (start - a.length) width := by
  rw [field, List.drop_append, List.drop_of_length_le h, List.nil_append, field]

theorem field_append_left {a : Bytes} {start width : ℕ} (h : start + width ≤ a.length) (b : Bytes) :
    field (a ++ b) start width = field a start width := by
  rw [field, List.drop_append_of_le_length (by omega),
    List.take_append_of_le_length (by rw [List.length_drop]; omega), field]

theorem field_take {b : Bytes} {start width n : ℕ} (h : start + width ≤ n) :
    field (b.take n) start width = field b start width := by
  rw [field, List.drop_take, List.take_take, Nat.min_eq_left (by omega), field]

/-- A number at the front is read with the width that it was written with. -/
theorem field_ofNatLE (width n : ℕ) (rest : Bytes) :
    field (ofNatLE width n ++ rest) 0 width = n % 256 ^ width := by
  rw [field_append_left (by simp), field, List.drop_zero, List.take_of_length_le (by simp),
    toNatLE_ofNatLE]

theorem field_ofNatLE_self (width n : ℕ) : field (ofNatLE width n) 0 width = n % 256 ^ width := by
  simpa using field_ofNatLE width n []

theorem toNatLE_lt (b : Bytes) : toNatLE b < 256 ^ b.length := by
  induction b with
  | nil => simp [toNatLE]
  | cons x b ih =>
    have hx := x.toNat_lt
    rw [toNatLE, List.length_cons, Nat.pow_succ']
    omega

/-- A number is written again as the bytes that it was read from. -/
theorem ofNatLE_toNatLE (b : Bytes) : ofNatLE b.length (toNatLE b) = b := by
  induction b with
  | nil => rfl
  | cons x b ih =>
    have hx := x.toNat_lt
    have hlow : UInt8.ofNat (x.toNat + 256 * toNatLE b) = x := by
      apply UInt8.toNat_inj.mp
      rw [UInt8.toNat_ofNat']
      omega
    have hhigh : (x.toNat + 256 * toNatLE b) / 256 = toNatLE b := by omega
    rw [toNatLE, List.length_cons, ofNatLE, hlow, hhigh, ih]

theorem length_slice {b : Bytes} {start width : ℕ} (h : start + width ≤ b.length) :
    ((b.drop start).take width).length = width := by
  rw [List.length_take, List.length_drop]
  omega

theorem field_lt (b : Bytes) (start width : ℕ) (h : start + width ≤ b.length) :
    field b start width < 256 ^ width := by
  have hlt := toNatLE_lt ((b.drop start).take width)
  rwa [length_slice h] at hlt

theorem ofNatLE_field {b : Bytes} {start width : ℕ} (h : start + width ≤ b.length) :
    ofNatLE width (field b start width) = (b.drop start).take width := by
  have hslice := ofNatLE_toNatLE ((b.drop start).take width)
  rwa [length_slice h] at hslice

/-- Padding is skipped as far as there is any. -/
theorem drop_skipped {skipped more : Bytes} {n : ℕ} (most : skipped.length ≤ n)
    (full : more ≠ [] → skipped.length = n) : (skipped ++ more).drop n = more := by
  by_cases hm : more = []
  · subst hm
    rw [List.append_nil]
    exact List.drop_of_length_le most
  · exact List.drop_left' (full hm)

theorem exists_skipped (b : Bytes) (n : ℕ) :
    ∃ skipped, b = skipped ++ b.drop n ∧ skipped.length ≤ n ∧
      (b.drop n ≠ [] → skipped.length = n) := by
  refine ⟨b.take n, (List.take_append_drop n b).symm, List.length_take_le _ _, ?_⟩
  intro hne
  have hlt : n < b.length := by
    by_contra hge
    exact hne (List.drop_of_length_le (by omega))
  exact List.length_take_of_le hlt.le

end Bytes
end VethPeer
