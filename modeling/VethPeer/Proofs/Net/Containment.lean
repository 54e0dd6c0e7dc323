import Mathlib
import VethPeer.Net.Family
import VethPeer.Net.Subnet

/-! A subnet contains the addresses of its family that have the leading bits of its own address. -/
namespace VethPeer

/-- The bit at a place, counted from the highest. -/
def Ip.bit : Ip → ℕ → Bool
  | .v4 bits, i => bits.getMsbD i
  | .v6 bits, i => bits.getMsbD i

namespace Subnet

variable {w length : ℕ} {a x : Ip} {s narrow : Subnet}

/-- A mask that is not empty comes from a shift that leaves at least one place. -/
theorem mask?_eq (h : length ≤ w) (hz : length ≠ 0) :
    mask? w length = some (BitVec.allOnes w <<< (w - length)) := by
  rw [mask?, if_neg hz, if_pos h, shiftUp?, if_pos (by omega)]

/-- There is a mask, and it has ones at the leading places and nowhere else. -/
theorem exists_mask (h : length ≤ w) :
    ∃ mask, mask? w length = some mask ∧ ∀ i, mask.getMsbD i = decide (i < length) := by
  by_cases hz : length = 0
  · subst hz
    exact ⟨0, rfl, fun i => by simp⟩
  · refine ⟨_, mask?_eq h hz, fun i => ?_⟩
    rw [BitVec.getMsbD_shiftLeft, BitVec.getMsbD_allOnes, decide_eq_decide]
    omega

/-- Under a mask two numbers are equal if they have the same leading bits. -/
theorem and_mask_eq_iff {mask : BitVec w} (h : ∀ i, mask.getMsbD i = decide (i < length))
    (p q : BitVec w) :
    p &&& mask = q &&& mask ↔ ∀ i < length, q.getMsbD i = p.getMsbD i := by
  constructor
  · intro heq i hi
    have hbit := congrArg (·.getMsbD i) heq
    simpa [h, hi] using hbit.symm
  · intro hbits
    apply BitVec.eq_of_getMsbD_eq
    intro i _
    rw [BitVec.getMsbD_and, BitVec.getMsbD_and, h]
    by_cases hi : i < length
    · rw [hbits i hi]
    · rw [decide_eq_false hi, Bool.and_false, Bool.and_false]

theorem contains?_eq_some (s : Subnet) (x : Ip) : s.contains? x = some (s.contains x) :=
  (Option.some_get _).symm

/-- Addresses of one family are equal if all their bits are. -/
theorem eq_of_bits (hf : Family.ofIp x = Family.ofIp a) (h : ∀ i < a.width, x.bit i = a.bit i) :
    x = a := by
  cases a <;> cases x <;> cases hf
  · exact congrArg Ip.v4 (BitVec.eq_of_getMsbD_eq h)
  · exact congrArg Ip.v6 (BitVec.eq_of_getMsbD_eq h)

theorem contains_iff (s : Subnet) (x : Ip) :
    s.contains x = true ↔
      Family.ofIp x = Family.ofIp s.address ∧ ∀ i < s.length, x.bit i = s.address.bit i := by
  rw [← Option.some_inj, ← contains?_eq_some]
  obtain ⟨a, length, hle⟩ := s
  cases a with
  | v4 p =>
    cases x with
    | v4 q =>
      obtain ⟨mask, hmask, hbits⟩ := exists_mask (w := 32) hle
      simpa [contains?, hmask, Family.ofIp, Ip.bit] using and_mask_eq_iff hbits p q
    | v6 q => simp [contains?, Family.ofIp]
  | v6 p =>
    cases x with
    | v4 q => simp [contains?, Family.ofIp]
    | v6 q =>
      obtain ⟨mask, hmask, hbits⟩ := exists_mask (w := 128) hle
      simpa [contains?, hmask, Family.ofIp, Ip.bit] using and_mask_eq_iff hbits p q

theorem contains_host (a b : Ip) : (host a).contains b = decide (b = a) := by
  rw [Bool.eq_iff_iff, contains_iff, decide_eq_true_eq]
  constructor
  · rintro ⟨hf, hbits⟩
    exact eq_of_bits hf hbits
  · rintro rfl
    exact ⟨rfl, fun _ _ => rfl⟩

theorem contains_of_contains (hl : s.length ≤ narrow.length)
    (hs : s.contains narrow.address = true) (hx : narrow.contains x = true) :
    s.contains x = true := by
  rw [contains_iff] at hs hx ⊢
  refine ⟨hx.1.trans hs.1, fun i hi => ?_⟩
  exact (hx.2 i (hi.trans_le hl)).trans (hs.2 i hi)

/-- A subnet contains exactly the addresses of its family that agree with its own address in as many
leading bits as it is long. Its mask has a value, since it is never shifted by the whole width: there
is one for every length up to the width, and for no other. Of length zero the subnet contains the
whole family, a host's subnet contains the host alone, and what contains the address of a subnet that
is no wider contains all of that subnet. -/
theorem contains_leading (s : Subnet) :
    (∀ x, s.contains? x = some (s.contains x)) ∧
    (∀ x, s.contains x = true ↔
      Family.ofIp x = Family.ofIp s.address ∧ ∀ i < s.length, x.bit i = s.address.bit i) ∧
    (∀ w length, (mask? w length).isSome = true ↔ length ≤ w) ∧
    (s.length = 0 ∧ mask? s.address.width s.length = some 0 ∨
      ∃ shift < s.address.width, shift + s.length = s.address.width ∧
        mask? s.address.width s.length = some (BitVec.allOnes s.address.width <<< shift)) ∧
    (s.length = 0 → ∀ x, s.contains x = true ↔ Family.ofIp x = Family.ofIp s.address) ∧
    (∀ a x, (host a).contains x = true ↔ x = a) ∧
    ∀ narrow : Subnet, s.length ≤ narrow.length → s.contains narrow.address = true →
      ∀ x, narrow.contains x = true → s.contains x = true := by
  refine ⟨s.contains?_eq_some, s.contains_iff, fun _ _ => isSome_mask?_iff, ?_, ?_, ?_, ?_⟩
  · have hle := s.length_le
    by_cases hz : s.length = 0
    · exact .inl ⟨hz, by rw [hz]; rfl⟩
    · exact .inr ⟨_, by omega, Nat.sub_add_cancel hle, mask?_eq hle hz⟩
  · intro hz x
    rw [contains_iff, hz]
    exact ⟨And.left, fun hf => ⟨hf, nofun⟩⟩
  · intro a x
    rw [contains_host, decide_eq_true_eq]
  · intro narrow hl hs x hx
    exact contains_of_contains hl hs hx

def wholeFamily : Subnet := ⟨.v4 0, 0, by decide⟩

def tenNet : Subnet := ⟨.v4 0x0a400000, 10, by decide⟩

def narrowNet : Subnet := ⟨.v4 0x0a7f0000, 16, by decide⟩

/-- The second network ends inside an octet, and the third one lies in it. -/
theorem contains_leading_tenNet :
    wholeFamily.contains (.v4 0xc0000201) = true ∧
      narrowNet.contains (.v4 0x0a7f0102) = true ∧ tenNet.contains (.v4 0x0a7f0102) = true := by
  have hwhole := (contains_leading wholeFamily).2.2.2.2.1 rfl (.v4 0xc0000201)
  have hnarrow : narrowNet.contains (.v4 0x0a7f0102) = true := by decide
  have hten := (contains_leading tenNet).2.2.2.2.2.2 narrowNet (by decide) (by decide) _ hnarrow
  exact ⟨hwhole.mpr rfl, hnarrow, hten⟩

end Subnet
end VethPeer
