import Mathlib
import VethPeer.Proofs.Wire.Rows

/-! A value is read off a payload exactly if the payload begins with it as it is written. -/
namespace VethPeer

variable {b : Bytes} {n start width : ℕ}

namespace Bytes

theorem ofNatLE_isPrefix_iff (hn : n < 256 ^ width) :
    ofNatLE width n <+: b ↔ width ≤ b.length ∧ b.field 0 width = n := by
  constructor
  · rintro ⟨rest, rfl⟩
    refine ⟨by simp, ?_⟩
    rw [field_ofNatLE, Nat.mod_eq_of_lt hn]
  · rintro ⟨hwidth, rfl⟩
    rw [ofNatLE_field (by omega), List.drop_zero]
    exact List.take_prefix _ _

theorem ofNatLE_byte (h : start + 1 ≤ b.length) :
    ofNatLE 1 (UInt8.ofNat (b.field start 1)).toNat = (b.drop start).take 1 := by
  rw [UInt8.toNat_ofNat_of_lt' (field_lt b start 1 h), ofNatLE_field h]

theorem ofNatLE_half (h : start + 2 ≤ b.length) :
    ofNatLE 2 (UInt16.ofNat (b.field start 2)).toNat = (b.drop start).take 2 := by
  rw [UInt16.toNat_ofNat_of_lt' (field_lt b start 2 h), ofNatLE_field h]

theorem ofNatLE_word (h : start + 4 ≤ b.length) :
    ofNatLE 4 (UInt32.ofNat (b.field start 4)).toNat = (b.drop start).take 4 := by
  rw [UInt32.toNat_ofNat_of_lt' (field_lt b start 4 h), ofNatLE_field h]

theorem toNatBE_lt (b : Bytes) : toNatBE b < 256 ^ b.length := by
  have h := toNatLE_lt b.reverse
  rwa [List.length_reverse] at h

theorem ofNatBE_toNatBE (b : Bytes) : ofNatBE b.length (toNatBE b) = b := by
  have h := ofNatLE_toNatLE b.reverse
  rw [List.length_reverse] at h
  rw [ofNatBE, toNatBE, h, List.reverse_reverse]

end Bytes

namespace Wire.Payload

variable {α : Type} {value : α} {family code : UInt8} {word : UInt32} {integer : Int32} {ip : Ip}

def HoldsByte (b : Bytes) (code : UInt8) : Prop := [code] <+: b

def HoldsWord (b : Bytes) (word : UInt32) : Prop := Bytes.ofNatLE 4 word.toNat <+: b

def HoldsInteger (b : Bytes) (integer : Int32) : Prop := HoldsWord b integer.toUInt32

/-- The address is of the family and stands in network order. -/
def HoldsIp (family : UInt8) (b : Bytes) (ip : Ip) : Prop :=
  (Family.ofIp ip).code = family ∧ ofIp ip <+: b

theorem toOption_eq_some_iff {result : Except Fault α} :
    result.toOption = some value ↔ result = .ok value := by
  cases result <;> simp [Except.toOption]

theorem byte_eq_ok_iff : byte b = .ok code ↔ HoldsByte b code := by
  cases b <;> simp [byte, HoldsByte, eq_comm]

theorem word_eq (b : Bytes) :
    Payload.word b =
      if 4 ≤ b.length then .ok (.ofNat (b.field 0 4)) else .error (.badAttribute .shortWord) := by
  by_cases h : 4 ≤ b.length
  · rw [Payload.word, Bytes.cut?_eq, if_pos h, if_pos h]
    rfl
  · rw [Payload.word, Bytes.cut?_eq, if_neg h, if_neg h]

theorem integer_eq (b : Bytes) :
    Payload.integer b =
      if 4 ≤ b.length then .ok (UInt32.ofNat (b.field 0 4)).toInt32
      else .error (.badAttribute .shortInteger) := by
  by_cases h : 4 ≤ b.length
  · rw [Payload.integer, Bytes.cut?_eq, if_pos h, if_pos h]
    rfl
  · rw [Payload.integer, Bytes.cut?_eq, if_neg h, if_neg h]

theorem holdsWord_iff : HoldsWord b word ↔ 4 ≤ b.length ∧ .ofNat (b.field 0 4) = word := by
  rw [HoldsWord, Bytes.ofNatLE_isPrefix_iff word.toNat_lt]
  refine and_congr_right fun h => ?_
  have hfield : (UInt32.ofNat (b.field 0 4)).toNat = b.field 0 4 :=
    UInt32.toNat_ofNat_of_lt' (Bytes.field_lt b 0 4 (by omega))
  rw [← UInt32.toNat_inj, hfield]

theorem word_eq_ok_iff : Payload.word b = .ok word ↔ HoldsWord b word := by
  rw [word_eq, holdsWord_iff]
  split <;> simp_all

theorem integer_eq_ok_iff : Payload.integer b = .ok integer ↔ HoldsInteger b integer := by
  have hcode (w : UInt32) : w.toInt32 = integer ↔ w = integer.toUInt32 := by
    constructor
    · rintro rfl
      exact (UInt32.toUInt32_toInt32 _).symm
    · rintro rfl
      exact Int32.toInt32_toUInt32 _
  rw [integer_eq, HoldsInteger, holdsWord_iff]
  by_cases h : 4 ≤ b.length
  · rw [if_pos h, Except.ok.injEq, hcode]
    exact (and_iff_right h).symm
  · rw [if_neg h]
    exact iff_of_false nofun fun held => h held.1

theorem exists_of_rel {holds : Bytes → α → Prop} {payload : Option Bytes}
    (h : Option.Rel holds payload (some value)) : ∃ b ∈ payload, holds b value := by
  cases h with
  | some holds => exact ⟨_, rfl, holds⟩

/-- What a second payload says counts where the first one is missing. -/
theorem rel_or {holds : Bytes → α → Prop} {first second : Option Bytes} {v w : Option α}
    (h : Option.Rel holds first v) (h' : Option.Rel holds second w) :
    Option.Rel holds (first.or second) (v.or w) := by
  cases h with
  | none => exact h'
  | some holds => exact .some holds

theorem HoldsByte.rightUnique : Relator.RightUnique HoldsByte := by
  intro b code other h h'
  rw [← byte_eq_ok_iff] at h h'
  exact Except.ok.inj (h.symm.trans h')

theorem HoldsWord.rightUnique : Relator.RightUnique HoldsWord := by
  intro b word other h h'
  rw [← word_eq_ok_iff] at h h'
  exact Except.ok.inj (h.symm.trans h')

theorem HoldsInteger.rightUnique : Relator.RightUnique HoldsInteger := by
  intro b integer other h h'
  rw [← integer_eq_ok_iff] at h h'
  exact Except.ok.inj (h.symm.trans h')

/-- What is read of a payload that may be missing is determined if what is read of it is. -/
theorem rightUnique_rel {holds : Bytes → α → Prop} (unique : Relator.RightUnique holds) :
    Relator.RightUnique (Option.Rel holds) := by
  intro payload value other h h'
  cases h with
  | none => cases h'; rfl
  | some h =>
    cases h' with
    | some h' => rw [unique h h']

theorem exists_holdsByte_iff : (∃ code, HoldsByte b code) ↔ 1 ≤ b.length := by
  cases b <;> simp [HoldsByte]

theorem exists_holdsWord_iff : (∃ word, HoldsWord b word) ↔ 4 ≤ b.length := by
  simp [holdsWord_iff]

theorem exists_holdsInteger_iff : (∃ integer, HoldsInteger b integer) ↔ 4 ≤ b.length := by
  constructor
  · rintro ⟨integer, h⟩
    exact (holdsWord_iff.mp h).1
  · intro h
    exact ⟨_, integer_eq_ok_iff.mp (by rw [integer_eq, if_pos h])⟩

theorem address_eq (b : Bytes) (family : UInt8) :
    address family b =
      if family = Family.inet.code then
        if 4 ≤ b.length then .ok (.ofBytes4 (b.take 4)) else .error (.truncated 4 b.length)
      else if family = Family.inet6.code then
        if 16 ≤ b.length then .ok (.ofBytes6 (b.take 16)) else .error (.truncated 16 b.length)
      else .error (.badMessage (.family family)) := by
  simp only [address, Family.code, Bytes.cut?_eq]
  by_cases h₄ : 4 ≤ b.length <;> by_cases h₁₆ : 16 ≤ b.length <;>
    simp only [h₄, h₁₆, if_true, if_false]

theorem ofIp_ofBytes4 (h : b.length = 4) : ofIp (.ofBytes4 b) = b := by
  have hlt : Bytes.toNatBE b < 2 ^ 32 := by
    simpa [h] using Bytes.toNatBE_lt b
  have hwritten := Bytes.ofNatBE_toNatBE b
  rw [h] at hwritten
  rwa [Ip.ofBytes4, ofIp, BitVec.toNat_ofNat, Nat.mod_eq_of_lt hlt]

theorem ofIp_ofBytes6 (h : b.length = 16) : ofIp (.ofBytes6 b) = b := by
  have hlt : Bytes.toNatBE b < 2 ^ 128 := by
    simpa [h] using Bytes.toNatBE_lt b
  have hwritten := Bytes.ofNatBE_toNatBE b
  rw [h] at hwritten
  rwa [Ip.ofBytes6, ofIp, BitVec.toNat_ofNat, Nat.mod_eq_of_lt hlt]

theorem address_ofIp_append (ip : Ip) (rest : Bytes) :
    address (Family.ofIp ip).code (ofIp ip ++ rest) = .ok ip := by
  have h := address_ofIp ip
  rw [address_eq] at h ⊢
  cases ip with
  | v4 bits =>
    have hlength : (ofIp (.v4 bits)).length = 4 := Bytes.length_ofNatBE 4 _
    have htake : (ofIp (.v4 bits) ++ rest).take 4 = (ofIp (.v4 bits)).take 4 :=
      List.take_append_of_le_length hlength.ge
    simpa [Family.ofIp, hlength, htake] using h
  | v6 bits =>
    have hlength : (ofIp (.v6 bits)).length = 16 := Bytes.length_ofNatBE 16 _
    have htake : (ofIp (.v6 bits) ++ rest).take 16 = (ofIp (.v6 bits)).take 16 :=
      List.take_append_of_le_length hlength.ge
    simpa [Family.ofIp, Family.code, hlength, htake] using h

theorem address_eq_ok_iff : address family b = .ok ip ↔ HoldsIp family b ip := by
  constructor
  · intro h
    rw [address_eq] at h
    split at h
    · rename_i hfamily
      split at h
      · rename_i hlength
        cases h
        refine ⟨hfamily.symm, ?_⟩
        rw [ofIp_ofBytes4 (List.length_take_of_le hlength)]
        exact List.take_prefix _ _
      · cases h
    · split at h
      · rename_i hfamily
        split at h
        · rename_i hlength
          cases h
          refine ⟨hfamily.symm, ?_⟩
          rw [ofIp_ofBytes6 (List.length_take_of_le hlength)]
          exact List.take_prefix _ _
        · cases h
      · cases h
  · rintro ⟨rfl, rest, rfl⟩
    exact address_ofIp_append ip rest

theorem ofCode_of_holdsIp (h : HoldsIp family b ip) : Family.ofCode family = Family.ofIp ip := by
  rw [← h.1]
  cases ip <;> rfl

theorem HoldsIp.rightUnique (family : UInt8) : Relator.RightUnique (HoldsIp family) := by
  intro b ip other h h'
  rw [← address_eq_ok_iff] at h h'
  exact Except.ok.inj (h.symm.trans h')

/-- Only the internet families have addresses, which have to be there in full. -/
theorem exists_holdsIp_iff :
    (∃ ip, HoldsIp family b ip) ↔
      family = Family.inet.code ∧ 4 ≤ b.length ∨ family = Family.inet6.code ∧ 16 ≤ b.length := by
  have hcode : Family.inet.code ≠ Family.inet6.code := by decide
  simp only [← address_eq_ok_iff, address_eq]
  by_cases h₄ : family = Family.inet.code
  · subst h₄
    by_cases h : 4 ≤ b.length <;> simp [h, hcode]
  · by_cases h₆ : family = Family.inet6.code
    · subst h₆
      by_cases h : 16 ≤ b.length <;> simp [h, h₄]
    · simp [h₄, h₆]

end Wire.Payload
end VethPeer
