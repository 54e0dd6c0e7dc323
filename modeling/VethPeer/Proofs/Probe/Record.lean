import Mathlib
import VethPeer.Bytes.Codec
import VethPeer.Crew.Worker

/-! The record that carries a worker's answer: what is written is read back, and whatever else is
read is a failure of the worker. -/
namespace VethPeer

variable {b : Bytes} {a : Answer} {n : UInt8}

namespace Cause

theorem ofCode?_code (cause : Cause) : ofCode? cause.code = some cause := by
  cases cause <;> rfl

theorem code_ne_zero (cause : Cause) : cause.code ≠ 0 := by
  cases cause <;> decide

/-- Three codes tell of a failure that is not the worker's own. -/
theorem getD_ofCode?_ne_worker_iff :
    (ofCode? n).getD .worker ≠ .worker ↔ n ≠ 0 ∧ n ≤ 3 := by
  unfold ofCode?
  split_ifs with h₁ h₂ h₃ h₄
  · simp [h₁]
  · subst h₂; decide
  · subst h₃; decide
  · subst h₄; decide
  · have hn : n ≠ 0 → ¬ n ≤ 3 := by grind
    simpa using hn

end Cause

namespace Answer

/-- The index in four bytes, the highest first. -/
def peerIndex (p₃ p₂ p₁ p₀ : UInt8) : Int32 :=
  (UInt32.ofNat (Bytes.toNatBE [p₃, p₂, p₁, p₀])).toInt32

/-- What a report tells of an answer: an index that stands for no other end is none. -/
def reported : Answer → Answer
  | .found peer => .found (if peer = some noPeer then none else peer)
  | a => a

theorem reported_reported (a : Answer) : a.reported.reported = a.reported := by
  cases a with
  | found peer => by_cases hp : peer = some noPeer <;> simp [reported, hp]
  | absent => rfl
  | failed cause => rfl

@[simp] theorem length_record (a : Answer) : a.record.length = recordSize := by
  simp [record, recordSize]

theorem ofRecord_of_length_ne (h : b.length ≠ recordSize) : ofRecord b = .failed .worker := by
  rw [ofRecord, if_pos h]

/-- Everything that a record of the right size can say. -/
theorem ofRecord_bytes (first p₃ p₂ p₁ p₀ last : UInt8) :
    ofRecord [first, p₃, p₂, p₁, p₀, last] =
      if first = 0 then
        if last = 0 then .absent else .failed ((Cause.ofCode? last).getD .worker)
      else if first = 1 ∧ last = 0 then
        reported (.found (some (peerIndex p₃ p₂ p₁ p₀)))
      else .failed .worker := by
  have hfirst : [first, p₃, p₂, p₁, p₀, last].head? = some first := rfl
  have hlast : [first, p₃, p₂, p₁, p₀, last].getLastD 0 = last := rfl
  have hpeer : ([first, p₃, p₂, p₁, p₀, last].drop 1).take 4 = [p₃, p₂, p₁, p₀] := rfl
  simp only [ofRecord, hlast, hfirst, hpeer, Option.some.injEq, reported, peerIndex]
  cases Cause.ofCode? last <;> simp [recordSize]

theorem exists_bytes (h : b.length = recordSize) :
    ∃ first p₃ p₂ p₁ p₀ last, b = [first, p₃, p₂, p₁, p₀, last] := by
  match b, h with
  | [first, p₃, p₂, p₁, p₀, last], _ => exact ⟨first, p₃, p₂, p₁, p₀, last, rfl⟩

/-- A record has its index where the reader looks for it. -/
theorem exists_record_eq (a : Answer) :
    ∃ p₃ p₂ p₁ p₀, a.record = [if a.isFound then 1 else 0, p₃, p₂, p₁, p₀,
        match a.cause? with | some cause => cause.code | none => 0] ∧
      peerIndex p₃ p₂ p₁ p₀ = a.peer?.getD noPeer := by
  refine ⟨_, _, _, _, rfl, ?_⟩
  have hlt : (a.peer?.getD noPeer).toUInt32.toNat < 256 ^ 4 := UInt32.toNat_lt _
  change (UInt32.ofNat (Bytes.toNatBE
    (Bytes.ofNatBE 4 (a.peer?.getD noPeer).toUInt32.toNat))).toInt32 = _
  rw [Bytes.toNatBE_ofNatBE, Nat.mod_eq_of_lt hlt, UInt32.ofNat_toNat, Int32.toInt32_toUInt32]

theorem ofRecord_record (a : Answer) : ofRecord a.record = a.reported := by
  obtain ⟨p₃, p₂, p₁, p₀, hr, hp⟩ := exists_record_eq a
  rw [hr, ofRecord_bytes, hp]
  cases a with
  | found peer => cases peer <;> rfl
  | absent => rfl
  | failed cause =>
    simp [isFound, cause?, Cause.code_ne_zero, Cause.ofCode?_code, reported]

/-- No report tells of an index that stands for none. -/
theorem reported_ofRecord (b : Bytes) : (ofRecord b).reported = ofRecord b := by
  by_cases hl : b.length = recordSize
  · obtain ⟨first, p₃, p₂, p₁, p₀, last, rfl⟩ := exists_bytes hl
    rw [ofRecord_bytes]
    split_ifs
    · rfl
    · rfl
    · exact reported_reported _
    · rfl
  · rw [ofRecord_of_length_ne hl]
    rfl

theorem ofRecord_ne_worker_iff (b : Bytes) :
    ofRecord b ≠ .failed .worker ↔
      ∃ first p₃ p₂ p₁ p₀ last, b = [first, p₃, p₂, p₁, p₀, last] ∧
        (first = 0 ∧ last ≤ 3 ∨ first = 1 ∧ last = 0) := by
  constructor
  · intro h
    have hl : b.length = recordSize := by
      by_contra hl
      exact h (ofRecord_of_length_ne hl)
    obtain ⟨first, p₃, p₂, p₁, p₀, last, rfl⟩ := exists_bytes hl
    refine ⟨first, p₃, p₂, p₁, p₀, last, rfl, ?_⟩
    rw [ofRecord_bytes] at h
    split_ifs at h with hf hz hs
    · exact Or.inl ⟨hf, by simp [hz]⟩
    · have hc : (Cause.ofCode? last).getD .worker ≠ .worker := by simpa using h
      exact Or.inl ⟨hf, (Cause.getD_ofCode?_ne_worker_iff.mp hc).2⟩
    · exact Or.inr hs
    · exact (h rfl).elim
  · rintro ⟨first, p₃, p₂, p₁, p₀, last, rfl, ⟨rfl, hn⟩ | ⟨rfl, rfl⟩⟩
    · rw [ofRecord_bytes, if_pos rfl]
      by_cases hz : last = 0
      · simp [hz]
      · simpa [hz] using Cause.getD_ofCode?_ne_worker_iff.mpr ⟨hz, hn⟩
    · rw [ofRecord_bytes]
      simp [reported]

/-- One byte more than a record has is enough to read. -/
theorem ofRecord_take (b : Bytes) : ofRecord (b.take Worker.readLimit) = ofRecord b := by
  by_cases hl : b.length ≤ Worker.readLimit
  · rw [List.take_of_length_le hl]
  · have hlong : b.length ≠ recordSize := by
      simp only [Worker.readLimit] at hl
      omega
    have hcut : (b.take Worker.readLimit).length ≠ recordSize := by
      simp only [Worker.readLimit] at hl ⊢
      rw [List.length_take]
      omega
    rw [ofRecord_of_length_ne hlong, ofRecord_of_length_ne hcut]

end Answer

/-- Whatever bytes come in, they are read as one well-formed finding for the candidate, which is a
failure of the worker unless they are a record of six bytes that says something else. What is
written is read back up to the index that stands for none, so to write down and read what was read
changes nothing. Seven bytes are enough to read, so a worker that ends in time is judged by all
that it wrote and by nothing else. -/
theorem Finding.ofRecord_faithful (candidate : UInt32) (b : Bytes) (a : Answer) :
    ((∃ peer, peer ≠ some (-1) ∧ ofRecord candidate b = ⟨candidate, .found peer⟩) ∨
        ofRecord candidate b = ⟨candidate, .absent⟩ ∨
        ∃ cause, ofRecord candidate b = ⟨candidate, .failed cause⟩) ∧
      (ofRecord candidate b ≠ ⟨candidate, .failed .worker⟩ ↔
        ∃ first p₃ p₂ p₁ p₀ last, b = [first, p₃, p₂, p₁, p₀, last] ∧
          (first = 0 ∧ last ≤ 3 ∨ first = 1 ∧ last = 0)) ∧
      ofRecord candidate (record ⟨candidate, a⟩) =
        ⟨candidate, if a = .found (some (-1)) then .found none else a⟩ ∧
      ofRecord candidate (ofRecord candidate b).record = ofRecord candidate b ∧
      ofRecord candidate (b.take 7) = ofRecord candidate b ∧
      ∀ status leaves, Worker.outcome ⟨b, .exits status, leaves⟩ candidate =
        ⟨ofRecord candidate b, status⟩ := by
  have hread : ofRecord candidate (b.take 7) = ofRecord candidate b :=
    congrArg (Finding.mk candidate) (Answer.ofRecord_take b)
  refine ⟨?_, ?_, ?_, ?_, hread, ?_⟩
  · have hr := Answer.reported_ofRecord b
    simp only [ofRecord, mk.injEq, true_and]
    cases ho : Answer.ofRecord b with
    | found peer =>
      refine Or.inl ⟨peer, ?_, rfl⟩
      rintro rfl
      rw [ho] at hr
      cases hr
    | absent => exact Or.inr (Or.inl rfl)
    | failed cause => exact Or.inr (Or.inr ⟨cause, rfl⟩)
  · rw [← Answer.ofRecord_ne_worker_iff]
    simp [ofRecord]
  · simp only [ofRecord, record, Answer.ofRecord_record, mk.injEq, true_and]
    cases a with
    | found peer => by_cases hp : peer = some (-1) <;> simp [Answer.reported, Answer.noPeer, hp]
    | absent => rfl
    | failed cause => rfl
  · simp only [ofRecord, record, Answer.ofRecord_record, Answer.reported_ofRecord]
  · intro status leaves
    exact congrArg (Outcome.mk · status) hread

end VethPeer
