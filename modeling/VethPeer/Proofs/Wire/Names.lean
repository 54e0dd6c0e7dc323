import Mathlib
import VethPeer.Bytes.Codec
import VethPeer.Proofs.Text.Mending
import VethPeer.Wire.Payload

/-! A name in a payload is read strictly or leniently: the two readings agree on what is text, and
where it breaks off the lenient one goes on. -/
namespace VethPeer.Wire.Payload

open Utf8

variable {b part rest : Bytes} {s : String} {fault : Fault}

theorem string_eq_ok_iff : string b = .ok s ↔ b.untilNul = encode s := by
  rw [← decode_eq_ok_iff, string]
  cases decode b.untilNul <;> simp [Except.mapError]

/-- Strict reading fails where no character stands any more, behind the longest text at the front,
and its fault names that place. Lenient reading comes to the same text, and mends what follows. -/
structure Diverges (b : Bytes) (fault : Fault) (s : String) (part rest : Bytes) : Prop where
  breaks : Breaks b.untilNul s part rest
  longest : ∀ t, encode t <+: b.untilNul → encode t <+: encode s
  cause : ∃ defect, fault = .badAttribute (.notUtf8 defect) ∧
    defect.Marks (encode s).length part rest
  index : ∃ words, fault.text = words ++ " from index " ++ toString (encode s).length
  mended : name b = s ++ "\uFFFD" ++ decodeLossy rest

theorem diverges_of_breaks (h : Breaks b.untilNul s part rest) :
    ∃ fault, string b = .error fault ∧ Diverges b fault s part rest := by
  obtain ⟨defect, hmarks, hdecode⟩ := h.decode_eq
  have hstring : string b = .error (.badAttribute (.notUtf8 defect)) := by
    rw [string, hdecode]
    rfl
  refine ⟨_, hstring, h, fun t => h.isPrefix, ⟨defect, rfl, hmarks⟩, ?_, h.decodeLossy_eq⟩
  obtain ⟨words, hwords⟩ := hmarks.message
  have htext : (Fault.badAttribute (.notUtf8 defect)).text =
      "invalid attribute: " ++ ("invalid UTF-8: " ++ defect.message) := rfl
  rw [htext, hwords, ← String.append_assoc, ← String.append_assoc, ← String.append_assoc]
  exact ⟨_, rfl⟩

/-- Both readings take what stands in front of the first zero byte. The strict one succeeds exactly
on the bytes of a text, and the lenient one then gives the same text. Where the strict one fails
the lenient one begins with the longest text at the front and a replacement character, and on the
whole it replaces the maximal subparts at which no character stands and nothing else. -/
theorem name_extends_string :
    (∀ front back : Bytes, 0 ∉ front →
      string (front ++ 0 :: back) = string front ∧ name (front ++ 0 :: back) = name front) ∧
    ∀ b : Bytes,
      (∀ s, string b = .ok s ↔ b.untilNul = encode s) ∧
      (∀ s, string b = .ok s → name b = s) ∧
      (∀ fault, string b = .error fault → ∃ s part rest, Diverges b fault s part rest) ∧
      ∀ s, name b = s ↔ Mended b.untilNul s.toList := by
  refine ⟨fun front back h => ?_, fun b => ⟨fun _ => string_eq_ok_iff, ?_, ?_, ?_⟩⟩
  · rw [string, name, Bytes.untilNul_append_zero h, string, name, Bytes.untilNul_of_not_mem h]
    exact ⟨rfl, rfl⟩
  · intro s h
    rw [name, string_eq_ok_iff.mp h, decodeLossy_encode]
  · intro fault h
    obtain ⟨s, hs⟩ | ⟨s, part, rest, hbreaks⟩ := text_or_breaks b.untilNul
    · cases (string_eq_ok_iff.mpr hs).symm.trans h
    · obtain ⟨fault', hstring, hdiverges⟩ := diverges_of_breaks hbreaks
      obtain rfl := Except.error.inj (h.symm.trans hstring)
      exact ⟨s, part, rest, hdiverges⟩
  · exact fun _ => decodeLossy_eq_iff

/-- A byte that begins no character, and behind the digit two of the three bytes of one. -/
def brokenName : Bytes := [0x76, 0xFF, 0x31, 0xE2, 0x82, 0x00, 0x41]

/-- Two parts are replaced, the second for both its bytes, and the digit between them is kept. -/
theorem name_extends_string_brokenName :
    (string brokenName = string [0x76, 0xFF, 0x31, 0xE2, 0x82] ∧
      name brokenName = name [0x76, 0xFF, 0x31, 0xE2, 0x82]) ∧
    (string [0x6C, 0x6F, 0x00] = .ok "lo" ∧ name [0x6C, 0x6F, 0x00] = "lo") ∧
    string brokenName = .error (.badAttribute (.notUtf8 (.invalid 1 1))) ∧
    (∃ s part rest, Diverges brokenName (.badAttribute (.notUtf8 (.invalid 1 1))) s part rest) ∧
    name brokenName = "v\uFFFD1\uFFFD" ∧
    Mended brokenName.untilNul ['v', '\uFFFD', '1', '\uFFFD'] := by
  obtain ⟨hnul, hread⟩ := name_extends_string
  have hlo : string [0x6C, 0x6F, 0x00] = .ok "lo" := by cbv
  have hbroken : string brokenName = .error (.badAttribute (.notUtf8 (.invalid 1 1))) := by cbv
  have hname : name brokenName = "v\uFFFD1\uFFFD" := by cbv
  obtain ⟨-, -, hdiverges, hmended⟩ := hread brokenName
  exact ⟨hnul [0x76, 0xFF, 0x31, 0xE2, 0x82] [0x41] (by decide), ⟨hlo, (hread _).2.1 _ hlo⟩,
    hbroken, hdiverges _ hbroken, hname, (hmended _).mp hname⟩

end VethPeer.Wire.Payload
