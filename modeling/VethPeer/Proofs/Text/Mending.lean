import Mathlib
import VethPeer.Proofs.Text.Characters

/-! Strict reading takes exactly the bytes that a text is written as. Elsewhere it breaks off behind
the longest text at the front, and lenient reading goes on with a replacement character. -/
namespace VethPeer.Utf8

open String (utf8EncodeChar)

variable {b text part rest : Bytes} {s t : String} {cs cs' : List Char} {defect : Defect}
  {index : ℕ}

/-- The characters of a byte string when each maximal subpart at which none stands is replaced. -/
inductive Mended : Bytes → List Char → Prop
  | ended : Mended [] []
  | char {c : Char} {rest : Bytes} {cs : List Char} (tail : Mended rest cs) :
      Mended (utf8EncodeChar c ++ rest) (c :: cs)
  | broken {part rest : Bytes} {cs : List Char} (bad : MaximalSubpart part (part ++ rest))
      (tail : Mended rest cs) : Mended (part ++ rest) ('\uFFFD' :: cs)

theorem toList_decodeLossy_nil : (decodeLossy []).toList = [] := by
  simp [decodeLossy, pieces_nil]

theorem toList_decodeLossy_char (c : Char) (rest : Bytes) :
    (decodeLossy (utf8EncodeChar c ++ rest)).toList = c :: (decodeLossy rest).toList := by
  simp [decodeLossy, pieces_char]

theorem toList_decodeLossy_broken (bad : MaximalSubpart part (part ++ rest)) :
    (decodeLossy (part ++ rest)).toList = '\uFFFD' :: (decodeLossy rest).toList := by
  obtain ⟨ended, -, hpieces⟩ := pieces_broken bad
  simp [decodeLossy, hpieces]

theorem mended_decodeLossy (text : Bytes) : Mended text (decodeLossy text).toList := by
  induction text using front_induction with
  | empty =>
    rw [toList_decodeLossy_nil]
    exact .ended
  | char c rest ih =>
    rw [toList_decodeLossy_char]
    exact .char ih
  | broken part rest bad ih =>
    rw [toList_decodeLossy_broken bad]
    exact .broken bad ih

theorem Mended.toList_decodeLossy (h : Mended text cs) : (decodeLossy text).toList = cs := by
  induction h with
  | ended => exact toList_decodeLossy_nil
  | char tail ih => rw [toList_decodeLossy_char, ih]
  | broken bad tail ih => rw [toList_decodeLossy_broken bad, ih]

/-- Every byte string is mended to one text. -/
theorem decodeLossy_eq_iff : decodeLossy text = s ↔ Mended text s.toList := by
  constructor
  · rintro rfl
    exact mended_decodeLossy text
  · intro h
    exact String.toList_inj.mp h.toList_decodeLossy

theorem toList_decodeLossy_encode_append (s : String) (rest : Bytes) :
    (decodeLossy (encode s ++ rest)).toList = s.toList ++ (decodeLossy rest).toList := by
  rw [encode]
  induction s.toList with
  | nil => rfl
  | cons c cs ih =>
    rw [List.flatMap_cons, List.append_assoc, toList_decodeLossy_char, ih, List.cons_append]

theorem decodeLossy_encode (s : String) : decodeLossy (encode s) = s := by
  have h := toList_decodeLossy_encode_append s []
  rw [List.append_nil, toList_decodeLossy_nil, List.append_nil] at h
  exact String.toList_inj.mp h

/-- Text in ASCII is read byte by byte. -/
theorem decodeLossy_ascii (h : ∀ c ∈ b, c < 0x80) :
    decodeLossy b = String.ofList (b.map fun c => Char.ofNat c.toNat) := by
  have hencode : encode (String.ofList (b.map fun c => Char.ofNat c.toNat)) = b := by
    rw [encode, String.toList_ofList, List.flatMap_map]
    induction b with
    | nil => rfl
    | cons c b ih =>
      have hc : utf8EncodeChar (Char.ofNat c.toNat) = [c] :=
        encode_one (UInt8.lt_iff_toNat_lt.mp (h c (by simp)))
      rw [List.flatMap_cons, hc, ih fun d hd => h d (by simp [hd])]
      rfl
  rw [← hencode, decodeLossy_encode, hencode]

theorem characters_encode_append (index : ℕ) (s : String) (rest : Bytes) :
    characters index (pieces (encode s ++ rest)) =
      (characters (index + (encode s).length) (pieces rest)).map (s.toList ++ ·) := by
  rw [encode]
  induction s.toList generalizing index with
  | nil =>
    simp only [List.flatMap_nil, List.nil_append, List.length_nil, Nat.add_zero]
    cases characters index (pieces rest) <;> rfl
  | cons c cs ih =>
    rw [List.flatMap_cons, List.append_assoc, pieces_char, characters, ih, List.length_append,
      ← Nat.add_assoc]
    cases characters (index + (utf8EncodeChar c).length + (cs.flatMap utf8EncodeChar).length)
      (pieces rest) <;> rfl

theorem decode_encode (s : String) : decode (encode s) = .ok s := by
  have h := characters_encode_append 0 s []
  rw [List.append_nil, pieces_nil] at h
  simp [decode, h, characters, Except.map]

/-- The bytes are the text `s` up to a place where no character stands. -/
structure Breaks (text : Bytes) (s : String) (part rest : Bytes) : Prop where
  split : text = encode s ++ (part ++ rest)
  bad : MaximalSubpart part (part ++ rest)

theorem text_or_breaks (text : Bytes) :
    (∃ s, text = encode s) ∨ ∃ s part rest, Breaks text s part rest := by
  induction text using front_induction with
  | empty => exact .inl ⟨"", rfl⟩
  | char c rest ih =>
    have hencode (s : String) : utf8EncodeChar c ++ encode s = encode (String.ofList [c] ++ s) := by
      simp [encode]
    obtain ⟨s, rfl⟩ | ⟨s, part, rest, rfl, hbad⟩ := ih
    · exact .inl ⟨_, hencode s⟩
    · exact .inr ⟨_, part, rest, by rw [← hencode, List.append_assoc], hbad⟩
  | broken part rest bad => exact .inr ⟨"", part, rest, rfl, bad⟩

theorem isPrefix_of_no_char (hno : ∀ c, ¬ utf8EncodeChar c <+: rest)
    (h : cs.flatMap utf8EncodeChar <+: cs'.flatMap utf8EncodeChar ++ rest) : cs <+: cs' := by
  induction cs generalizing cs' with
  | nil => exact List.nil_prefix
  | cons c cs ih =>
    rw [List.flatMap_cons] at h
    cases cs' with
    | nil => exact absurd ((List.prefix_append _ _).trans h) (hno c)
    | cons d ds =>
      rw [List.flatMap_cons, List.append_assoc] at h
      obtain ⟨more, hmore⟩ := h
      rw [List.append_assoc] at hmore
      obtain rfl := eq_of_encode_append hmore
      exact List.cons_prefix_cons.mpr ⟨rfl, ih ⟨more, List.append_cancel_left hmore⟩⟩

/-- What a defect says of a part that stands at `index`, with `rest` behind it. -/
inductive Defect.Marks (index : ℕ) (part rest : Bytes) : Defect → Prop
  | incomplete (last : rest = []) (begun : Begins part) : Marks index part rest (.incomplete index)
  | invalid (wrong : ¬(rest = [] ∧ Begins part)) :
      Marks index part rest (.invalid part.length index)

theorem Defect.Marks.message (h : Marks index part rest defect) :
    ∃ words, defect.message = words ++ " from index " ++ toString index := by
  cases h with
  | incomplete =>
    have hwords : "incomplete utf-8 byte sequence" ++ " from index " =
        "incomplete utf-8 byte sequence from index " := by decide +kernel
    exact ⟨_, congrArg (· ++ toString index) hwords.symm⟩
  | invalid =>
    have hwords : " bytes" ++ " from index " = " bytes from index " := by decide +kernel
    have hmessage : (Defect.invalid part.length index).message =
        "invalid utf-8 sequence of " ++ toString part.length ++ " bytes from index " ++
          toString index := rfl
    rw [hmessage, ← hwords, ← String.append_assoc]
    exact ⟨_, rfl⟩

namespace Breaks

theorem isPrefix (h : Breaks text s part rest) (ht : encode t <+: text) :
    encode t <+: encode s := by
  rw [h.split] at ht
  obtain ⟨more, hmore⟩ := isPrefix_of_no_char h.bad.no_char ht
  refine ⟨more.flatMap utf8EncodeChar, ?_⟩
  rw [encode, encode, ← List.flatMap_append, hmore]

theorem decode_eq (h : Breaks text s part rest) :
    ∃ defect, Defect.Marks (encode s).length part rest defect ∧ decode text = .error defect := by
  obtain ⟨ended, hends, hpieces⟩ := pieces_broken h.bad
  have hread := characters_encode_append 0 s (part ++ rest)
  rw [← h.split, hpieces, characters, Nat.zero_add] at hread
  cases ended with
  | true =>
    obtain ⟨hlast, hbegun⟩ := hends.mp rfl
    exact ⟨_, .incomplete hlast hbegun, by rw [decode, hread]; rfl⟩
  | false =>
    exact ⟨_, .invalid fun hwrong => absurd (hends.mpr hwrong) nofun, by rw [decode, hread]; rfl⟩

theorem decodeLossy_eq (h : Breaks text s part rest) :
    decodeLossy text = s ++ "\uFFFD" ++ decodeLossy rest := by
  apply String.toList_inj.mp
  rw [h.split, toList_decodeLossy_encode_append, toList_decodeLossy_broken h.bad]
  simp

end Breaks

theorem decode_eq_ok_iff : decode text = .ok s ↔ text = encode s := by
  constructor
  · intro h
    obtain ⟨t, rfl⟩ | ⟨t, part, rest, hbreaks⟩ := text_or_breaks text
    · rw [decode_encode] at h
      rw [Except.ok.inj h]
    · obtain ⟨defect, -, hdecode⟩ := hbreaks.decode_eq
      cases h.symm.trans hdecode
  · rintro rfl
    exact decode_encode s

end VethPeer.Utf8
