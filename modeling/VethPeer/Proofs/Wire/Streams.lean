import Mathlib
import VethPeer.Proofs.Wire.Attributes

/-! Attributes lie in a byte string without gap or overlap, from its start to where no attribute is,
and both readers of attributes find them there. -/
namespace VethPeer.Wire

variable {a : RawAttribute} {as : List RawAttribute} {b data rest : Bytes} {n : ℕ}

namespace RawAttribute

/-- The length field has room for the length. -/
def Fits (a : RawAttribute) : Prop := AttributeHeader.size + a.payload.length < 65536

instance (a : RawAttribute) : Decidable a.Fits := inferInstanceAs (Decidable (_ < _))

/-- How many bytes there are after the attribute up to the next multiple of four. -/
def gap (a : RawAttribute) : ℕ := Bytes.aligned a.bytes.length - a.bytes.length

/-- The length that a header at the start of these bytes declares. -/
def declared (b : Bytes) : ℕ := b.field 0 2

/-- The attribute that these bytes declare. -/
def ofDeclared (b : Bytes) : RawAttribute :=
  ⟨.ofNat (b.field 2 2), (b.take (declared b)).drop AttributeHeader.size⟩

/-- An attribute stands at the start of the bytes. -/
def Starts (b : Bytes) : Prop := AttributeHeader.size ≤ declared b ∧ declared b ≤ b.length

instance (b : Bytes) : Decidable (Starts b) := inferInstanceAs (Decidable (_ ∧ _))

/-- These attributes lie at the start of the bytes one after the other, and `rest` follows. What is
skipped after an attribute brings it to the next multiple of four, unless the bytes end before. -/
inductive Tiles : Bytes → List RawAttribute → Bytes → Prop
  | nil (rest : Bytes) : Tiles rest [] rest
  | cons {a : RawAttribute} {as : List RawAttribute} {skipped more rest : Bytes} (fits : a.Fits)
      (most : skipped.length ≤ a.gap) (full : more ≠ [] → skipped.length = a.gap)
      (tail : Tiles more as rest) : Tiles (a.bytes ++ skipped ++ more) (a :: as) rest

/-- There are bytes, but no attribute at their start, which shows after `n` of them: after the
fields that could be read of its header. -/
inductive Breaks : Bytes → ℕ → Prop
  | short {rest : Bytes} (more : rest ≠ []) (few : rest.length < AttributeHeader.size) :
      Breaks rest (rest.length / 2 * 2)
  | length {rest : Bytes} (header : AttributeHeader.size ≤ rest.length)
      (bad : declared rest < AttributeHeader.size ∨ rest.length < declared rest) :
      Breaks rest AttributeHeader.size

theorem length_bytes (a : RawAttribute) :
    a.bytes.length = AttributeHeader.size + a.payload.length := by
  simp [bytes]

theorem field_length (fits : a.Fits) (more : Bytes) :
    declared (a.bytes ++ more) = AttributeHeader.size + a.payload.length := by
  have hlength : (UInt16.ofNat (AttributeHeader.size + a.payload.length)).toNat =
      AttributeHeader.size + a.payload.length := UInt16.toNat_ofNat_of_lt' fits
  rw [declared, bytes, AttributeHeader.bytes, List.append_assoc, List.append_assoc,
    Bytes.field_ofNatLE, hlength]
  exact Nat.mod_eq_of_lt fits

theorem field_type (a : RawAttribute) (more : Bytes) :
    (a.bytes ++ more).field 2 2 = a.type.toNat := by
  rw [bytes, AttributeHeader.bytes, List.append_assoc, List.append_assoc,
    Bytes.field_append (by simp), Bytes.length_ofNatLE, Nat.sub_self, Bytes.field_ofNatLE]
  exact Nat.mod_eq_of_lt a.type.toNat_lt

/-- An attribute that is written is declared by its bytes, whatever follows them. -/
theorem ofDeclared_bytes_append (fits : a.Fits) (more : Bytes) :
    ofDeclared (a.bytes ++ more) = a := by
  have hpayload : a.bytes.drop AttributeHeader.size = a.payload :=
    List.drop_left' (AttributeHeader.length_bytes _)
  rw [ofDeclared, field_type, field_length fits, List.take_left' (length_bytes a), hpayload,
    UInt16.ofNat_toNat]

theorem starts_bytes_append (fits : a.Fits) (more : Bytes) : Starts (a.bytes ++ more) := by
  rw [Starts, field_length fits, List.length_append, length_bytes]
  omega

/-- Bytes that declare an attribute are the attribute as it is written. -/
theorem bytes_ofDeclared (h : Starts b) : (ofDeclared b).bytes = b.take (declared b) := by
  obtain ⟨hs, hd⟩ := h
  rw [AttributeHeader.size] at hs
  have hlength := Bytes.field_lt b 0 2 (by omega)
  have htype := Bytes.field_lt b 2 2 (by omega)
  have hfield : AttributeHeader.size + (ofDeclared b).payload.length = b.field 0 2 := by
    rw [ofDeclared, List.length_drop, List.length_take_of_le hd, AttributeHeader.size, declared]
    rw [declared] at hs
    omega
  have hheader : b.take AttributeHeader.size = (b.take (declared b)).take AttributeHeader.size := by
    rw [List.take_take, AttributeHeader.size, Nat.min_eq_left hs]
  rw [bytes, hfield, AttributeHeader.bytes, ofDeclared, UInt16.toNat_ofNat_of_lt' hlength,
    UInt16.toNat_ofNat_of_lt' htype, Bytes.ofNatLE_field (by omega), Bytes.ofNatLE_field (by omega),
    List.drop_zero, ← List.take_add]
  exact (congrArg (· ++ _) hheader).trans (List.take_append_drop AttributeHeader.size _)

theorem fits_ofDeclared (h : Starts b) : (ofDeclared b).Fits := by
  obtain ⟨hs, hd⟩ := h
  rw [AttributeHeader.size] at hs
  have hlength : declared b < 256 ^ 2 := Bytes.field_lt b 0 2 (by omega)
  rw [Fits, ofDeclared, List.length_drop, List.length_take_of_le hd, AttributeHeader.size]
  omega

/-- An attribute that starts the bytes is a tile of them, and so is every tile. -/
theorem starts_iff :
    Starts data ∧ a = ofDeclared data ∧ rest = data.drop (Bytes.aligned (declared data)) ↔
      a.Fits ∧ ∃ skipped, data = a.bytes ++ skipped ++ rest ∧ skipped.length ≤ a.gap ∧
        (rest ≠ [] → skipped.length = a.gap) := by
  constructor
  · rintro ⟨h, rfl, rfl⟩
    have hbytes := bytes_ofDeclared h
    have hgap : declared data + (ofDeclared data).gap = Bytes.aligned (declared data) := by
      rw [gap, hbytes, List.length_take_of_le h.2]
      exact Nat.add_sub_cancel' (Bytes.le_aligned _)
    obtain ⟨skipped, hskipped, most, full⟩ :=
      Bytes.exists_skipped (data.drop (declared data)) (ofDeclared data).gap
    rw [List.drop_drop, hgap] at hskipped full
    refine ⟨fits_ofDeclared h, skipped, ?_, most, full⟩
    rw [hbytes, List.append_assoc, ← hskipped, List.take_append_drop]
  · rintro ⟨fits, skipped, rfl, most, full⟩
    rw [List.append_assoc]
    refine ⟨starts_bytes_append fits _, (ofDeclared_bytes_append fits _).symm, ?_⟩
    have hlength : declared (a.bytes ++ (skipped ++ rest)) = a.bytes.length := by
      rw [field_length fits, length_bytes]
    rw [hlength, List.drop_append, List.drop_of_length_le (Bytes.le_aligned _), List.nil_append]
    exact (Bytes.drop_skipped most full).symm

theorem tile_of_starts (h : Starts data) :
    (ofDeclared data).Fits ∧ ∃ skipped,
      data = (ofDeclared data).bytes ++ skipped ++ data.drop (Bytes.aligned (declared data)) ∧
      skipped.length ≤ (ofDeclared data).gap ∧
      (data.drop (Bytes.aligned (declared data)) ≠ [] → skipped.length = (ofDeclared data).gap) :=
  starts_iff.mp ⟨h, rfl, rfl⟩

/-- Bytes that are not over start with an attribute or do not go on as a stream of them. -/
theorem breaks_iff :
    Breaks data n ↔ data ≠ [] ∧ ¬ Starts data ∧
      n = if data.length < AttributeHeader.size then data.length / 2 * 2
        else AttributeHeader.size := by
  constructor
  · intro h
    cases h with
    | short more few =>
      refine ⟨more, fun h => ?_, (if_pos few).symm⟩
      have := h.1
      have := h.2
      omega
    | length header bad =>
      refine ⟨?_, fun h => ?_, (if_neg (by omega)).symm⟩
      · rintro rfl
        exact absurd header (by decide)
      · have := h.1
        have := h.2
        omega
  · rintro ⟨more, hstarts, rfl⟩
    by_cases few : data.length < AttributeHeader.size
    · rw [if_pos few]
      exact .short more few
    · rw [if_neg few]
      exact .length (by omega) (by rw [Starts] at hstarts; omega)

theorem starts_or_breaks (hn : data ≠ []) : Starts data ∨ ∃ n, Breaks data n := by
  by_cases h : Starts data
  · exact .inl h
  · exact .inr ⟨_, breaks_iff.mpr ⟨hn, h, rfl⟩⟩

theorem Starts.ne_nil (h : Starts data) : data ≠ [] := by
  rintro rfl
  exact absurd h (by decide)

theorem Breaks.ne_nil (h : Breaks data n) : data ≠ [] := (breaks_iff.mp h).1

theorem Breaks.le_length (h : Breaks data n) : n ≤ data.length := by
  cases h with
  | short => omega
  | length header => exact header

theorem Tiles.length_le (h : Tiles data as rest) : rest.length ≤ data.length := by
  induction h with
  | nil => exact le_rfl
  | cons _ _ _ _ ih =>
    simp only [List.length_append]
    omega

theorem Tiles.of_starts (h : Starts data)
    (tail : Tiles (data.drop (Bytes.aligned (declared data))) as rest) :
    Tiles data (ofDeclared data :: as) rest := by
  obtain ⟨fits, skipped, hdata, most, full⟩ := tile_of_starts h
  have htiles := Tiles.cons fits most full tail
  rwa [← hdata] at htiles

/-- Every byte string is tiled by its attributes up to where no attribute is. -/
theorem exists_tiles (data : Bytes) :
    ∃ as rest, Tiles data as rest ∧ (rest = [] ∨ ∃ n, Breaks rest n) := by
  induction hlength : data.length using Nat.strong_induction_on generalizing data with
  | _ length ih =>
    by_cases hn : data = []
    · subst hn
      exact ⟨[], [], .nil [], .inl rfl⟩
    · rcases starts_or_breaks hn with hstarts | hbreaks
      · have hless : (data.drop (Bytes.aligned (declared data))).length < length := by
          have := hstarts.1
          have := hstarts.2
          have := Bytes.le_aligned (declared data)
          rw [List.length_drop]
          rw [AttributeHeader.size] at *
          omega
        obtain ⟨as, rest, htiles, hends⟩ := ih _ hless _ rfl
        exact ⟨_, rest, .of_starts hstarts htiles, hends⟩
      · exact ⟨[], data, .nil data, .inr hbreaks⟩

end RawAttribute

open RawAttribute

namespace Cursor

theorem half_eq (data : Bytes) :
    half data =
      if data.length < 2 then .error ⟨.partialHeader, data.length⟩
      else .ok (.ofNat (data.field 0 2), data.drop 2) := by
  by_cases h : data.length < 2
  · rw [half, Bytes.cut?_eq, if_neg (by omega), if_pos h]
  · rw [half, Bytes.cut?_eq, if_pos (by omega), if_neg h]
    rfl

/-- What is read of a byte string, by the length that it declares. -/
theorem next_eq (data : Bytes) :
    next data =
      if data.length < AttributeHeader.size then .error ⟨.partialHeader, data.length % 2⟩
      else if Starts data then
        .ok ((ofDeclared data).toAttribute, data.drop (Bytes.aligned (declared data)))
      else .error ⟨.rejected, data.length - AttributeHeader.size⟩ := by
  have hdrop : (data.drop 2).length = data.length - 2 := List.length_drop
  by_cases h₂ : data.length < 2
  · have hmod : data.length % 2 = data.length := Nat.mod_eq_of_lt h₂
    have hsize : data.length < AttributeHeader.size := by rw [AttributeHeader.size]; omega
    rw [if_pos hsize, hmod, next, half_eq, if_pos h₂]
    rfl
  · by_cases h₄ : data.length < AttributeHeader.size
    · have htype : half (data.drop 2) = .error ⟨.partialHeader, data.length % 2⟩ := by
        rw [AttributeHeader.size] at h₄
        rw [half_eq, if_pos (by omega), hdrop, show data.length - 2 = data.length % 2 by omega]
      rw [if_pos h₄, next, half_eq, if_neg h₂]
      simp only [bind, Except.bind, htype]
    · rw [AttributeHeader.size] at h₄
      have htype : half (data.drop 2) = .ok (.ofNat (data.field 2 2), data.drop (2 + 2)) := by
        rw [half_eq, if_neg (by omega), List.drop_drop]
        rfl
      have hlength : (UInt16.ofNat (data.field 0 2)).toNat = declared data :=
        UInt16.toNat_ofNat_of_lt' (Bytes.field_lt data 0 2 (by omega))
      rw [AttributeHeader.size, if_neg h₄, next, half_eq, if_neg h₂]
      simp only [bind, Except.bind, htype, hlength, Bytes.cut?_eq, List.length_drop, List.drop_drop,
        AttributeHeader.size]
      by_cases hs : declared data < 4
      · rw [if_pos hs, if_neg (fun h : Starts data => absurd hs (not_lt.mpr h.1))]
      · by_cases hd : declared data ≤ data.length
        · have hstarts : Starts data := ⟨not_lt.mp hs, hd⟩
          have hcut : declared data - 4 ≤ data.length - (2 + 2) := by omega
          have hrest : 2 + 2 + (declared data - 4) +
              (Bytes.aligned (declared data) - declared data) = Bytes.aligned (declared data) := by
            have := Bytes.le_aligned (declared data)
            omega
          simp only [if_neg hs, if_pos hcut, if_pos hstarts, hrest, toAttribute, ofDeclared, kind,
            List.drop_take, List.drop_drop, AttributeHeader.size]
        · have hcut : ¬ declared data - 4 ≤ data.length - (2 + 2) := by omega
          simp only [if_neg hs, if_neg hcut, if_neg (fun h : Starts data => absurd h.2 hd)]

theorem next_of_starts (h : Starts data) :
    next data = .ok ((ofDeclared data).toAttribute, data.drop (Bytes.aligned (declared data))) := by
  have hsize : ¬ data.length < AttributeHeader.size := not_lt.mpr (h.1.trans h.2)
  rw [next_eq, if_neg hsize, if_pos h]

theorem next_of_breaks (h : Breaks data n) :
    ∃ reason, next data = .error ⟨reason, data.length - n⟩ := by
  obtain ⟨-, hstarts, rfl⟩ := breaks_iff.mp h
  rw [next_eq]
  by_cases few : data.length < AttributeHeader.size
  · have hleft : data.length - data.length / 2 * 2 = data.length % 2 := by omega
    rw [if_pos few, if_pos few, hleft]
    exact ⟨_, rfl⟩
  · rw [if_neg few, if_neg few, if_neg hstarts]
    exact ⟨_, rfl⟩

end Cursor

namespace Attribute

/-- The reader of nested attributes reads the same. -/
theorem next_eq (data : Bytes) :
    next data =
      if data.length < AttributeHeader.size then
        .error (.truncated AttributeHeader.size data.length)
      else if Starts data then
        .ok ((ofDeclared data).toAttribute, data.drop (Bytes.aligned (declared data)))
      else .error (.badAttribute (.length (ofDeclared data).kind (declared data) data.length)) := by
  by_cases h₄ : data.length < AttributeHeader.size
  · have hread : AttributeHeader.read data =
        .error (.truncated AttributeHeader.size data.length) := by
      rw [AttributeHeader.read, Bytes.cut?_eq, if_neg (by omega)]
    simp only [next, hread, bind, Except.bind, if_pos h₄]
  · have hread : AttributeHeader.read data =
        .ok ⟨.ofNat (data.field 0 2), .ofNat (data.field 2 2)⟩ := by
      rw [AttributeHeader.read, Bytes.cut?_eq, if_pos (by omega)]
      simp only [Bytes.field_take (show 0 + 2 ≤ AttributeHeader.size by decide),
        Bytes.field_take (show 2 + 2 ≤ AttributeHeader.size by decide)]
    have hheader : 0 + 2 ≤ data.length := by
      rw [AttributeHeader.size] at h₄
      omega
    have hlength : (UInt16.ofNat (data.field 0 2)).toNat = declared data :=
      UInt16.toNat_ofNat_of_lt' (Bytes.field_lt data 0 2 hheader)
    simp only [next, hread, bind, Except.bind, if_neg h₄, hlength, Bytes.cut?_eq]
    by_cases hs : declared data < AttributeHeader.size
    · rw [if_pos hs, if_neg (fun h : Starts data => absurd hs (not_lt.mpr h.1))]
      rfl
    · by_cases hd : declared data ≤ data.length
      · have hstarts : Starts data := ⟨not_lt.mp hs, hd⟩
        simp only [if_neg hs, if_pos hd, if_pos hstarts, toAttribute, ofDeclared,
          RawAttribute.kind, AttributeHeader.kind]
      · simp only [if_neg hs, if_neg hd, if_neg (fun h : Starts data => absurd h.2 hd)]
        rfl

theorem next_of_starts (h : Starts data) :
    next data = .ok ((ofDeclared data).toAttribute, data.drop (Bytes.aligned (declared data))) := by
  have hsize : ¬ data.length < AttributeHeader.size := not_lt.mpr (h.1.trans h.2)
  rw [next_eq, if_neg hsize, if_pos h]

theorem next_of_breaks (h : Breaks data n) : ∃ fault, next data = .error fault := by
  obtain ⟨-, hstarts, -⟩ := breaks_iff.mp h
  rw [next_eq, if_neg hstarts]
  split <;> exact ⟨_, rfl⟩

theorem split_nil : split [] = ([], none) := by
  rw [split]
  rfl

/-- One attribute is read, and then those behind it. -/
theorem split_eq (hn : data ≠ []) :
    split data = match next data with
      | .error fault => ([], some fault)
      | .ok (x, rest) => (x :: (split rest).1, (split rest).2) := by
  have he : data.isEmpty = false := by simpa using hn
  rw [split, he, if_neg Bool.false_ne_true]
  split <;> rename_i hnext <;> rw [hnext]

theorem split_of_starts (h : Starts data) :
    split data = ((ofDeclared data).toAttribute ::
        (split (data.drop (Bytes.aligned (declared data)))).1,
      (split (data.drop (Bytes.aligned (declared data)))).2) := by
  rw [split_eq h.ne_nil, next_of_starts h]

theorem split_of_breaks (h : Breaks data n) : ∃ fault, split data = ([], some fault) := by
  obtain ⟨fault, hn⟩ := next_of_breaks h
  exact ⟨fault, by rw [split_eq h.ne_nil, hn]⟩

theorem split_of_tiles (h : Tiles data as rest) :
    split data = (as.map toAttribute ++ (split rest).1, (split rest).2) := by
  induction h with
  | nil => rfl
  | @cons a as skipped more rest fits most full _ ih =>
    obtain ⟨hstarts, ha, hmore⟩ := starts_iff.mpr ⟨fits, skipped, rfl, most, full⟩
    rw [split_of_starts hstarts, ← hmore, ← ha, ih]
    rfl

/-- Nested attributes are read to the end exactly if there is nothing else in the bytes. -/
theorem split_eq_none_iff {xs : List Attribute} :
    split data = (xs, none) ↔ ∃ as, Tiles data as [] ∧ xs = as.map toAttribute := by
  constructor
  · intro h
    obtain ⟨as, rest, htiles, hends⟩ := exists_tiles data
    have hsplit := split_of_tiles htiles
    rcases hends with rfl | ⟨n, hbreaks⟩
    · rw [h, split_nil, List.append_nil] at hsplit
      exact ⟨as, htiles, congrArg Prod.fst hsplit⟩
    · obtain ⟨fault, hrest⟩ := split_of_breaks hbreaks
      rw [h, hrest] at hsplit
      cases congrArg Prod.snd hsplit
  · rintro ⟨as, htiles, rfl⟩
    rw [split_of_tiles htiles, split_nil, List.append_nil]

end Attribute
end VethPeer.Wire
