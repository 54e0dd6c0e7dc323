import Mathlib
import VethPeer.Proofs.Wire.Streams
import VethPeer.Proofs.Wire.Walks

/-! Attributes are walked by two readers, one for those of a record and one for those inside another
attribute. They find the same attributes in every byte string, and end in the same way. -/
namespace VethPeer.Wire

variable {data rest : Bytes} {as : List RawAttribute}

theorem Attribute.walks_split (data : Bytes) :
    Walks next data (split data).1 (split data).2 := by
  fun_induction split data with
  | case1 data he =>
    obtain rfl : data = [] := by simpa using he
    exact .ended
  | case2 data he fault hn => exact .fault (by simpa using he) hn
  | case3 data he x rest hn xs ending hs ih =>
    rw [hs] at ih
    exact .item (by simpa using he) hn ih

/-- The attributes of a record without what is left after each. -/
def Cursor.walked (data : Bytes) : List Attribute := (attributes data).1.map (·.1)

theorem Cursor.walks_attributes (data : Bytes) :
    Walks next data (walked data) (attributes data).2 := by
  unfold walked
  fun_induction attributes data with
  | case1 data he =>
    obtain rfl : data = [] := by simpa using he
    exact .ended
  | case2 data he stop hn => exact .fault (by simpa using he) hn
  | case3 data he x rest hn xs stop hs ih =>
    rw [hs] at ih
    exact .item (by simpa using he) hn ih

/-- Both readers take the same attribute off the front, or none. -/
theorem toOption_next (data : Bytes) :
    (Attribute.next data).toOption = (Cursor.next data).toOption := by
  rw [Attribute.next_eq, Cursor.next_eq]
  by_cases few : data.length < AttributeHeader.size
  · rw [if_pos few, if_pos few]
    rfl
  · rw [if_neg few, if_neg few]
    by_cases hstarts : RawAttribute.Starts data
    · rw [if_pos hstarts, if_pos hstarts]
      rfl
    · rw [if_neg hstarts, if_neg hstarts]
      rfl

theorem walked_eq_split (data : Bytes) :
    Cursor.walked data = (Attribute.split data).1 ∧
      (Cursor.attributes data).2.isSome = (Attribute.split data).2.isSome := by
  obtain ⟨stop, hwalks, hstop⟩ := (Attribute.walks_split data).congr toOption_next
  obtain ⟨hwalked, hending⟩ := hwalks.unique (Cursor.walks_attributes data)
  exact ⟨hwalked, hending ▸ hstop⟩

/-- A contiguous piece of a byte string. -/
structure Span where
  start : ℕ
  length : ℕ
  deriving DecidableEq, Repr

namespace Span

def stop (s : Span) : ℕ := s.start + s.length

/-- The bytes in it. -/
def of (s : Span) (b : Bytes) : Bytes := (b.drop s.start).take s.length

/-- The same piece if the byte string starts `n` bytes later. -/
def shift (n : ℕ) (s : Span) : Span := ⟨n + s.start, s.length⟩

theorem of_shift (front b : Bytes) (s : Span) : (s.shift front.length).of (front ++ b) = s.of b := by
  rw [of, of, shift, List.drop_length_add_append]

theorem pairwise_shift (n : ℕ) {spans : List Span} (h : spans.Pairwise (·.stop ≤ ·.start)) :
    (spans.map (shift n)).Pairwise (·.stop ≤ ·.start) := by
  rw [List.pairwise_map]
  refine h.imp fun hle => ?_
  simp only [stop, shift] at hle ⊢
  omega

end Span

namespace RawAttribute

theorem Tiles.four_mul_length_le (h : Tiles data as rest) : 4 * as.length ≤ data.length := by
  induction h with
  | nil => exact Nat.zero_le _
  | cons fits most full tail ih =>
    simp only [List.length_cons, List.length_append, length_bytes, AttributeHeader.size]
    omega

/-- The payloads lie in the bytes in order and apart from each other. -/
theorem Tiles.exists_spans (h : Tiles data as rest) :
    ∃ spans : List Span, as.map (·.payload) = spans.map (·.of data) ∧
      spans.Pairwise (·.stop ≤ ·.start) ∧ ∀ s ∈ spans, s.stop ≤ data.length := by
  induction h with
  | nil => exact ⟨[], rfl, .nil, nofun⟩
  | @cons a as skipped more rest fits most full tail ih =>
    obtain ⟨spans, hpayloads, apart, inside⟩ := ih
    have hlength := length_bytes a
    refine ⟨⟨AttributeHeader.size, a.payload.length⟩ ::
      spans.map (Span.shift (a.bytes ++ skipped).length), ?_, ?_, ?_⟩
    · have hfirst : Span.of ⟨AttributeHeader.size, a.payload.length⟩ (a.bytes ++ skipped ++ more) =
          a.payload := by
        rw [Span.of, bytes, List.append_assoc, List.append_assoc,
          List.drop_left' (AttributeHeader.length_bytes _), List.take_left' rfl]
      simp only [List.map_cons, hfirst, hpayloads, List.map_map, Function.comp_def, Span.of_shift]
    · refine List.pairwise_cons.mpr ⟨?_, Span.pairwise_shift _ apart⟩
      intro s hs
      obtain ⟨s, -, rfl⟩ := List.mem_map.mp hs
      simp only [Span.stop, Span.shift, List.length_append]
      omega
    · intro s hs
      rcases List.mem_cons.mp hs with rfl | hs
      · simp only [Span.stop, List.length_append]
        omega
      · obtain ⟨t, ht, rfl⟩ := List.mem_map.mp hs
        have hinside := inside t ht
        simp only [Span.stop, Span.shift, List.length_append] at hinside ⊢
        omega

end RawAttribute

theorem Attribute.exists_tiles_split (data : Bytes) :
    ∃ as rest, RawAttribute.Tiles data as rest ∧
      (split data).1 = as.map RawAttribute.toAttribute := by
  obtain ⟨as, rest, htiles, hends⟩ := RawAttribute.exists_tiles data
  refine ⟨as, rest, htiles, ?_⟩
  have hrest : (split rest).1 = [] := by
    rcases hends with rfl | ⟨n, hbreaks⟩
    · rw [split_nil]
    · obtain ⟨fault, hsplit⟩ := split_of_breaks hbreaks
      rw [hsplit]
  rw [split_of_tiles htiles, hrest, List.append_nil]

/-- Call by call both readers yield the same attributes of a byte string, and one of them ends in a
fault exactly if the other does, after as many. No more attributes come than there is room for, each
payload being a piece of the bytes that is apart from the others. -/
theorem split_as_walked (data : Bytes) :
    (∀ n, Walks.pulled Attribute.next data n =
      (Walks.yields (Attribute.split data).1 (Attribute.split data).2)[n]?) ∧
    (∀ n, Walks.pulled Cursor.next data n =
      (Walks.yields (Cursor.walked data) (Cursor.attributes data).2)[n]?) ∧
    Cursor.walked data = (Attribute.split data).1 ∧
    (Cursor.attributes data).2.isSome = (Attribute.split data).2.isSome ∧
    4 * (Attribute.split data).1.length ≤ data.length ∧
    ∃ spans : List Span, (Attribute.split data).1.map (·.payload) = spans.map (·.of data) ∧
      spans.Pairwise (·.stop ≤ ·.start) ∧ ∀ s ∈ spans, s.stop ≤ data.length := by
  obtain ⟨hwalked, hstop⟩ := walked_eq_split data
  obtain ⟨as, rest, htiles, hsplit⟩ := Attribute.exists_tiles_split data
  refine ⟨(Attribute.walks_split data).pulled_eq, (Cursor.walks_attributes data).pulled_eq,
    hwalked, hstop, ?_, ?_⟩
  · rw [hsplit, List.length_map]
    exact htiles.four_mul_length_le
  · rw [hsplit, List.map_map]
    exact htiles.exists_spans

end VethPeer.Wire
