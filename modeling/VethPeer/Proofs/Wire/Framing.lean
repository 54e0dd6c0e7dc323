import Mathlib
import VethPeer.Bytes.Codec
import VethPeer.Wire.Frame

/-! Messages that are written one after the other are read back one by one. -/
namespace VethPeer.Wire

variable {h : Header} {f : Frame} {fs : List Frame} {data rest : Bytes}

namespace Header

@[simp] theorem ofBytes_bytes_append (h : Header) (rest : Bytes) :
    ofBytes (h.bytes ++ rest) = h := by
  simp [ofBytes, bytes, Bytes.field_ofNatLE, Bytes.field_append]

theorem read_bytes_append (h : Header) (rest : Bytes) : read (h.bytes ++ rest) = .ok h := by
  have hb : ofBytes h.bytes = h := by simpa using ofBytes_bytes_append h []
  rw [read, Bytes.cut?_append (length_bytes h)]
  exact congrArg Except.ok hb

end Header

namespace Frame

/-- The header declares the length that the message has. -/
def WellFormed (f : Frame) : Prop := f.header.length.toNat = Header.size + f.payload.length

instance (f : Frame) : Decidable f.WellFormed := inferInstanceAs (Decidable (_ = _))

/-- A message as it stands in a datagram, padded. -/
def encode (f : Frame) : Bytes := Bytes.padded f.bytes

def encodeAll (fs : List Frame) : Bytes := fs.flatMap encode

theorem length_frameBytes (f : Frame) : f.bytes.length = Header.size + f.payload.length := by
  simp [bytes]

theorem length_payload_le (h : f ∈ fs) : f.payload.length ≤ (encodeAll fs).length := by
  have ha := Bytes.le_aligned f.bytes.length
  have hl := length_frameBytes f
  obtain ⟨before, after, rfl⟩ := List.append_of_mem h
  simp only [encodeAll, List.flatMap_append, List.flatMap_cons, List.length_append, encode,
    Bytes.length_padded]
  omega

/-- How many bytes there are after the message up to the next multiple of four. -/
def gap (f : Frame) : ℕ := Bytes.aligned f.bytes.length - f.bytes.length

/-- A message is read off the front whatever follows it, and its padding is skipped as far as there
is any. -/
theorem next_bytes_append (hf : f.WellFormed) (more : Bytes) :
    next (f.bytes ++ more) = .ok (f, more.drop f.gap) := by
  have hl : f.bytes.length = f.header.length.toNat := by rw [length_frameBytes, hf]
  have hr : Header.read (f.bytes ++ more) = .ok f.header := by
    rw [bytes, List.append_assoc]
    exact Header.read_bytes_append _ _
  have hs : ¬ f.header.length.toNat < Header.size := by
    rw [hf]
    omega
  have hc : Bytes.cut? f.header.length.toNat (f.bytes ++ more) = some (f.bytes, more) :=
    Bytes.cut?_append hl more
  have hp : f.bytes.drop Header.size = f.payload := by
    rw [bytes, ← Header.length_bytes f.header]
    exact List.drop_left
  have hd : (f.bytes ++ more).drop (Bytes.aligned f.header.length.toNat) = more.drop f.gap := by
    rw [← hl, List.drop_append, List.drop_of_length_le (Bytes.le_aligned _), List.nil_append, gap]
  simp only [next, hr, bind, Except.bind, hs, if_false, hc, hd, hp]

theorem next_encode_append (hf : f.WellFormed) (rest : Bytes) :
    next (f.encode ++ rest) = .ok (f, rest) := by
  have hpad : (List.replicate f.gap (0 : UInt8)).length = f.gap := List.length_replicate
  rw [encode, Bytes.padded, List.append_assoc, next_bytes_append hf]
  exact congrArg (fun rest => Except.ok (f, rest)) (List.drop_left' hpad)

theorem split_nil : split [] = ([], none) := by
  rw [split]
  rfl

/-- One message is read, and then those behind it. -/
theorem split_eq (hn : data ≠ []) :
    split data = match next data with
      | .error fault => ([], some fault)
      | .ok (f, rest) => (f :: (split rest).1, (split rest).2) := by
  have he : data.isEmpty = false := by simpa using hn
  rw [split, he, if_neg Bool.false_ne_true]
  split <;> rename_i hnext <;> rw [hnext]

theorem split_of_next (hn : next data = .ok (f, rest)) :
    split data = (f :: (split rest).1, (split rest).2) := by
  have he : data ≠ [] := by
    rintro rfl
    simpa using length_of_next hn
  rw [split_eq he, hn]

theorem split_encodeAll_append (hf : ∀ f ∈ fs, f.WellFormed) (rest : Bytes) :
    split (encodeAll fs ++ rest) = (fs ++ (split rest).1, (split rest).2) := by
  induction fs with
  | nil => rfl
  | cons f fs ih =>
    have hn : next (encodeAll (f :: fs) ++ rest) = .ok (f, encodeAll fs ++ rest) := by
      rw [encodeAll, List.flatMap_cons, List.append_assoc]
      exact next_encode_append (hf f (by simp)) _
    rw [split_of_next hn, ih fun g hg => hf g (by simp [hg]), List.cons_append]

/-- Well-formed messages are what their datagram holds, whatever their number. -/
theorem split_encodeAll (hf : ∀ f ∈ fs, f.WellFormed) : split (encodeAll fs) = (fs, none) := by
  have hs := split_encodeAll_append hf []
  rwa [List.append_nil, split_nil, List.append_nil] at hs

end Frame
end VethPeer.Wire
