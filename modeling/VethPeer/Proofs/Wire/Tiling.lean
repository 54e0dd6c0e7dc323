import Mathlib
import VethPeer.Proofs.Wire.Framing
import VethPeer.Proofs.Wire.Walks

/-! Messages lie in a byte string without gap or overlap, from its start to where no message is. -/
namespace VethPeer.Wire

variable {f : Frame} {fs : List Frame} {fault : Fault} {b data skipped more rest : Bytes}

namespace Header

/-- No byte of a header is lost in reading it. -/
theorem bytes_ofBytes (h : size ≤ b.length) : (ofBytes b).bytes = b.take size := by
  rw [size] at h
  have hlength := Bytes.field_lt b 0 4 (by omega)
  have hkind := Bytes.field_lt b 4 2 (by omega)
  have hflags := Bytes.field_lt b 6 2 (by omega)
  have hseq := Bytes.field_lt b 8 4 (by omega)
  have hport := Bytes.field_lt b 12 4 (by omega)
  simp only [bytes, ofBytes, UInt32.toNat_ofNat_of_lt' hlength, UInt16.toNat_ofNat_of_lt' hkind,
    UInt16.toNat_ofNat_of_lt' hflags, UInt32.toNat_ofNat_of_lt' hseq,
    UInt32.toNat_ofNat_of_lt' hport]
  rw [Bytes.ofNatLE_field (by omega), Bytes.ofNatLE_field (by omega), Bytes.ofNatLE_field (by omega),
    Bytes.ofNatLE_field (by omega), Bytes.ofNatLE_field (by omega), List.drop_zero,
    ← List.take_add, ← List.take_add, ← List.take_add, ← List.take_add]
  rfl

end Header

namespace Frame

/-- The length that a header at the start of these bytes declares. -/
def declared (b : Bytes) : ℕ := b.field 0 4

/-- The message that these bytes declare. -/
def declaredFrame (b : Bytes) : Frame :=
  ⟨.ofBytes (b.take Header.size), (b.take (declared b)).drop Header.size⟩

/-- These messages lie at the start of the bytes one after the other, and `rest` follows. What is
skipped after a message brings it to the next multiple of four, unless the bytes end before. -/
inductive Tiles : Bytes → List Frame → Bytes → Prop
  | nil (rest : Bytes) : Tiles rest [] rest
  | cons {f : Frame} {fs : List Frame} {skipped more rest : Bytes} (wf : f.WellFormed)
      (most : skipped.length ≤ f.gap) (full : more ≠ [] → skipped.length = f.gap)
      (tail : Tiles more fs rest) : Tiles (f.bytes ++ skipped ++ more) (f :: fs) rest

/-- Why no message starts here: the bytes are over, or they are no message for this reason. -/
inductive Ends : Bytes → Option Fault → Prop
  | whole : Ends [] none
  | short {rest : Bytes} (more : rest ≠ []) (few : rest.length < Header.size) :
      Ends rest (some (.truncated Header.size rest.length))
  | small {rest : Bytes} (header : Header.size ≤ rest.length) (low : declared rest < Header.size) :
      Ends rest (some (.badMessage (.length (declared rest))))
  | long {rest : Bytes} (header : Header.size ≤ rest.length) (size : Header.size ≤ declared rest)
      (high : rest.length < declared rest) :
      Ends rest (some (.truncated (declared rest) rest.length))

theorem gap_le_three (f : Frame) : f.gap ≤ 3 := by
  unfold gap Bytes.aligned
  omega

theorem next_tile (wf : f.WellFormed) (most : skipped.length ≤ f.gap)
    (full : more ≠ [] → skipped.length = f.gap) :
    next (f.bytes ++ skipped ++ more) = .ok (f, more) := by
  rw [List.append_assoc, next_bytes_append wf, Bytes.drop_skipped most full]

theorem header_read (data : Bytes) (h : Header.size ≤ data.length) :
    Header.read data = .ok (.ofBytes (data.take Header.size)) := by
  rw [Header.read, Bytes.cut?_eq, if_pos h]

theorem length_ofBytes (data : Bytes) (h : Header.size ≤ data.length) :
    (Header.ofBytes (data.take Header.size)).length.toNat = declared data := by
  have hfield : Bytes.field (data.take Header.size) 0 4 = declared data :=
    Bytes.field_take (by decide)
  have hlt : declared data < 256 ^ 4 := Bytes.field_lt data 0 4 (by rw [Header.size] at h; omega)
  rw [Header.ofBytes, hfield]
  exact UInt32.toNat_ofNat_of_lt' hlt

/-- What is read of a byte string, by the length that it declares. -/
theorem next_eq (data : Bytes) :
    next data =
      if data.length < Header.size then .error (.truncated Header.size data.length)
      else if declared data < Header.size then .error (.badMessage (.length (declared data)))
      else if data.length < declared data then .error (.truncated (declared data) data.length)
      else .ok (declaredFrame data, data.drop (Bytes.aligned (declared data))) := by
  by_cases hh : data.length < Header.size
  · have hr : Header.read data = .error (.truncated Header.size data.length) := by
      rw [Header.read, Bytes.cut?_eq, if_neg (by omega)]
    simp only [next, hr, bind, Except.bind, if_pos hh]
  · have hr := header_read data (by omega)
    have hl := length_ofBytes data (by omega)
    simp only [next, hr, bind, Except.bind, if_neg hh, hl, Bytes.cut?_eq]
    by_cases hs : declared data < Header.size
    · simp only [if_pos hs]
    · by_cases hd : data.length < declared data
      · simp only [if_neg hs, if_pos hd, if_neg (show ¬ declared data ≤ data.length by omega)]
      · simp only [if_neg hs, if_neg hd, if_pos (show declared data ≤ data.length by omega),
          declaredFrame]

theorem bytes_declaredFrame (hs : Header.size ≤ declared b) (hd : declared b ≤ b.length) :
    (declaredFrame b).bytes = b.take (declared b) := by
  have hheader : (Header.ofBytes (b.take Header.size)).bytes = b.take Header.size := by
    rw [Header.bytes_ofBytes (by rw [List.length_take]; omega), List.take_take, Nat.min_self]
  have htake : b.take Header.size = (b.take (declared b)).take Header.size := by
    rw [List.take_take, Nat.min_eq_left hs]
  rw [bytes, declaredFrame, hheader, htake]
  exact List.take_append_drop Header.size _

theorem wellFormed_declaredFrame (hs : Header.size ≤ declared b) (hd : declared b ≤ b.length) :
    (declaredFrame b).WellFormed := by
  rw [WellFormed, declaredFrame, length_ofBytes b (by omega), List.length_drop, List.length_take]
  omega

theorem next_eq_ok_iff :
    next data = .ok (f, rest) ↔ Header.size ≤ declared data ∧ declared data ≤ data.length ∧
      f = declaredFrame data ∧ rest = data.drop (Bytes.aligned (declared data)) := by
  rw [next_eq]
  constructor
  · intro h
    split at h
    · cases h
    split at h
    · cases h
    split at h
    · cases h
    cases h
    exact ⟨by omega, by omega, rfl, rfl⟩
  · rintro ⟨hs, hd, rfl, rfl⟩
    rw [if_neg (by omega), if_neg (by omega), if_neg (by omega)]

/-- A message that was read stands in the bytes as it is written. -/
theorem tile_of_next (h : next data = .ok (f, rest)) :
    f.WellFormed ∧ ∃ skipped, data = f.bytes ++ skipped ++ rest ∧ skipped.length ≤ f.gap ∧
      (rest ≠ [] → skipped.length = f.gap) := by
  obtain ⟨hs, hd, rfl, hrest⟩ := next_eq_ok_iff.mp h
  have hbytes := bytes_declaredFrame hs hd
  have hgap : declared data + (declaredFrame data).gap = Bytes.aligned (declared data) := by
    rw [gap, hbytes, List.length_take_of_le hd]
    exact Nat.add_sub_cancel' (Bytes.le_aligned _)
  obtain ⟨skipped, hskipped, most, full⟩ :=
    Bytes.exists_skipped (data.drop (declared data)) (declaredFrame data).gap
  rw [List.drop_drop, hgap, ← hrest] at hskipped full
  refine ⟨wellFormed_declaredFrame hs hd, skipped, ?_, most, full⟩
  rw [hbytes, List.append_assoc, ← hskipped, List.take_append_drop]

/-- Bytes that are not over either hold a message at their start or end there with a fault. -/
theorem next_eq_error_iff (hn : data ≠ []) :
    next data = .error fault ↔ Ends data (some fault) := by
  rw [next_eq]
  constructor
  · intro h
    split at h
    · cases h
      exact .short hn ‹_›
    split at h
    · cases h
      exact .small (by omega) ‹_›
    split at h
    · cases h
      exact .long (by omega) (by omega) ‹_›
    · cases h
  · intro h
    cases h with
    | short _ few => rw [if_pos few]
    | small header low => rw [if_neg (by omega), if_pos low]
    | long header size high => rw [if_neg (by omega), if_neg (by omega), if_pos high]

theorem split_of_error (hn : data ≠ []) (h : next data = .error fault) :
    split data = ([], some fault) := by
  rw [split_eq hn, h]

theorem split_of_ends {ending : Option Fault} (h : Ends rest ending) :
    split rest = ([], ending) := by
  cases hending : ending with
  | none =>
    subst hending
    cases h
    exact split_nil
  | some fault =>
    subst hending
    have hn : rest ≠ [] := by
      intro hn
      subst hn
      cases h <;> simp_all [Header.size]
    exact split_of_error hn ((next_eq_error_iff hn).mpr h)

theorem split_of_tiles (h : Tiles data fs rest) :
    split data = (fs ++ (split rest).1, (split rest).2) := by
  induction h with
  | nil rest => rfl
  | cons wf most full tail ih => rw [split_of_next (next_tile wf most full), ih, List.cons_append]

/-- Every byte string is tiled by its messages up to where no message is. -/
theorem exists_tiles (data : Bytes) :
    ∃ rest, Tiles data (split data).1 rest ∧ Ends rest (split data).2 := by
  fun_induction split data with
  | case1 data he =>
    obtain rfl : data = [] := by simpa using he
    exact ⟨[], .nil [], .whole⟩
  | case2 data he fault hn =>
    have hne : data ≠ [] := by simpa using he
    exact ⟨data, .nil data, (next_eq_error_iff hne).mp hn⟩
  | case3 data he f more hn fs ending hs ih =>
    rw [hs] at ih
    obtain ⟨rest, htiles, hends⟩ := ih
    obtain ⟨wf, skipped, hdata, most, full⟩ := tile_of_next hn
    subst hdata
    exact ⟨rest, .cons wf most full htiles, hends⟩

theorem split_eq_iff {ending : Option Fault} :
    split data = (fs, ending) ↔ ∃ rest, Tiles data fs rest ∧ Ends rest ending := by
  constructor
  · intro h
    obtain ⟨rest, htiles, hends⟩ := exists_tiles data
    rw [h] at htiles hends
    exact ⟨rest, htiles, hends⟩
  · rintro ⟨rest, htiles, hends⟩
    rw [split_of_tiles htiles, split_of_ends hends, List.append_nil]

theorem Tiles.eq_nil (h : Tiles data fs rest) (hd : data = []) : fs = [] := by
  cases h with
  | nil => rfl
  | cons wf most full tail =>
    have hl := congrArg List.length hd
    simp only [List.length_append, length_frameBytes, Header.size, List.length_nil] at hl
    omega

/-- Bytes that come after messages do not change them. -/
theorem Tiles.isPrefix (h : Tiles data fs rest) (further : Bytes) :
    fs <+: (split (data ++ further)).1 := by
  induction h with
  | nil => exact List.nil_prefix
  | @cons f fs skipped more rest wf most full tail ih =>
    by_cases hm : more = []
    · -- the message was the last one, and what comes after may fill up its padding
      have hnil := tail.eq_nil hm
      have hn := next_bytes_append wf (skipped ++ further)
      subst hm hnil
      rw [List.append_nil, List.append_assoc, split_of_next hn]
      exact ⟨_, rfl⟩
    · have hn : next (f.bytes ++ skipped ++ (more ++ further)) = .ok (f, more ++ further) :=
        next_tile wf most (fun _ => full hm)
      rw [List.append_assoc, split_of_next hn]
      exact List.cons_prefix_cons.mpr ⟨rfl, ih⟩

theorem split_take_isPrefix (data : Bytes) (n : ℕ) :
    (split (data.take n)).1 <+: (split data).1 := by
  obtain ⟨rest, htiles, -⟩ := exists_tiles (data.take n)
  have hp := htiles.isPrefix (data.drop n)
  rwa [List.take_append_drop] at hp

theorem walks_split (data : Bytes) : Walks next data (split data).1 (split data).2 := by
  fun_induction split data with
  | case1 data he =>
    obtain rfl : data = [] := by simpa using he
    exact .ended
  | case2 data he fault hn => exact .fault (by simpa using he) hn
  | case3 data he f more hn fs ending hs ih =>
    rw [hs] at ih
    exact .item (by simpa using he) hn ih

/-- Calls of a reader yield the messages that tile the bytes, then at most one fault, which says why
no message follows, and then nothing. There is no fault exactly if the messages tile all of the
bytes. Messages that are written one after the other are read back, with any part of the padding of
the last. -/
theorem split_tiles (data : Bytes) :
    (∀ n, Walks.pulled next data n = (Walks.yields (split data).1 (split data).2)[n]?) ∧
    (∀ fs ending, split data = (fs, ending) ↔ ∃ rest, Tiles data fs rest ∧ Ends rest ending) ∧
    ((split data).2 = none ↔ Tiles data (split data).1 []) ∧
    (∀ f : Frame, f.gap ≤ 3) ∧
    ∀ fs : List Frame, (∀ f ∈ fs, f.WellFormed) → split (encodeAll fs) = (fs, none) ∧
      ∀ (last : Frame) (pad : Bytes), last.WellFormed → pad.length ≤ last.gap →
        split (encodeAll fs ++ (last.bytes ++ pad)) = (fs ++ [last], none) := by
  refine ⟨(walks_split data).pulled_eq, fun _ _ => split_eq_iff, ⟨?_, ?_⟩, gap_le_three, ?_⟩
  · intro hnone
    obtain ⟨rest, htiles, hends⟩ := exists_tiles data
    rw [hnone] at hends
    cases hends
    exact htiles
  · intro htiles
    exact congrArg Prod.snd (split_eq_iff.mpr ⟨[], htiles, .whole⟩)
  · intro fs hf
    refine ⟨split_encodeAll hf, ?_⟩
    intro last pad wf hpad
    have hn := next_bytes_append wf pad
    rw [List.drop_of_length_le hpad] at hn
    rw [split_encodeAll_append hf, split_of_next hn, split_nil]

/-- Three bytes of padding follow it. -/
def oddFrame : Frame := ⟨⟨17, Kind.newLink, 0, 1, 0⟩, [9]⟩

/-- Two messages, the second without the last byte of its padding, and one message before a fragment
of a header. -/
theorem split_tiles_oddFrame :
    (∀ f ∈ [oddFrame], f.WellFormed) ∧ oddFrame.WellFormed ∧
    [(5 : UInt8), 6].length ≤ oddFrame.gap ∧
    split (encodeAll [oddFrame] ++ (oddFrame.bytes ++ [5, 6])) = ([oddFrame, oddFrame], none) ∧
    split (encodeAll [oddFrame] ++ [17, 0, 0]) = ([oddFrame], some (.truncated 16 3)) ∧
    Walks.pulled next (encodeAll [oddFrame] ++ [17, 0, 0]) 1 = some (.error (.truncated 16 3)) ∧
    Walks.pulled next (encodeAll [oddFrame] ++ [17, 0, 0]) 2 = none := by
  have wf : ∀ f ∈ [oddFrame], f.WellFormed := by decide
  have hgap : [(5 : UInt8), 6].length ≤ oddFrame.gap := by decide
  obtain ⟨hpulled, hsplit, -, -, hwritten⟩ :=
    split_tiles (encodeAll [oddFrame] ++ [17, 0, 0])
  have htiles : Tiles (encodeAll [oddFrame] ++ [17, 0, 0]) [oddFrame] [17, 0, 0] :=
    .cons (by decide) (by decide) (by decide) (.nil _)
  have hfault := (hsplit _ _).mpr ⟨_, htiles, .short (by decide) (by decide)⟩
  refine ⟨wf, wf _ (by simp), hgap, (hwritten _ wf).2 _ _ (wf _ (by simp)) hgap, hfault, ?_, ?_⟩
  · rw [hpulled, hfault]
    rfl
  · rw [hpulled, hfault]
    rfl

end Frame
end VethPeer.Wire
