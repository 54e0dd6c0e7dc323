import Mathlib
import VethPeer.Proofs.Wire.Tiling
import VethPeer.Proofs.Wire.Walkers
import VethPeer.Wire.Draft

/-! A request put together in a buffer that grows and whose header is changed in place, and what is
read back of it: one message, and in it the attributes that were appended. -/
namespace VethPeer

namespace Bytes

variable {a b old new rest : Bytes} {start : ℕ}

theorem overwrite_append (ha : a.length = start) (hnew : new.length = old.length) (rest : Bytes) :
    overwrite (a ++ (old ++ rest)) start new = a ++ (new ++ rest) := by
  have hafter : (a ++ old).length = start + new.length := by rw [List.length_append, ha, hnew]
  rw [overwrite, List.take_left' ha, ← List.append_assoc a old rest, List.drop_left' hafter,
    List.append_assoc]

theorem aligned_of_dvd {n : ℕ} (h : 4 ∣ n) : aligned n = n := by
  unfold aligned
  omega

theorem padded_of_dvd (h : 4 ∣ b.length) : padded b = b := by
  rw [padded, aligned_of_dvd h, Nat.sub_self, List.replicate_zero, List.append_nil]

theorem padded_nil : padded [] = [] := padded_of_dvd (dvd_zero 4)

/-- What is padded as a whole is padded at its end only, if what comes before needs no padding. -/
theorem padded_append (h : 4 ∣ a.length) (b : Bytes) : padded (a ++ b) = a ++ padded b := by
  have hgap : aligned (a.length + b.length) - (a.length + b.length) =
      aligned b.length - b.length := by
    unfold aligned
    omega
  rw [padded, padded, List.length_append, hgap, List.append_assoc]

end Bytes

namespace Wire

variable {a : RawAttribute} {as : List RawAttribute}

namespace Header

theorem overwrite_length (h : Header) (rest : Bytes) (n : UInt32) :
    (h.bytes ++ rest).overwrite 0 (Bytes.ofNatLE 4 n.toNat) =
      { h with length := n }.bytes ++ rest := by
  have hstart : ([] : Bytes).length = 0 := rfl
  have hlength : (Bytes.ofNatLE 4 n.toNat).length = (Bytes.ofNatLE 4 h.length.toNat).length := by
    rw [Bytes.length_ofNatLE, Bytes.length_ofNatLE]
  simp only [bytes, List.append_assoc]
  exact Bytes.overwrite_append hstart hlength _

theorem overwrite_seq (h : Header) (rest : Bytes) (n : UInt32) :
    (h.bytes ++ rest).overwrite 8 (Bytes.ofNatLE 4 n.toNat) = { h with seq := n }.bytes ++ rest := by
  rw [bytes, bytes, List.append_assoc _ _ rest, List.append_assoc _ _ (_ ++ rest),
    Bytes.overwrite_append (by simp) (by simp), List.append_assoc _ _ rest,
    List.append_assoc _ _ (_ ++ rest)]

theorem overwrite_portId (h : Header) (rest : Bytes) (n : UInt32) :
    (h.bytes ++ rest).overwrite 12 (Bytes.ofNatLE 4 n.toNat) =
      { h with portId := n }.bytes ++ rest := by
  rw [bytes, bytes, List.append_assoc _ _ rest, Bytes.overwrite_append (by simp) (by simp),
    List.append_assoc _ _ rest]

end Header

namespace RawAttribute

theorem tiles_encodeAll (fits : ∀ a ∈ as, a.Fits) : Tiles (encodeAll as) as [] := by
  induction as with
  | nil => exact .nil []
  | cons a as ih =>
    have hzeros : (List.replicate a.gap (0 : UInt8)).length = a.gap := List.length_replicate
    exact .cons (fits a List.mem_cons_self) hzeros.le (fun _ => hzeros)
      (ih fun b hb => fits b (List.mem_cons_of_mem _ hb))

/-- Attributes that are written one after the other are found by both readers. -/
theorem walked_encodeAll (fits : ∀ a ∈ as, a.Fits) :
    Attribute.split (encodeAll as) = (as.map toAttribute, none) ∧
      Cursor.walked (encodeAll as) = as.map toAttribute ∧
      (Cursor.attributes (encodeAll as)).2 = none := by
  have hsplit : Attribute.split (encodeAll as) = (as.map toAttribute, none) :=
    Attribute.split_eq_none_iff.mpr ⟨as, tiles_encodeAll fits, rfl⟩
  obtain ⟨hwalked, hstop⟩ := walked_eq_split (encodeAll as)
  rw [hsplit] at hwalked hstop
  exact ⟨hsplit, hwalked, by simpa using hstop⟩

end RawAttribute

namespace Step

/-- The attribute that the step appends. -/
def attribute? : Step → Option RawAttribute
  | .attr type payload => some ⟨type, payload⟩
  | .word type value => some ⟨type, Bytes.ofNatLE 4 value.toNat⟩
  | _ => none

/-- The step is not about the header. -/
def Appends : Step → Prop
  | .seq _ | .port _ => False
  | _ => True

instance : DecidablePred Appends := fun s => by cases s <;> unfold Appends <;> infer_instance

def seq? : Step → Option UInt32
  | .seq n => some n
  | _ => none

def port? : Step → Option UInt32
  | .port n => some n
  | _ => none

/-- The sequence number that is set last, or zero. -/
def lastSeq (steps : List Step) : UInt32 := (steps.filterMap seq?).getLast?.getD 0

def lastPort (steps : List Step) : UInt32 := (steps.filterMap port?).getLast?.getD 0

/-- All that the steps append, each piece padded. -/
def appended (steps : List Step) : Bytes := steps.flatMap fun s => Bytes.padded s.piece

theorem piece_of_attribute? {s : Step} (h : s.attribute? = some a) :
    Bytes.padded s.piece = a.encode := by
  cases s with
  | attr type payload => cases h; rfl
  | word type value => cases h; rfl
  | bytes b => cases h
  | seq n => cases h
  | port n => cases h

theorem appended_of_attributes {steps : List Step}
    (h : List.Forall₂ (fun s a => Step.attribute? s = some a) steps as) :
    appended steps = RawAttribute.encodeAll as := by
  induction h with
  | nil => rfl
  | cons ha _ ih =>
    rw [appended, List.flatMap_cons, piece_of_attribute? ha]
    exact congrArg _ ih

/-- Steps that are about the header append nothing. -/
theorem appended_filter (steps : List Step) :
    appended (steps.filter (·.Appends)) = appended steps := by
  induction steps with
  | nil => rfl
  | cons s steps ih =>
    rw [appended, appended, List.flatMap_cons]
    by_cases hs : s.Appends
    · rw [List.filter_cons_of_pos (by simpa using hs)]
      exact congrArg _ ih
    · have hpiece : s.piece = [] := by
        cases s <;> first | exact absurd trivial hs | rfl
      rw [List.filter_cons_of_neg (by simpa using hs), hpiece, Bytes.padded_nil]
      exact ih

theorem dvd_length_appended (steps : List Step) : 4 ∣ (appended steps).length := by
  induction steps with
  | nil => exact dvd_zero 4
  | cons s steps ih =>
    rw [appended, List.flatMap_cons, List.length_append, Bytes.length_padded]
    exact dvd_add (Bytes.dvd_aligned _) ih

end Step

namespace Request

variable {r : Request} {b : Bytes} {kind : Kind} {flags : UInt16} {steps others : List Step}

theorem step_eq (r : Request) (s : Step) :
    r.step s = { r with
      seq := s.seq?.getD r.seq
      portId := s.port?.getD r.portId
      body := r.body ++ Bytes.padded s.piece } := by
  have hnothing : r.body ++ Bytes.padded [] = r.body := by
    rw [Bytes.padded_nil, List.append_nil]
  cases s with
  | bytes b => rfl
  | attr type payload => rfl
  | word type value => rfl
  | seq n => rw [Step.piece, hnothing]; rfl
  | port n => rw [Step.piece, hnothing]; rfl

/-- The header has what was set last, and the body all that was appended. -/
theorem assembled_eq (kind : Kind) (flags : UInt16) (steps : List Step) :
    assembled kind flags steps =
      { kind, flags, seq := Step.lastSeq steps, portId := Step.lastPort steps,
        body := Step.appended steps } := by
  induction steps using List.reverseRecOn with
  | nil => rfl
  | append_singleton steps s ih =>
    rw [assembled, List.foldl_append, ← assembled, ih, List.foldl_cons, List.foldl_nil, step_eq]
    congr 1
    · cases s <;> simp [Step.lastSeq, Step.seq?]
    · cases s <;> simp [Step.lastPort, Step.port?]
    · simp [Step.appended]

/-! ## The buffer -/

/-- The buffer holds the request, apart from its length. -/
structure Holds (b : Bytes) (r : Request) : Prop where
  bytes : b = Header.bytes ⟨.ofNat Header.size, r.kind, r.flags, r.seq, r.portId⟩ ++ r.body
  aligned : 4 ∣ r.body.length

theorem holds_blank (kind : Kind) (flags : UInt16) :
    Holds (blank kind flags) { kind, flags } where
  bytes := (List.append_nil _).symm
  aligned := dvd_zero 4

theorem Holds.dvd_length (h : Holds b r) : 4 ∣ b.length := by
  rw [h.bytes, List.length_append, Header.length_bytes]
  exact dvd_add (by decide) h.aligned

theorem Holds.append (h : Holds b r) (piece : Bytes) :
    Holds (Bytes.padded (b ++ piece)) { r with body := r.body ++ Bytes.padded piece } where
  bytes := by rw [Bytes.padded_append h.dvd_length, h.bytes, List.append_assoc]
  aligned := by
    rw [List.length_append, Bytes.length_padded]
    exact dvd_add h.aligned (Bytes.dvd_aligned _)

theorem Holds.step (h : Holds b r) (s : Step) : Holds (draft b s) (r.step s) := by
  cases s with
  | bytes piece => exact h.append piece
  | attr type payload => exact h.append _
  | word type value => exact h.append _
  | seq n => exact ⟨by rw [draft, h.bytes, Header.overwrite_seq]; rfl, h.aligned⟩
  | port n => exact ⟨by rw [draft, h.bytes, Header.overwrite_portId]; rfl, h.aligned⟩

theorem Holds.foldl (h : Holds b r) (steps : List Step) :
    Holds (steps.foldl draft b) (steps.foldl Request.step r) := by
  induction steps generalizing b r with
  | nil => exact h
  | cons s steps ih => exact ih (h.step s)

theorem Holds.finish_eq (h : Holds b r) : finish b = r.bytes := by
  have hlength : b.length = Header.size + r.body.length := by
    rw [h.bytes, List.length_append, Header.length_bytes]
  rw [finish, hlength, h.bytes, Header.overwrite_length]
  rfl

/-- What is left in the buffer is the request as it is sent. -/
theorem message_eq (kind : Kind) (flags : UInt16) (steps : List Step) :
    message kind flags steps = (assembled kind flags steps).bytes :=
  ((holds_blank kind flags).foldl steps).finish_eq

theorem length_message (kind : Kind) (flags : UInt16) (steps : List Step) :
    (message kind flags steps).length = Header.size + (Step.appended steps).length := by
  rw [message_eq, assembled_eq, bytes, Frame.length_frameBytes]

/-- The message that the request is read back as. -/
def frame (kind : Kind) (flags : UInt16) (steps : List Step) : Frame where
  header := {
    length := .ofNat (message kind flags steps).length
    kind
    flags
    seq := Step.lastSeq steps
    portId := Step.lastPort steps }
  payload := Step.appended steps

theorem message_eq_bytes (kind : Kind) (flags : UInt16) (steps : List Step) :
    message kind flags steps = (frame kind flags steps).bytes := by
  rw [frame, length_message, message_eq, assembled_eq]
  rfl

theorem split_message (fits : (message kind flags steps).length < 2 ^ 32) :
    Frame.split (message kind flags steps) = ([frame kind flags steps], none) := by
  have hlength : (frame kind flags steps).header.length.toNat =
      (message kind flags steps).length := UInt32.toNat_ofNat_of_lt' fits
  have wf : (frame kind flags steps).WellFormed := by
    rw [Frame.WellFormed, hlength, length_message]
    rfl
  have hnext := Frame.next_bytes_append wf []
  rw [List.drop_nil, List.append_nil, ← message_eq_bytes] at hnext
  rw [Frame.split_of_next hnext, Frame.split_nil]

/-- A request that is put together step by step in a buffer is one message of whole words: with the
length that it has, the type and flags that it was begun with, the last sequence number and port
that were set, and every piece that was appended, padded. So it does not matter when the header was
set. After a family header that needs no padding, both readers of attributes find those that were
appended. -/
theorem message_read_back (kind : Kind) (flags : UInt16) (steps : List Step)
    (fits : (message kind flags steps).length < 2 ^ 32) :
    message kind flags steps = (assembled kind flags steps).bytes ∧
    4 ∣ (message kind flags steps).length ∧
    Frame.split (message kind flags steps) = ([frame kind flags steps], none) ∧
    (frame kind flags steps).header.length.toNat = (message kind flags steps).length ∧
    (∀ others, others.filter (·.Appends) = steps.filter (·.Appends) →
      Step.lastSeq others = Step.lastSeq steps → Step.lastPort others = Step.lastPort steps →
      message kind flags others = message kind flags steps) ∧
    ∀ head attrs as, steps.filter (·.Appends) = .bytes head :: attrs → 4 ∣ head.length →
      List.Forall₂ (fun s a => Step.attribute? s = some a) attrs as → (∀ a ∈ as, a.Fits) →
      Attribute.split ((frame kind flags steps).payload.drop head.length) =
          (as.map (·.toAttribute), none) ∧
        Cursor.walked ((frame kind flags steps).payload.drop head.length) =
          as.map (·.toAttribute) ∧
        (Cursor.attributes ((frame kind flags steps).payload.drop head.length)).2 = none := by
  refine ⟨message_eq kind flags steps, ?_, split_message fits, UInt32.toNat_ofNat_of_lt' fits,
    ?_, ?_⟩
  · rw [length_message]
    exact dvd_add (by decide) (Step.dvd_length_appended steps)
  · intro others happends hseq hport
    rw [message_eq, message_eq, assembled_eq, assembled_eq, hseq, hport,
      ← Step.appended_filter others, happends, Step.appended_filter]
  · intro head attrs as happends hhead hattrs hfits
    have hpayload : (frame kind flags steps).payload.drop head.length =
        RawAttribute.encodeAll as := by
      rw [frame, ← Step.appended_filter, happends, Step.appended, List.flatMap_cons, Step.piece,
        Bytes.padded_of_dvd hhead, List.drop_left]
      exact Step.appended_of_attributes hattrs
    rw [hpayload]
    exact RawAttribute.walked_encodeAll hfits

/-- The header is set before, between and after the pieces, the first number in vain. The name has
an odd length, and its type a bit that is not of its kind. -/
def someSteps : List Step :=
  [.seq 9, .bytes (List.replicate 16 0), .attr 0x8003 [101, 116, 104, 48, 0], .seq 5, .word 29 8,
    .port 77]

/-- The same pieces with the header set in the end. -/
def tidySteps : List Step :=
  [.bytes (List.replicate 16 0), .attr 0x8003 [101, 116, 104, 48, 0], .word 29 8, .port 77, .seq 5]

theorem message_read_back_someSteps :
    (message Kind.getLink Flag.request someSteps).length < 2 ^ 32 ∧
    Frame.split (message Kind.getLink Flag.request someSteps) =
      ([⟨⟨52, Kind.getLink, Flag.request, 5, 77⟩, Step.appended someSteps⟩], none) ∧
    message Kind.getLink Flag.request tidySteps = message Kind.getLink Flag.request someSteps ∧
    Attribute.split ((Step.appended someSteps).drop 16) =
      ([⟨3, [101, 116, 104, 48, 0]⟩, ⟨29, [8, 0, 0, 0]⟩], none) ∧
    Cursor.walked ((Step.appended someSteps).drop 16) =
      [⟨3, [101, 116, 104, 48, 0]⟩, ⟨29, [8, 0, 0, 0]⟩] := by
  have fits : (message Kind.getLink Flag.request someSteps).length < 2 ^ 32 := by decide +kernel
  obtain ⟨-, -, hsplit, -, hsame, hattrs⟩ :=
    message_read_back Kind.getLink Flag.request someSteps fits
  obtain ⟨hnested, hwalked, -⟩ := hattrs (List.replicate 16 0)
    [.attr 0x8003 [101, 116, 104, 48, 0], .word 29 8]
    [⟨0x8003, [101, 116, 104, 48, 0]⟩, ⟨29, [8, 0, 0, 0]⟩] (by decide) (by decide)
    (.cons rfl (.cons rfl .nil)) (by decide)
  exact ⟨fits, hsplit, hsame tidySteps (by decide) rfl rfl, hnested, hwalked⟩

end Request
end Wire
end VethPeer
