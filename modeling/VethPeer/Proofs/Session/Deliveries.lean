import Mathlib
import VethPeer.Proofs.Wire.Framing
import VethPeer.Session.Reply

/-! Messages that a sender cuts into datagrams, and what the collectors of replies make of them. -/
namespace VethPeer

open Wire

variable {seq : UInt32} {operation : String} {fs gs : List Frame} {f last : Frame}
  {ds rest : List Delivery} {d : Dump}

/-- An attribute in a datagram has a length that fits its sixteen bits. -/
theorem Delivery.capacity_lt : capacity < 65536 := by decide

/-- The deliveries bring these messages in this order, some in each datagram, and nothing after the
last of them. -/
inductive Brings : List Delivery → List Frame → Prop
  | last {fs : List Frame} (wf : ∀ f ∈ fs, f.WellFormed)
      (fits : (Frame.encodeAll fs).length ≤ Delivery.capacity) (some : fs ≠ []) :
      Brings [.datagram (Frame.encodeAll fs)] fs
  | more {fs gs : List Frame} {ds : List Delivery} (wf : ∀ f ∈ fs, f.WellFormed)
      (fits : (Frame.encodeAll fs).length ≤ Delivery.capacity) (tail : Brings ds gs) :
      Brings (.datagram (Frame.encodeAll fs) :: ds) (fs ++ gs)
  | wait {fs : List Frame} {ds : List Delivery} (tail : Brings ds fs) : Brings (.notReady :: ds) fs

theorem Brings.ne_nil (h : Brings ds fs) : fs ≠ [] := by
  induction h with
  | last wf fits hs => exact hs
  | more wf fits h ih => simp [ih]
  | wait h ih => exact ih

/-- A message is not longer than a datagram. -/
theorem Brings.length_payload_le (h : Brings ds fs) :
    ∀ f ∈ fs, f.payload.length ≤ Delivery.capacity := by
  have hgroup {fs : List Frame} (fits : (Frame.encodeAll fs).length ≤ Delivery.capacity) :
      ∀ f ∈ fs, f.payload.length ≤ Delivery.capacity := by
    intro f hf
    have hp := Frame.length_payload_le hf
    omega
  induction h with
  | last wf fits hs => exact hgroup fits
  | more wf fits h ih =>
    intro f hf
    rcases List.mem_append.mp hf with hf | hf
    · exact hgroup fits f hf
    · exact ih f hf
  | wait h ih => exact ih

theorem split_received (wf : ∀ f ∈ fs, f.WellFormed)
    (fits : (Frame.encodeAll fs).length ≤ Delivery.capacity) :
    Frame.split (Delivery.received (Frame.encodeAll fs)) = (fs, none) := by
  rw [Delivery.received, List.take_of_length_le fits, Frame.split_encodeAll wf]

namespace Dump

/-- A message that only adds its payload to the dump of the request `seq`. -/
structure Plain (seq : UInt32) (f : Frame) : Prop where
  own : f.header.seq = seq
  kept : f.header.isInterrupted = false
  noControl : f.header.kind ≠ .noop ∧ f.header.kind ≠ .error ∧ f.header.kind ≠ .done ∧
    f.header.kind ≠ .overrun

/-- The message that ends the dump of the request `seq`, nothing having changed meanwhile. -/
structure Closing (seq : UInt32) (f : Frame) : Prop where
  own : f.header.seq = seq
  kept : f.header.isInterrupted = false
  done : f.header.kind = .done

theorem Plain.feed_cons (h : Plain seq f) (operation : String) (d : Dump) (fs : List Frame) :
    feed seq operation d (f :: fs) =
      feed seq operation { d with payloads := f.payload :: d.payloads } fs := by
  obtain ⟨hs, hi, hn, he, hd, ho⟩ := h
  simp [feed, hs, hi, part, Header.isError, Header.isDone, hn, he, hd, ho]

theorem feed_plain_append (h : ∀ f ∈ fs, Plain seq f) (operation : String) (d : Dump)
    (gs : List Frame) :
    feed seq operation d (fs ++ gs) =
      feed seq operation { d with payloads := (fs.map (·.payload)).reverse ++ d.payloads } gs := by
  induction fs generalizing d with
  | nil => rfl
  | cons f fs ih =>
    rw [List.cons_append, (h f (by simp)).feed_cons, ih fun g hg => h g (by simp [hg])]
    simp

theorem feed_plain (h : ∀ f ∈ fs, Plain seq f) (operation : String) (d : Dump) :
    feed seq operation d fs =
      .ok ({ d with payloads := (fs.map (·.payload)).reverse ++ d.payloads }, false) := by
  have hp := feed_plain_append h operation d []
  rwa [List.append_nil] at hp

theorem Closing.feed_singleton (h : Closing seq f) (operation : String) (d : Dump) :
    feed seq operation d [f] = .ok (d, true) := by
  obtain ⟨hs, hi, hd⟩ := h
  have hk : (Kind.done : Kind) ≠ .error := by decide
  simp [feed, hs, hi, part, Header.isError, Header.isDone, hd, hk]

/-- However an uninterrupted dump is cut into datagrams, it comes to its payloads in order, and the
deliveries after its last datagram are left. -/
theorem collect_brings (hb : Brings ds (fs ++ [last])) (hfs : ∀ f ∈ fs, Plain seq f)
    (hl : Closing seq last) :
    collect seq operation d (ds ++ rest) =
      (finish operation { d with payloads := (fs.map (·.payload)).reverse ++ d.payloads },
        rest) := by
  generalize hgs : fs ++ [last] = gs at hb
  induction hb generalizing fs d with
  | @last gs wf fits hs =>
    subst hgs
    simp only [List.cons_append, List.nil_append, collect, split_received wf fits,
      feed_plain_append hfs, hl.feed_singleton]
  | @more group gs ds wf fits hb ih =>
    -- the last message is in a later datagram, so this one holds plain messages only
    obtain hg | ⟨gs', x, rfl⟩ := List.eq_nil_or_concat' gs
    · exact (hb.ne_nil hg).elim
    rw [← List.append_assoc] at hgs
    obtain ⟨rfl, hx⟩ := List.append_inj' hgs rfl
    have hsplit := split_received wf fits
    have hfeed := feed_plain (fun f hf => hfs f (List.mem_append_left gs' hf)) operation d
    have hnext := ih (d := { d with payloads := (group.map (·.payload)).reverse ++ d.payloads })
      (fun f hf => hfs f (List.mem_append_right group hf)) (by rw [hx])
    simpa [collect, hsplit, hfeed] using hnext
  | wait hb ih =>
    rw [List.cons_append, collect]
    exact ih hfs hgs

end Dump

namespace Reply

theorem ofDatagram_empty (seq : UInt32) (operation : String) :
    ofDatagram seq operation (Delivery.received []) = none := by
  simp [ofDatagram, Delivery.received, Frame.split_nil]

theorem ofDatagram_single (hs : f.header.seq = seq) (wf : f.WellFormed)
    (fits : (Frame.encodeAll [f]).length ≤ Delivery.capacity) :
    ofDatagram seq operation (Delivery.received (Frame.encodeAll [f])) =
      some (match f.refusal? operation with
        | some fault => .error fault
        | none => .ok (if f.header.isError then [] else [f.payload])) := by
  have hsplit := split_received (show ∀ g ∈ [f], g.WellFormed by simpa using wf) fits
  cases hr : f.refusal? operation with
  | some fault => simp [ofDatagram, hsplit, hs, hr]
  | none => cases he : f.header.isError <;> simp [ofDatagram, hsplit, hs, hr, he]

/-- A reply of one message is that message's refusal or payload, whatever came before it. -/
theorem collect_brings_single (hb : Brings ds [f]) (hs : f.header.seq = seq) :
    collect seq operation (ds ++ rest) =
      (match f.refusal? operation with
        | some fault => .error fault
        | none => .ok (if f.header.isError then [] else [f.payload]), rest) := by
  generalize hgs : [f] = gs at hb
  induction hb with
  | last wf fits hne =>
    subst hgs
    simp [collect, ofDatagram_single hs (wf f (by simp)) fits]
  | @more group gs ds wf fits hb ih =>
    -- what follows is not nothing, so this datagram is empty
    have hg : group = [] ∧ gs = [f] := by
      cases group with
      | nil => exact ⟨rfl, hgs.symm⟩
      | cons g group =>
        simp only [List.cons_append, List.cons.injEq, List.nil_eq, List.append_eq_nil_iff] at hgs
        exact (hb.ne_nil hgs.2.2).elim
    obtain ⟨rfl, rfl⟩ := hg
    have he : Frame.encodeAll [] = [] := rfl
    simpa [collect, he, ofDatagram_empty] using ih rfl
  | wait hb ih =>
    rw [List.cons_append, collect]
    exact ih hgs

end Reply
end VethPeer
