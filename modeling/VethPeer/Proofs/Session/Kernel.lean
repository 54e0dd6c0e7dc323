import Mathlib
import VethPeer.Proofs.Session.Decoding
import VethPeer.Proofs.Session.Deliveries

/-! A kernel that answers requests from two tables, and what a session makes of its answers. -/
namespace VethPeer

open Wire

variable {α β : Type} {decode : Bytes → Except Fault α} {carries : Bytes → α → Prop}
  {carries' : Bytes → β → Prop} {kind : Kind} {seq : UInt32} {f : Frame} {fs : List Frame}
  {entries : List α} {ds rest : List Delivery} {s : Session} {r : Request} {operation : String}

/-- What a message asks the kernel for. -/
inductive Question
  | links
  | link (index : Int32)
  /-- Family zero stands for all families, index zero for all interfaces. -/
  | addresses (family : UInt8) (index : UInt32)
  deriving DecidableEq, Repr

namespace Question

def ofParts (kind : Kind) (flags : UInt16) (body : Bytes) : Option Question :=
  let isDump : Bool := flags &&& Flag.dump = Flag.dump
  if kind = Kind.getLink then
    if isDump then some .links else some (.link (UInt32.ofNat (body.field 4 4)).toInt32)
  else if kind = Kind.getAddress ∧ isDump then
    some (.addresses (.ofNat (body.field 0 1)) (.ofNat (body.field 4 4)))
  else none

/-- The kernel reads the header of a message and the family header behind it. -/
def ofMessage (b : Bytes) : Option Question :=
  ofParts (Header.ofBytes b).kind (Header.ofBytes b).flags (b.drop Header.size)

theorem ofParts_link (body : Bytes) : ofParts Kind.getLink Flag.request body =
    some (.link (UInt32.ofNat (body.field 4 4)).toInt32) := by
  have hd : Flag.request &&& Flag.dump ≠ Flag.dump := by decide
  simp [ofParts, hd]

theorem ofParts_addresses (body : Bytes) :
    ofParts Kind.getAddress (Flag.request ||| Flag.dump) body =
      some (.addresses (.ofNat (body.field 0 1)) (.ofNat (body.field 4 4))) := by
  have hk : Kind.getAddress ≠ Kind.getLink := by decide
  have hd : (Flag.request ||| Flag.dump) &&& Flag.dump = Flag.dump := by decide
  simp [ofParts, hk, hd]

end Question

/-- The message carries one entry of a table, in the reply to the request `seq`. -/
structure Lists (carries : Bytes → α → Prop) (kind : Kind) (seq : UInt32) (f : Frame) (e : α) :
    Prop where
  kind : f.header.kind = kind
  own : f.header.seq = seq
  kept : f.header.isInterrupted = false
  entry : carries f.payload e

/-- The deliveries are a dump of these entries in order, cut into datagrams anyhow. -/
def IsDump (carries : Bytes → α → Prop) (kind : Kind) (seq : UInt32) (entries : List α)
    (ds : List Delivery) : Prop :=
  ∃ fs last, List.Forall₂ (Lists carries kind seq) fs entries ∧ Dump.Closing seq last ∧
    Brings ds (fs ++ [last])

/-- The bytes are read as this entry. -/
def Decodes (decode : Bytes → Except Fault α) (b : Bytes) (e : α) : Prop := decode b = .ok e

/-- The kernel's tables of a namespace. -/
structure Tables where
  links : List LinkEntry
  addresses : List AddressEntry

namespace Tables

def inventory (t : Tables) : Inventory :=
  ⟨t.links.map (·.interface), t.addresses.map (·.assignment)⟩

def ofFamily (t : Tables) (family : UInt8) : List AddressEntry :=
  t.addresses.filter fun e => family = 0 ∨ e.family = family

/-- The entries of a family, in order. Those of other interfaces than the one asked for may be
among them or not. -/
structure Selects (t : Tables) (family : UInt8) (index : UInt32) (entries : List AddressEntry) :
    Prop where
  listed : entries.Sublist (t.ofFamily family)
  complete : entries.filter (fun e => index = 0 ∨ e.index = index) =
    (t.ofFamily family).filter fun e => index = 0 ∨ e.index = index

/-- An honest answer to a question in a message with the number `seq`. -/
def Answers (t : Tables) (seq : UInt32) (ds : List Delivery) : Question → Prop
  | .links => IsDump (Decodes LinkEntry.decode) Kind.newLink seq t.links ds
  | .link index =>
    match t.links.find? (·.index = index) with
    | some e => ∃ f, Lists (Decodes LinkEntry.decode) Kind.newLink seq f e ∧ Brings ds [f]
    | none => ∃ f a, f.header.kind = Kind.error ∧ f.header.seq = seq ∧
        Acknowledgement.read f.payload = .ok a ∧ a.code = -Errno.noDevice ∧ Brings ds [f]
  | .addresses family index =>
    ∃ entries, t.Selects family index entries ∧
      IsDump (Decodes AddressEntry.decode) Kind.newAddress seq entries ds

/-- The kernel answers every message that asks for something, each under the message's number. -/
def Honest (t : Tables) (answer : Bytes → List Delivery) : Prop :=
  ∀ message question, Question.ofMessage message = some question →
    t.Answers (Header.ofBytes message).seq (answer message) question

end Tables

theorem decodeTo_of_lists (h : List.Forall₂ (Lists (Decodes decode) kind seq) fs entries) :
    DecodeTo decode (fs.map (·.payload)) entries :=
  List.forall₂_map_left_iff.mpr (h.imp fun _ _ hf => hf.entry)

/-- A dump of rows is a dump of what they are read as, since none is longer than a datagram. -/
theorem IsDump.map {g : α → β} (h : IsDump carries kind seq entries ds)
    (hg : ∀ e ∈ entries, ∀ b : Bytes, b.length ≤ Delivery.capacity → carries b e →
      carries' b (g e)) :
    IsDump carries' kind seq (entries.map g) ds := by
  obtain ⟨fs, last, hl, hc, hb⟩ := h
  refine ⟨fs, last, ?_, hc, hb⟩
  have hfits : ∀ f ∈ fs, f.payload.length ≤ Delivery.capacity := by
    intro f hf
    exact hb.length_payload_le f (List.mem_append_left _ hf)
  clear hb
  induction hl with
  | nil => exact .nil
  | @cons f e fs entries hf _ ih =>
    refine .cons ⟨hf.kind, hf.own, hf.kept, ?_⟩ ?_
    · exact hg e (by simp) f.payload (hfits f (by simp)) hf.entry
    · exact ih (fun e he => hg e (by simp [he])) fun f hf => hfits f (by simp [hf])

/-- The kinds of table entries are none of the control messages. -/
theorem Lists.plain {e : α} (h : Lists carries kind seq f e)
    (hk : kind = Kind.newLink ∨ kind = Kind.newAddress) : Dump.Plain seq f := by
  refine ⟨h.own, h.kept, ?_⟩
  rw [h.kind]
  rcases hk with rfl | rfl <;> decide

theorem plain_of_lists (h : List.Forall₂ (Lists carries kind seq) fs entries)
    (hk : kind = Kind.newLink ∨ kind = Kind.newAddress) : ∀ f ∈ fs, Dump.Plain seq f := by
  intro f hm
  obtain ⟨e, -, hf⟩ := exists_mem_of_forall₂ h hm
  exact hf.plain hk

namespace Session

/-- The message that carries a request over the session as it is now. -/
def message (s : Session) (r : Request) : Bytes :=
  { r with seq := s.nextSeq, portId := s.portId }.bytes

/-- The session after a request was sent and its reply received. -/
def after (s : Session) (r : Request) (rest : List Delivery) : Session :=
  { s with nextSeq := s.nextSeq + 1, deliveries := rest, sent := s.message r :: s.sent }

theorem exchange_eq (hs : s.sendFault s.nextSeq = none) (r : Request) (collector : Collector) :
    s.exchange r collector = ((collector s.nextSeq s.deliveries).1,
      s.after r (collector s.nextSeq s.deliveries).2) := by
  simp [exchange, hs, after, message]

theorem ofBytes_message (s : Session) (r : Request) :
    Header.ofBytes (s.message r) = { r with seq := s.nextSeq, portId := s.portId }.header :=
  Header.ofBytes_bytes_append _ _

/-- A dump is decoded to its entries, and what follows it is left. -/
theorem decodeAll_dump (r : Request) (operation : String) (hs : s.sendFault s.nextSeq = none)
    (hd : s.deliveries = ds ++ rest) (h : IsDump (Decodes decode) kind s.nextSeq entries ds)
    (hk : kind = Kind.newLink ∨ kind = Kind.newAddress) :
    (decodeAll decode (s.dump r operation).1, (s.dump r operation).2) =
      (.ok entries, s.after r rest) := by
  obtain ⟨fs, last, hl, hc, hb⟩ := h
  have hcollect : Dump.collect s.nextSeq operation {} (ds ++ rest) =
      (Dump.finish operation ⟨(fs.map (·.payload)).reverse ++ [], false⟩, rest) :=
    Dump.collect_brings hb (plain_of_lists hl hk) hc
  have hfinish : Dump.finish operation ⟨(fs.map (·.payload)).reverse ++ [], false⟩ =
      .ok (fs.map (·.payload)) := by simp [Dump.finish]
  rw [dump, exchange_eq hs, hd, hcollect, hfinish]
  exact congrArg (·, s.after r rest) (decodeTo_of_lists hl).decodeAll_eq

def linksRequest : Request :=
  askLess ((Request.dump Kind.getLink).append (LinkEntry.requestHeader 0))

def linkRequest (index : Int32) : Request :=
  askLess (({ kind := Kind.getLink, flags := Flag.request } : Request).append
    (LinkEntry.requestHeader index))

def addressesRequest (family : UInt8) (index : UInt32) : Request :=
  (Request.dump Kind.getAddress).append (AddressEntry.requestHeader family index)

theorem ofMessage_message (s : Session) (r : Request) :
    Question.ofMessage (s.message r) = Question.ofParts r.kind r.flags r.body := by
  have hb : (s.message r).drop Header.size = r.body := by
    rw [message, Request.bytes, Frame.bytes, ← Header.length_bytes]
    exact List.drop_left
  rw [Question.ofMessage, ofBytes_message, hb]
  rfl

theorem ofMessage_links (s : Session) :
    Question.ofMessage (s.message linksRequest) = some .links := by
  rw [ofMessage_message]
  rfl

theorem ofMessage_link (s : Session) (index : Int32) :
    Question.ofMessage (s.message (linkRequest index)) = some (.link index) := by
  have hb : (linkRequest index).body.field 4 4 = index.toUInt32.toNat := by
    simp [linkRequest, askLess, Request.append, Request.appendWord, Request.appendAttribute,
      LinkEntry.requestHeader, Bytes.padded, Bytes.field_append, Bytes.field_ofNatLE]
  have hn : (UInt32.ofNat index.toUInt32.toNat).toInt32 = index := by simp
  have hq := Question.ofParts_link (linkRequest index).body
  rw [hb, hn] at hq
  rw [ofMessage_message]
  exact hq

theorem ofMessage_addresses (s : Session) (family : UInt8) (index : UInt32) :
    Question.ofMessage (s.message (addressesRequest family index)) =
      some (.addresses family index) := by
  have hbody : (addressesRequest family index).body =
      Bytes.padded (AddressEntry.requestHeader family index) := rfl
  have hf : (addressesRequest family index).body.field 0 1 = family.toNat := by
    simp [hbody, AddressEntry.requestHeader, Bytes.padded, Bytes.field, Bytes.ofNatLE,
      Bytes.toNatLE]
  have hi : (addressesRequest family index).body.field 4 4 = index.toNat := by
    simp [hbody, AddressEntry.requestHeader, Bytes.padded, Bytes.field_append, Bytes.field_ofNatLE]
  have hq := Question.ofParts_addresses (addressesRequest family index).body
  rw [hf, hi, UInt8.ofNat_toNat, UInt32.ofNat_toNat] at hq
  rw [ofMessage_message]
  exact hq

theorem links_of_isDump {links : List LinkEntry} (hs : s.sendFault s.nextSeq = none)
    (hd : s.deliveries = ds ++ rest)
    (h : IsDump (Decodes LinkEntry.decode) Kind.newLink s.nextSeq links ds) :
    s.links = (.ok links, s.after linksRequest rest) :=
  decodeAll_dump linksRequest "link dump" hs hd h (Or.inl rfl)

theorem addresses_of_isDump {addresses : List AddressEntry} (hs : s.sendFault s.nextSeq = none)
    (hd : s.deliveries = ds ++ rest)
    (h : IsDump (Decodes AddressEntry.decode) Kind.newAddress s.nextSeq addresses ds)
    (family : UInt8) (index : UInt32) :
    s.addresses family index = (.ok addresses, s.after (addressesRequest family index) rest) :=
  decodeAll_dump (addressesRequest family index) "address dump" hs hd h (Or.inr rfl)

/-- An honest kernel's refusal of a link that it does not have means that there is none. -/
theorem link?_of_answer {t : Tables} {index : Int32} (hs : s.sendFault s.nextSeq = none)
    (hd : s.deliveries = ds ++ rest) (h : t.Answers s.nextSeq ds (.link index)) :
    s.link? index =
      (.ok (t.links.find? (·.index = index)), s.after (linkRequest index) rest) := by
  have heq : s.link? index =
      (firstLink (s.request (linkRequest index) s!"getting link {index.toInt}").1,
        (s.request (linkRequest index) s!"getting link {index.toInt}").2) := rfl
  rw [heq, request, exchange_eq hs, hd]
  simp only [Tables.Answers] at h
  cases hf : t.links.find? (·.index = index) with
  | some e =>
    obtain ⟨f, hl, hb⟩ := hf ▸ h
    have he : f.header.isError = false := by
      simp [Header.isError, hl.kind, Kind.newLink, Kind.error]
    have hdecode : LinkEntry.decode f.payload = .ok e := hl.entry
    rw [Reply.collect_brings_single hb hl.own]
    simp [Frame.refusal?, he, firstLink, hdecode, Except.map, Except.mapError]
  | none =>
    obtain ⟨f, a, hk, hown, ha, hcode, hb⟩ := hf ▸ h
    have he : f.header.isError = true := by simp [Header.isError, hk]
    have hrefusal (operation : String) :
        f.refusal? operation = some (.fault (.refused operation Errno.noDevice)) := by
      simp only [Frame.refusal?, he, if_true, ha, hcode]
      rfl
    rw [Reply.collect_brings_single hb hown, hrefusal]
    simp [firstLink, Fault.isNotFound]

end Session
end VethPeer
