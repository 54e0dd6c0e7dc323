import Mathlib
import VethPeer.Proofs.Session.Kernel
import VethPeer.Proofs.Wire.Rows

/-! A kernel that answers from its rows with one datagram for each message. It is honest. -/
namespace VethPeer

open Wire

variable {α : Type} {carries : Bytes → α → Prop} {kind : Kind} {seq : UInt32} {fs : List Frame}
  {f : Frame} {ds : List Delivery} {linkRows : List LinkRow} {addressRows : List AddressRow}

theorem isDump_link_entries (wf : ∀ r ∈ linkRows, r.WellFormed)
    (h : IsDump LinkRow.CarriedBy Kind.newLink seq linkRows ds) :
    IsDump (Decodes LinkEntry.decode) Kind.newLink seq (linkRows.map (·.entry)) ds := by
  apply h.map
  intro r hr b hb hp
  exact (wf r hr).decode_carried hp (hb.trans_lt Delivery.capacity_lt)

theorem isDump_address_entries (wf : ∀ r ∈ addressRows, r.WellFormed)
    (h : IsDump AddressRow.CarriedBy Kind.newAddress seq addressRows ds) :
    IsDump (Decodes AddressEntry.decode) Kind.newAddress seq (addressRows.map (·.entry))
      ds := by
  apply h.map
  intro r hr b hb hp
  exact (wf r hr).decode_carried hp (hb.trans_lt Delivery.capacity_lt)

/-- A message with this payload fits a datagram of its own. -/
def Fits (payload : Bytes) : Prop := Header.size + payload.length ≤ Delivery.capacity

instance (payload : Bytes) : Decidable (Fits payload) := inferInstanceAs (Decidable (_ ≤ _))

/-- A message of the reply to the request `seq`. -/
def replyFrame (kind : Kind) (seq : UInt32) (payload : Bytes) : Frame :=
  ⟨⟨.ofNat (Header.size + payload.length), kind, 0x2, seq, 0⟩, payload⟩

def oneEach (fs : List Frame) : List Delivery := fs.map fun f => .datagram (Frame.encodeAll [f])

theorem replyFrame_kept (kind : Kind) (seq : UInt32) (payload : Bytes) :
    (replyFrame kind seq payload).header.isInterrupted = false := by
  have hf : (0x2 : UInt16) &&& Flag.interrupted = 0 := by decide
  simp [Header.isInterrupted, replyFrame, hf]

theorem Fits.length_lt {payload : Bytes} (h : Fits payload) : payload.length < 65536 :=
  (Nat.le_add_left _ _).trans_lt (h.trans_lt Delivery.capacity_lt)

theorem replyFrame_wellFormed {payload : Bytes} (h : Fits payload) :
    (replyFrame kind seq payload).WellFormed := by
  have hc : Delivery.capacity < 4294967296 := by decide
  exact UInt32.toNat_ofNat_of_lt' (h.trans_lt hc)

theorem length_encodeAll_replyFrame {payload : Bytes} (h : Fits payload) :
    (Frame.encodeAll [replyFrame kind seq payload]).length ≤ Delivery.capacity := by
  have hl : (Frame.encodeAll [replyFrame kind seq payload]).length =
      Bytes.aligned (Header.size + payload.length) := by
    simp [Frame.encodeAll, Frame.encode, Bytes.length_padded, Frame.length_frameBytes, replyFrame]
  rw [hl, Bytes.aligned]
  rw [Fits, Delivery.capacity] at h
  rw [Delivery.capacity]
  omega

theorem brings_oneEach (wf : ∀ f ∈ fs, f.WellFormed)
    (fits : ∀ f ∈ fs, (Frame.encodeAll [f]).length ≤ Delivery.capacity) (hne : fs ≠ []) :
    Brings (oneEach fs) fs := by
  induction fs with
  | nil => exact (hne rfl).elim
  | cons f fs ih =>
    have hwf : ∀ g ∈ [f], g.WellFormed := by simpa using wf f (by simp)
    have hfits := fits f (by simp)
    by_cases hnil : fs = []
    · subst hnil
      exact .last hwf hfits (by simp)
    · have htail := ih (fun g hg => wf g (by simp [hg])) (fun g hg => fits g (by simp [hg])) hnil
      exact .more hwf hfits htail

theorem brings_replyFrame {payload : Bytes} (h : Fits payload) :
    Brings (oneEach [replyFrame kind seq payload]) [replyFrame kind seq payload] :=
  .last (by simpa using replyFrame_wellFormed h) (length_encodeAll_replyFrame h) (by simp)

theorem lists_replyFrame {payload : Bytes} {e : α} (h : carries payload e) :
    Lists carries kind seq (replyFrame kind seq payload) e :=
  ⟨rfl, rfl, replyFrame_kept kind seq payload, h⟩

/-- The messages that list these payloads, and the one that ends the list. -/
def dumpFrames (kind : Kind) (seq : UInt32) (payloads : List Bytes) : List Frame :=
  payloads.map (replyFrame kind seq) ++ [replyFrame .done seq []]

theorem fits_dumpFrames {payloads : List Bytes} (fits : ∀ p ∈ payloads, Fits p)
    (hf : f ∈ dumpFrames kind seq payloads) :
    f.WellFormed ∧ (Frame.encodeAll [f]).length ≤ Delivery.capacity := by
  have hdone : Fits [] := by decide
  obtain ⟨kind', p, hp, rfl⟩ : ∃ kind' p, Fits p ∧ f = replyFrame kind' seq p := by
    rcases List.mem_append.mp hf with hf | hf
    · obtain ⟨p, hp, rfl⟩ := List.mem_map.mp hf
      exact ⟨kind, p, fits p hp, rfl⟩
    · exact ⟨.done, [], hdone, List.mem_singleton.mp hf⟩
  exact ⟨replyFrame_wellFormed hp, length_encodeAll_replyFrame hp⟩

theorem lists_map_replyFrame {payload : α → Bytes} {entries : List α}
    (h : ∀ e ∈ entries, carries (payload e) e) :
    List.Forall₂ (Lists carries kind seq) ((entries.map payload).map (replyFrame kind seq))
      entries := by
  induction entries with
  | nil => exact .nil
  | cons e entries ih =>
    exact .cons (lists_replyFrame (h e (by simp))) (ih fun e he => h e (by simp [he]))

theorem isDump_dumpFrames {payload : α → Bytes} {entries : List α}
    (h : ∀ e ∈ entries, carries (payload e) e) (fits : ∀ e ∈ entries, Fits (payload e)) :
    IsDump carries kind seq entries (oneEach (dumpFrames kind seq (entries.map payload))) := by
  have hfits : ∀ p ∈ entries.map payload, Fits p := by
    intro p hp
    obtain ⟨e, he, rfl⟩ := List.mem_map.mp hp
    exact fits e he
  refine ⟨_, _, lists_map_replyFrame h, ⟨rfl, replyFrame_kept .done seq [], rfl⟩, ?_⟩
  apply brings_oneEach
  · intro f hf
    exact (fits_dumpFrames hfits hf).1
  · intro f hf
    exact (fits_dumpFrames hfits hf).2
  · simp [dumpFrames]

/-- The rows of a namespace's tables. -/
structure Rows where
  links : List LinkRow
  addresses : List AddressRow

namespace Rows

variable {rows : Rows}

/-- What the rows are read as. -/
def tables (rows : Rows) : Tables := ⟨rows.links.map (·.entry), rows.addresses.map (·.entry)⟩

structure WellFormed (rows : Rows) : Prop where
  links : ∀ r ∈ rows.links, r.WellFormed ∧ Fits r.payload
  addresses : ∀ r ∈ rows.addresses, r.WellFormed ∧ Fits r.payload

/-- The payload of the refusal to show a link that is not there. -/
def noDevice : Bytes :=
  Bytes.ofNatLE 4 (-Errno.noDevice : Int32).toUInt32.toNat ++ List.replicate Header.size 0

def ofFamily (rows : Rows) (family : UInt8) : List AddressRow :=
  rows.addresses.filter fun r => family = 0 ∨ r.family = family

/-- The index of an address request is not heeded. -/
def reply (rows : Rows) (seq : UInt32) : Question → List Frame
  | .links => dumpFrames Kind.newLink seq (rows.links.map (·.payload))
  | .link index =>
    match rows.links.find? (·.index = index) with
    | some r => [replyFrame Kind.newLink seq r.payload]
    | none => [replyFrame Kind.error seq noDevice]
  | .addresses family _ =>
    dumpFrames Kind.newAddress seq ((rows.ofFamily family).map (·.payload))

def answer (rows : Rows) (message : Bytes) : List Delivery :=
  match Question.ofMessage message with
  | some question => oneEach (rows.reply (Header.ofBytes message).seq question)
  | none => []

theorem noDevice_read : ∃ a, Acknowledgement.read noDevice = .ok a ∧ a.code = -Errno.noDevice :=
  ⟨_, rfl, rfl⟩

theorem ofFamily_tables (rows : Rows) (family : UInt8) :
    rows.tables.ofFamily family = (rows.ofFamily family).map (·.entry) := by
  rw [Tables.ofFamily, tables, List.filter_map]
  rfl

theorem find?_tables (rows : Rows) (index : Int32) :
    rows.tables.links.find? (·.index = index) =
      (rows.links.find? (·.index = index)).map (·.entry) := by
  rw [tables, List.find?_map]
  rfl

theorem WellFormed.honest (h : rows.WellFormed) : rows.tables.Honest rows.answer := by
  intro message question hq
  simp only [answer, hq]
  cases question with
  | links =>
    apply isDump_link_entries fun r hr => (h.links r hr).1
    exact isDump_dumpFrames (fun r _ => r.carriedBy_payload) fun r hr => (h.links r hr).2
  | link index =>
    simp only [Tables.Answers, find?_tables, reply]
    cases hf : rows.links.find? (·.index = index) with
    | some r =>
      obtain ⟨hwf, hfits⟩ := h.links r (List.mem_of_find?_eq_some hf)
      exact ⟨_, lists_replyFrame (hwf.decode_carried r.carriedBy_payload hfits.length_lt),
        brings_replyFrame hfits⟩
    | none =>
      obtain ⟨a, ha, hcode⟩ := noDevice_read
      exact ⟨_, a, rfl, rfl, ha, hcode, brings_replyFrame (by decide)⟩
  | addresses family index =>
    have hmem : ∀ r ∈ rows.ofFamily family, r ∈ rows.addresses :=
      fun r hr => (List.mem_filter.mp hr).1
    refine ⟨(rows.ofFamily family).map (·.entry), ?_, ?_⟩
    · rw [← ofFamily_tables]
      exact ⟨List.Sublist.refl _, rfl⟩
    · apply isDump_address_entries fun r hr => (h.addresses r (hmem r hr)).1
      exact isDump_dumpFrames (fun r _ => r.carriedBy_payload)
        fun r hr => (h.addresses r (hmem r hr)).2

/-- The second interface owns addresses of two families. -/
def veth : Rows where
  links := [{ index := 1, name := [108, 111] }, { index := 2, name := [118, 101], link := some 9 }]
  addresses := [
    { family := 2, index := 1, address := some (.v4 0x7F000001) },
    { family := 10, index := 2, address := some (.v6 1) },
    { family := 2, index := 2, local? := some (.v4 0x0A000002), address := some (.v4 0x0A000001) }]

theorem veth_wellFormed : veth.WellFormed := by
  constructor
  · intro r hr
    simp only [veth, List.mem_cons, List.not_mem_nil, or_false] at hr
    rcases hr with rfl | rfl <;> exact ⟨⟨by decide, by simp, by simp⟩, by decide +kernel⟩
  · intro r hr
    simp only [veth, List.mem_cons, List.not_mem_nil, or_false] at hr
    rcases hr with rfl | rfl | rfl <;>
      exact ⟨⟨by decide, by simp [Family.ofIp, Family.code], by simp [Family.ofIp, Family.code],
        by simp⟩, by decide +kernel⟩

end Rows
end VethPeer
