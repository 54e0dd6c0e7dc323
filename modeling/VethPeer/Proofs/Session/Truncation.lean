import Mathlib
import VethPeer.Proofs.Session.Isolation
import VethPeer.Proofs.Wire.Tiling

/-! A dump whose deliveries break off somewhere, and what is left of its outcome. -/
namespace VethPeer

open Wire

variable {seq : UInt32} {operation : String} {is js : List Item} {d : Dump} {v : List Bytes}
  {full kept stop ds : List Delivery}

/-- Nothing more comes in before receiving fails. -/
inductive Fails : List Delivery → Prop
  | exhausted : Fails []
  | failure (errno : Errno) (later : List Delivery) : Fails (.failure errno :: later)
  | wait {ds : List Delivery} (tail : Fails ds) : Fails (.notReady :: ds)

/-- Of all deliveries only the first are kept, and perhaps the start of the next datagram. -/
inductive BreaksOff : List Delivery → List Delivery → Prop
  | between (before after : List Delivery) : BreaksOff (before ++ after) before
  | within (before : List Delivery) (b : Bytes) (n : ℕ) (after : List Delivery) :
      BreaksOff (before ++ .datagram b :: after) (before ++ [.datagram (b.take n)])

namespace Item

/-- What a receiver meets in these deliveries, if others follow. -/
def arriving : List Delivery → List Item
  | [] => []
  | .notReady :: ds => arriving ds
  | .failure errno :: ds => .failure errno :: arriving ds
  | .datagram b :: ds => ofDatagram (Delivery.received b) ++ arriving ds

theorem ofDeliveries_append (ds rest : List Delivery) :
    ofDeliveries (ds ++ rest) = arriving ds ++ ofDeliveries rest := by
  induction ds with
  | nil => rfl
  | cons delivery ds ih => cases delivery <;> simp [ofDeliveries, arriving, ih]

theorem arriving_append (ds rest : List Delivery) :
    arriving (ds ++ rest) = arriving ds ++ arriving rest := by
  induction ds with
  | nil => rfl
  | cons delivery ds ih => cases delivery <;> simp [arriving, ih]

theorem arriving_datagram (b : Bytes) :
    arriving [.datagram b] = (Frame.split (Delivery.received b)).1.map .message ++
      ((Frame.split (Delivery.received b)).2.map .malformed).toList :=
  List.append_nil _

/-- Only the end of the request's own dump lets the dump succeed. -/
theorem decision?_eq_finish_iff (seq : UInt32) (operation : String) (i : Item) :
    i.decision? seq operation = some .finish ↔
      ∃ f, i = .message f ∧ f.header.seq = seq ∧ f.header.kind = .done := by
  cases i with
  | malformed fault => simp [decision?]
  | failure errno => simp [decision?]
  | message f =>
    simp only [decision?, decisionOf, message.injEq, exists_eq_left']
    constructor
    · intro h
      split at h
      · rename_i hs
        refine ⟨hs, ?_⟩
        split at h
        · split at h
          · cases h
          · split at h <;> cases h
        · split at h
          · cases h
          · split at h
            · assumption
            · cases h
      · cases h
    · rintro ⟨hs, hd⟩
      have he : f.header.kind ≠ .error := by rw [hd]; decide
      have ho : f.header.kind ≠ .overrun := by rw [hd]; decide
      rw [if_pos hs, if_neg he, if_neg ho, if_pos hd]

theorem mem_arriving (ds : List Delivery) (f : Frame) :
    .message f ∈ arriving ds ↔ Arrives ds f := by
  constructor
  · intro h
    apply arrives_of_mem_ofDeliveries
    have hd := ofDeliveries_append ds []
    rw [List.append_nil] at hd
    rw [hd]
    exact List.mem_append_left _ h
  · rintro ⟨b, hb, hf⟩
    obtain ⟨before, after, rfl⟩ := List.append_of_mem hb
    rw [arriving_append]
    apply List.mem_append_right
    rw [arriving, ofDatagram]
    simp [hf]

/-- A dump that fails on what follows can only have succeeded before. -/
theorem exists_finish_of_outcome
    (hjs : ∀ d, ∃ fault, outcome seq operation d js = .error (.fault fault))
    (h : outcome seq operation d (is ++ js) = .ok v) :
    ∃ i ∈ is, i.decision? seq operation = some .finish := by
  induction is generalizing d with
  | nil =>
    obtain ⟨fault, he⟩ := hjs d
    rw [List.nil_append, he] at h
    cases h
  | cons i is ih =>
    rw [List.cons_append, outcome] at h
    cases hi : i.decision? seq operation with
    | none =>
      rw [hi] at h
      obtain ⟨j, hj, hfinish⟩ := ih h
      exact ⟨j, List.mem_cons_of_mem _ hj, hfinish⟩
    | some e =>
      rw [hi] at h
      cases e with
      | stop why => cases h
      | finish => exact ⟨i, List.mem_cons_self, hi⟩

/-- Once an item settles the dump, what follows plays no part. -/
theorem outcome_append_congr (h : ∃ i ∈ is, (i.decision? seq operation).isSome = true) (d : Dump)
    (js ks : List Item) :
    outcome seq operation d (is ++ js) = outcome seq operation d (is ++ ks) := by
  obtain ⟨last, hf⟩ := Option.isSome_iff_exists.mp (List.find?_isSome.mpr h)
  obtain ⟨hs, before, after, heq, -⟩ := List.find?_eq_some_iff_append.mp hf
  obtain ⟨e, he⟩ := Option.isSome_iff_exists.mp hs
  subst heq
  rw [List.append_assoc, List.append_assoc]
  exact outcome_of_decision_irrel he d before _ _

/-- A dump is settled by one of the first items, or comes to what the others make of it. -/
theorem exists_decision_or_outcome (seq : UInt32) (operation : String) (d : Dump)
    (is js : List Item) :
    (∃ i ∈ is, (i.decision? seq operation).isSome = true) ∨
      ∃ d', outcome seq operation d (is ++ js) = outcome seq operation d' js := by
  induction is generalizing d with
  | nil => exact .inr ⟨d, rfl⟩
  | cons i is ih =>
    rw [List.cons_append, outcome]
    cases hi : i.decision? seq operation with
    | some e => exact .inl ⟨i, List.mem_cons_self, by rw [hi]; rfl⟩
    | none =>
      rcases ih (absorb seq d i) with ⟨j, hj, hs⟩ | hsame
      · exact .inl ⟨j, List.mem_cons_of_mem _ hj, hs⟩
      · exact .inr hsame

theorem outcome_of_fails (h : Fails stop) (d : Dump) :
    ∃ fault, outcome seq operation d (ofDeliveries stop) = .error (.fault fault) := by
  induction h with
  | exhausted => exact ⟨_, rfl⟩
  | failure errno later => exact ⟨_, rfl⟩
  | wait tail ih => exact ih

theorem outcome_of_malformed (seq : UInt32) (operation : String) (fault? : Option Fault)
    (h : Fails stop) (d : Dump) :
    ∃ fault, outcome seq operation d
      ((fault?.map .malformed).toList ++ ofDeliveries stop) = .error (.fault fault) := by
  cases fault? with
  | none => exact outcome_of_fails h d
  | some fault => exact ⟨fault, rfl⟩

end Item

/-- The messages of the kept part come first in all of the deliveries too. Of the rest the kept part
has at most bytes that are no message. -/
theorem BreaksOff.exists_items (h : BreaksOff full kept) :
    ∃ is js fault?, Item.ofDeliveries full = is ++ js ∧
      Item.arriving kept = is ++ (Option.map .malformed fault?).toList := by
  cases h with
  | between before after =>
    exact ⟨_, _, none, Item.ofDeliveries_append _ _, (List.append_nil _).symm⟩
  | within before b n after =>
    have hreceived : Delivery.received (b.take n) = (Delivery.received b).take n := by
      rw [Delivery.received, Delivery.received, List.take_take, List.take_take, Nat.min_comm]
    obtain ⟨gs, hgs⟩ := Frame.split_take_isPrefix (Delivery.received b) n
    rw [← hreceived] at hgs
    have hkept : Item.arriving (before ++ [.datagram (b.take n)]) =
        Item.arriving before ++ (Frame.split (Delivery.received (b.take n))).1.map .message ++
          ((Frame.split (Delivery.received (b.take n))).2.map .malformed).toList := by
      rw [Item.arriving_append, Item.arriving_datagram, ← List.append_assoc]
    have hfull : Item.ofDeliveries (before ++ .datagram b :: after) =
        Item.arriving before ++ (Frame.split (Delivery.received (b.take n))).1.map .message ++
          (gs.map .message ++ ((Frame.split (Delivery.received b)).2.map .malformed).toList ++
            Item.ofDeliveries after) := by
      rw [Item.ofDeliveries_append, Item.ofDeliveries, Item.ofDatagram, ← hgs, List.map_append]
      simp only [List.append_assoc]
    exact ⟨_, _, _, hfull, hkept⟩

/-- What lets a dump succeed is a message, so the bytes that are no message play no part. -/
theorem Item.exists_finish_iff {fault? : Option Fault}
    (h : arriving kept = is ++ (fault?.map .malformed).toList) :
    (∃ i ∈ is, i.decision? seq operation = some .finish) ↔
      ∃ f, ArrivesAs kept seq f ∧ f.header.kind = .done := by
  constructor
  · rintro ⟨i, hi, hfinish⟩
    obtain ⟨f, rfl, hseq, hdone⟩ := (decision?_eq_finish_iff seq operation i).mp hfinish
    have hmem : Item.message f ∈ arriving kept := by
      rw [h]
      exact List.mem_append_left _ hi
    exact ⟨f, ⟨(mem_arriving kept f).mp hmem, hseq⟩, hdone⟩
  · rintro ⟨f, ⟨harrives, hseq⟩, hdone⟩
    have hmem := (mem_arriving kept f).mpr harrives
    rw [h] at hmem
    have hi : Item.message f ∈ is := by
      rcases List.mem_append.mp hmem with hi | hi
      · exact hi
      · cases fault? <;> simp at hi
    exact ⟨_, hi, (decision?_eq_finish_iff seq operation (.message f)).mpr ⟨f, rfl, hseq, hdone⟩⟩

namespace Session

variable {s : Session} {r : Request}

theorem dumped_of_sendFault {errno : Errno} (hs : s.sendFault s.nextSeq = some errno) :
    s.dumped r operation ds = .error (.fault (.io errno)) := by
  simp [dumped, dump, exchange, hs]

/-- What breaks a dump over the kept deliveries off also breaks it off over all of them. -/
theorem dumped_overflow_of_breaksOff (hb : BreaksOff full kept) (hstop : Fails stop)
    (h : s.dumped r operation (kept ++ stop) = .error .overflow) :
    s.dumped r operation full = .error .overflow := by
  cases hs : s.sendFault s.nextSeq with
  | some errno =>
    rw [dumped_of_sendFault hs] at h
    cases h
  | none =>
    obtain ⟨is, js, fault?, hfull, hkept⟩ := hb.exists_items
    rw [dumped_eq_outcome hs, Item.ofDeliveries_append, hkept, List.append_assoc] at h
    rw [dumped_eq_outcome hs, hfull]
    rcases Item.exists_decision_or_outcome s.nextSeq operation {} is
        ((fault?.map .malformed).toList ++ Item.ofDeliveries stop) with hdecided | ⟨d, hd⟩
    · rw [← h]
      exact Item.outcome_append_congr hdecided {} _ _
    · obtain ⟨fault, hfault⟩ := Item.outcome_of_malformed s.nextSeq operation fault? hstop d
      rw [hd, hfault] at h
      cases h

/-- A dump over deliveries that break off succeeds exactly if the dump over all of them does and a
message that ends it is in the kept part. Then it has the same payloads, so breaking off never
leaves fewer or other ones. -/
theorem dumped_breaksOff (s : Session) (r : Request) (operation : String)
    (hb : BreaksOff full kept) (hstop : Fails stop) :
    (∀ v, s.dumped r operation (kept ++ stop) = .ok v ↔
      s.dumped r operation full = .ok v ∧
        ∃ f, ArrivesAs kept s.nextSeq f ∧ f.header.kind = .done) ∧
    ∀ v, s.dumped r operation full = .ok v →
      s.dumped r operation (kept ++ stop) = .ok v ∨
        ∃ fault, s.dumped r operation (kept ++ stop) = .error (.fault fault) := by
  have hiff : ∀ v, s.dumped r operation (kept ++ stop) = .ok v ↔
      s.dumped r operation full = .ok v ∧
        ∃ f, ArrivesAs kept s.nextSeq f ∧ f.header.kind = .done := by
    intro v
    cases hs : s.sendFault s.nextSeq with
    | some errno => simp [dumped_of_sendFault hs]
    | none =>
      obtain ⟨is, js, fault?, hfull, hkept⟩ := hb.exists_items
      rw [dumped_eq_outcome hs, dumped_eq_outcome hs, Item.ofDeliveries_append, hkept, hfull,
        List.append_assoc]
      have hsame (hfinish : ∃ i ∈ is, i.decision? s.nextSeq operation = some .finish) :
          Item.outcome s.nextSeq operation {}
              (is ++ ((fault?.map .malformed).toList ++ Item.ofDeliveries stop)) =
            Item.outcome s.nextSeq operation {} (is ++ js) := by
        obtain ⟨i, hi, hfinish⟩ := hfinish
        exact Item.outcome_append_congr ⟨i, hi, by rw [hfinish]; rfl⟩ {} _ _
      rw [← Item.exists_finish_iff hkept]
      constructor
      · intro h
        have hfails := Item.outcome_of_malformed s.nextSeq operation fault? hstop
        have hfinish := Item.exists_finish_of_outcome hfails h
        exact ⟨(hsame hfinish).symm.trans h, hfinish⟩
      · rintro ⟨h, hfinish⟩
        exact (hsame hfinish).trans h
  refine ⟨hiff, ?_⟩
  intro v hv
  cases hcut : s.dumped r operation (kept ++ stop) with
  | error why =>
    cases why with
    | fault fault => exact Or.inr ⟨fault, rfl⟩
    | overflow =>
      rw [dumped_overflow_of_breaksOff hb hstop hcut] at hv
      cases hv
  | ok w =>
    have hw := ((hiff w).mp hcut).1
    rw [hv] at hw
    exact Or.inl (congrArg _ (Except.ok.inj hw).symm)

/-- The deliveries break off in the header of the payload that comes too late. -/
def brokenParts : Delivery := .datagram ((Frame.encodeAll someParts).take 95)

theorem dumped_breaksOff_brokenParts :
    BreaksOff [datagramOf someParts] [brokenParts] ∧ Fails [.failure .notPermitted] ∧
    Session.dumped { portId := 7 } (.dump Kind.getLink) "link dump"
      ([brokenParts] ++ [.failure .notPermitted]) = .ok [[1, 2, 3, 4]] := by
  have hb : BreaksOff [datagramOf someParts] [brokenParts] := .within [] _ 95 []
  have hstop : Fails [.failure .notPermitted] := .failure _ []
  have whole : Brings [datagramOf someParts] someParts :=
    brings_datagramOf (by decide) (by decide +kernel) (by decide)
  have hfull : Session.dumped { portId := 7 } (.dump Kind.getLink) "link dump"
      [datagramOf someParts] = .ok [[1, 2, 3, 4]] := by
    rw [dumped_eq_outcome rfl]
    exact (congrArg _ (Item.ofDeliveries_brings_append whole [])).trans rfl
  have hkept : Delivery.received ((Frame.encodeAll someParts).take 95) =
      Frame.encodeAll (someParts.take 4) ++ [17, 0, 0] := by decide +kernel
  have hdone : ArrivesAs [brokenParts] 1 ⟨⟨16, Kind.done, 0x2, 1, 0⟩, []⟩ := by
    refine ⟨⟨_, List.mem_singleton_self _, ?_⟩, rfl⟩
    rw [hkept, Frame.split_encodeAll_append (by decide)]
    exact List.mem_append_left _ (by decide)
  exact ⟨hb, hstop, ((dumped_breaksOff { portId := 7 } (.dump Kind.getLink) "link dump" hb hstop).1
    [[1, 2, 3, 4]]).mpr ⟨hfull, _, hdone, rfl⟩⟩

end Session
end VethPeer
