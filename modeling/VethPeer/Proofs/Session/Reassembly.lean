import Mathlib
import VethPeer.Proofs.Session.Codes
import VethPeer.Proofs.Session.Deliveries
import VethPeer.Session.Basic

/-! A dump read as one sequence of messages, whatever datagrams they arrive in. -/
namespace VethPeer

open Wire

/-- What a receiver meets in turn: a message, bytes that are none, or a failure to receive. -/
inductive Item
  | message (f : Frame)
  | malformed (fault : Fault)
  | failure (errno : Errno)
  deriving DecidableEq, Repr

/-- What an item that settles a dump makes of it. -/
inductive Decision
  | stop (stop : Stop Fault)
  | finish
  deriving DecidableEq, Repr

/-- What a dump comes to when it is settled so. -/
def Decision.settle (operation : String) (d : Dump) : Decision → Except (Stop Fault) (List Bytes)
  | .stop why => .error why
  | .finish => d.finish operation

namespace Item

variable {seq : UInt32} {operation : String} {d : Dump} {fs : List Frame} {i last : Item}
  {is before : List Item} {ds ds' rest : List Delivery}

def ofDatagram (b : Bytes) : List Item :=
  (Frame.split b).1.map .message ++ ((Frame.split b).2.map .malformed).toList

/-- When the deliveries are over, receiving fails. -/
def ofDeliveries : List Delivery → List Item
  | [] => [.failure .timedOut]
  | .notReady :: ds => ofDeliveries ds
  | .failure errno :: ds => .failure errno :: ofDeliveries ds
  | .datagram b :: ds => ofDatagram (Delivery.received b) ++ ofDeliveries ds

/-- The code in an error message's payload. -/
def errorCode (f : Frame) : Int32 := (UInt32.ofNat (f.payload.field 0 4)).toInt32

/-- How a message of the request itself settles its dump, if it does. -/
def decisionOf (operation : String) (f : Frame) : Option Decision :=
  if f.header.kind = .error then
    if f.payload.length < 20 then some (.stop (.fault (.truncated 20 f.payload.length)))
    else if errorCode f = 0 then none
    else some (.stop (.ofRefusal operation (errorCode f)))
  else if f.header.kind = .overrun then some (.stop (.fault (.badMessage (.dataLost operation))))
  else if f.header.kind = .done then some .finish
  else none

def decision? (seq : UInt32) (operation : String) : Item → Option Decision
  | .message f => if f.header.seq = seq then decisionOf operation f else none
  | .malformed fault => some (.stop (.fault fault))
  | .failure errno => some (.stop (.fault (.io errno)))

/-- The item is an error message of the request itself whose code has no negative. -/
def Overflows (seq : UInt32) : Item → Prop
  | .message f => f.header.seq = seq ∧ f.header.kind = .error ∧ 20 ≤ f.payload.length ∧
      errorCode f = Int32.minValue
  | _ => False

/-- The kernel's tables changed while it was listing them for this request. -/
def interrupts (seq : UInt32) : Item → Bool
  | .message f => f.header.seq = seq ∧ f.header.flags &&& Flag.interrupted ≠ 0
  | _ => false

/-- What the item adds to a dump that it does not settle. -/
def payload? (seq : UInt32) : Item → Option Bytes
  | .message f =>
    if f.header.seq = seq ∧ f.header.kind ≠ .error ∧ f.header.kind ≠ .noop then some f.payload
    else none
  | _ => none

/-- Messages of other requests do not concern this one. -/
def concerns (seq : UInt32) : Item → Bool
  | .message f => f.header.seq = seq
  | _ => true

def note (seq : UInt32) (d : Dump) (i : Item) : Dump :=
  { d with interrupted := d.interrupted || i.interrupts seq }

/-- The dump with one more item that does not settle it. -/
def absorb (seq : UInt32) (d : Dump) (i : Item) : Dump :=
  { note seq d i with payloads := (i.payload? seq).toList ++ d.payloads }

/-- What the dump comes to, item by item. -/
def outcome (seq : UInt32) (operation : String) (d : Dump) :
    List Item → Except (Stop Fault) (List Bytes)
  | [] => .error (.fault (.io .timedOut))
  | i :: is =>
    match i.decision? seq operation with
    | none => outcome seq operation (absorb seq d i) is
    | some e => e.settle operation (note seq d i)

theorem refusal?_eq (operation : String) (f : Frame) (h : f.header.kind = .error) :
    f.refusal? operation =
      if f.payload.length < 20 then some (.fault (.truncated 20 f.payload.length))
      else if errorCode f = 0 then none else some (.ofRefusal operation (errorCode f)) := by
  have hc : Bytes.field (f.payload.take 20) 0 4 = f.payload.field 0 4 := by
    simp [Bytes.field, List.take_take]
  by_cases hl : f.payload.length < 20
  · have hle : ¬ 20 ≤ f.payload.length := by omega
    simp [Frame.refusal?, Header.isError, h, Acknowledgement.read, Bytes.cut?_eq, hl, hle]
  · have hle : 20 ≤ f.payload.length := by omega
    simp [Frame.refusal?, Header.isError, h, Acknowledgement.read, Bytes.cut?_eq, hl, hle, hc,
      errorCode]

theorem decision?_eq_overflow_iff (seq : UInt32) (operation : String) (i : Item) :
    i.decision? seq operation = some (.stop .overflow) ↔ i.Overflows seq := by
  cases i with
  | malformed fault | failure errno => simp [decision?, Overflows]
  | message f =>
    have hmin : Int32.minValue ≠ 0 := by decide
    by_cases hk : f.header.seq = seq ∧ f.header.kind = .error
    · obtain ⟨hs, hk⟩ := hk
      simp only [decision?, decisionOf, Overflows, hs, hk, if_true, true_and]
      split_ifs with hl hc
      · simp [hl]
      · simp [hc, hmin.symm]
      · simp [not_lt.mp hl, Stop.ofRefusal_eq_overflow_iff]
    · have hnot : ¬ Overflows seq (.message f) := fun h => hk ⟨h.1, h.2.1⟩
      simp only [hnot, iff_false, decision?]
      split_ifs with hs
      · rw [decisionOf, if_neg fun he => hk ⟨hs, he⟩]
        split_ifs <;> exact nofun
      · exact nofun

theorem part_eq (operation : String) (f : Frame) :
    Dump.part operation f =
      match decisionOf operation f with
      | none =>
        if f.header.kind = .error ∨ f.header.kind = .noop then .nothing else .payload f.payload
      | some (.stop stop) => .stop stop
      | some .finish => .finish := by
  by_cases he : f.header.kind = .error
  · by_cases hl : f.payload.length < 20
    · simp [Dump.part, Header.isError, decisionOf, refusal?_eq operation f he, he, hl]
    · by_cases hc : errorCode f = 0 <;>
        simp [Dump.part, Header.isError, decisionOf, refusal?_eq operation f he, he, hl, hc]
  · by_cases ho : f.header.kind = .overrun
    · have hd : (Kind.overrun : Kind) ≠ .done := by decide
      have hn : (Kind.overrun : Kind) ≠ .noop := by decide
      have hx : (Kind.overrun : Kind) ≠ .error := by decide
      simp [Dump.part, Header.isError, Header.isDone, decisionOf, ho, hd, hn, hx]
    · by_cases hd : f.header.kind = .done
      · rw [hd] at he ho
        simp [Dump.part, Header.isError, Header.isDone, decisionOf, he, ho, hd]
      · simp [Dump.part, Header.isError, Header.isDone, decisionOf, he, ho, hd]

/-- One message does to a dump what the item that it is says. -/
theorem feed_cons (f : Frame) (fs : List Frame) :
    Dump.feed seq operation d (f :: fs) =
      match (Item.message f).decision? seq operation with
      | none => Dump.feed seq operation (absorb seq d (.message f)) fs
      | some (.stop stop) => .error stop
      | some .finish => .ok (note seq d (.message f), true) := by
  by_cases hs : f.header.seq = seq
  · have hi : (Item.message f).interrupts seq = f.header.isInterrupted := by
      simp [interrupts, hs, Header.isInterrupted]
    simp only [Dump.feed, hs, ne_eq, not_true_eq_false, if_false, part_eq, decision?, if_true]
    cases decisionOf operation f with
    | none =>
      by_cases hk : f.header.kind = .error ∨ f.header.kind = .noop
      · have hno : (Item.message f).payload? seq = none := by
          rcases hk with hk | hk <;> simp [payload?, hk]
        simp [hk, absorb, note, hno, hi]
      · have hyes : (Item.message f).payload? seq = some f.payload := by
          simp [payload?, hs, not_or.mp hk]
        simp [hk, absorb, note, hyes, hi]
    | some e => cases e <;> simp [note, hi]
  · simp [Dump.feed, decision?, absorb, note, payload?, interrupts, hs]

/-- A datagram is taken in item by item. -/
theorem outcome_messages_append (d : Dump) (fs : List Frame) (is : List Item) :
    outcome seq operation d (fs.map .message ++ is) =
      match Dump.feed seq operation d fs with
      | .error stop => .error stop
      | .ok (d, true) => Dump.finish operation d
      | .ok (d, false) => outcome seq operation d is := by
  induction fs generalizing d with
  | nil => rfl
  | cons f fs ih =>
    rw [List.map_cons, List.cons_append, outcome, feed_cons]
    cases (Item.message f).decision? seq operation with
    | none => exact ih _
    | some e => cases e <;> rfl

/-- The collector of a dump sees no more of the deliveries than their items. -/
theorem collect_eq_outcome (d : Dump) (ds : List Delivery) :
    (Dump.collect seq operation d ds).1 = outcome seq operation d (ofDeliveries ds) := by
  induction ds generalizing d with
  | nil => rfl
  | cons delivery ds ih =>
    cases delivery with
    | notReady => exact ih d
    | failure errno => rfl
    | datagram b =>
      simp only [Dump.collect, ofDeliveries, ofDatagram, List.append_assoc,
        outcome_messages_append]
      cases Dump.feed seq operation d (Frame.split (Delivery.received b)).1 with
      | error stop => rfl
      | ok p =>
        obtain ⟨d, _ | _⟩ := p
        · cases (Frame.split (Delivery.received b)).2 with
          | none => exact ih d
          | some fault => rfl
        · rfl

theorem outcome_filter_concerns (d : Dump) (is : List Item) :
    outcome seq operation d (is.filter (·.concerns seq)) = outcome seq operation d is := by
  induction is generalizing d with
  | nil => rfl
  | cons i is ih =>
    by_cases hc : i.concerns seq = true
    · rw [List.filter_cons_of_pos hc, outcome, outcome, ih]
    · cases i with
      | message f =>
        have hs : f.header.seq ≠ seq := by simpa [concerns] using hc
        rw [List.filter_cons_of_neg hc, ih]
        simp [outcome, decision?, absorb, note, payload?, interrupts, hs]
      | malformed fault => exact (hc rfl).elim
      | failure errno => exact (hc rfl).elim

/-- The first item that settles the dump does so with what was absorbed before it. -/
theorem outcome_of_decision {e : Decision} (hb : ∀ i ∈ before, i.decision? seq operation = none)
    (hl : last.decision? seq operation = some e) (d : Dump) (after : List Item) :
    outcome seq operation d (before ++ last :: after) =
      e.settle operation (note seq (before.foldl (absorb seq) d) last) := by
  induction before generalizing d with
  | nil => rw [List.nil_append, outcome, hl, List.foldl_nil]
  | cons i before ih =>
    rw [List.cons_append, outcome, hb i (by simp)]
    exact ih (fun j hj => hb j (by simp [hj])) _

theorem foldl_absorb_payloads (d : Dump) (is : List Item) :
    (is.foldl (absorb seq) d).payloads.reverse =
      d.payloads.reverse ++ is.filterMap (·.payload? seq) := by
  induction is generalizing d with
  | nil => simp
  | cons i is ih =>
    rw [List.foldl_cons, ih]
    cases hp : i.payload? seq <;> simp [absorb, note, hp]

theorem foldl_absorb_interrupted (d : Dump) (is : List Item) :
    (is.foldl (absorb seq) d).interrupted = (d.interrupted || is.any (·.interrupts seq)) := by
  induction is generalizing d with
  | nil => simp
  | cons i is ih => simp [ih, absorb, note, Bool.or_assoc]

/-- Receiving fails in the end, so some item settles every dump. -/
theorem exists_decision (seq : UInt32) (operation : String) (ds : List Delivery) :
    ∃ before last after e, ofDeliveries ds = before ++ last :: after ∧
      (∀ i ∈ before, i.decision? seq operation = none) ∧ last.decision? seq operation = some e := by
  have hmem : ∃ i ∈ ofDeliveries ds, (i.decision? seq operation).isSome = true := by
    induction ds with
    | nil => exact ⟨_, List.mem_singleton_self _, rfl⟩
    | cons delivery ds ih =>
      obtain ⟨i, hi, hs⟩ := ih
      cases delivery with
      | notReady => exact ⟨i, hi, hs⟩
      | failure errno => exact ⟨i, List.mem_cons_of_mem _ hi, hs⟩
      | datagram b => exact ⟨i, List.mem_append_right _ hi, hs⟩
  obtain ⟨last, hf⟩ := Option.isSome_iff_exists.mp (List.find?_isSome.mpr hmem)
  obtain ⟨hs, before, after, heq, hb⟩ := List.find?_eq_some_iff_append.mp hf
  obtain ⟨e, he⟩ := Option.isSome_iff_exists.mp hs
  exact ⟨before, last, after, e, heq, fun i hi => by simpa using hb i hi, he⟩

theorem outcome_of_decision_irrel {e : Decision} (hl : last.decision? seq operation = some e)
    (d : Dump) (before after after' : List Item) :
    outcome seq operation d (before ++ last :: after) =
      outcome seq operation d (before ++ last :: after') := by
  induction before generalizing d with
  | nil => rw [List.nil_append, List.nil_append, outcome, outcome, hl]
  | cons i before ih =>
    rw [List.cons_append, List.cons_append, outcome, outcome, ih]

/-- No trace is left of how messages were cut into datagrams. -/
theorem ofDeliveries_brings_append (hb : Brings ds fs) (rest : List Delivery) :
    ofDeliveries (ds ++ rest) = fs.map .message ++ ofDeliveries rest := by
  induction hb with
  | last wf fits hne => simp [ofDeliveries, ofDatagram, split_received wf fits]
  | more wf fits hb ih => simp [ofDeliveries, ofDatagram, split_received wf fits, ih]
  | wait hb ih => exact ih

end Item

namespace Session

variable {s : Session} {r : Request} {operation : String} {ds : List Delivery}

/-- What a dump over this socket comes to if these are the deliveries. -/
def dumped (s : Session) (r : Request) (operation : String) (ds : List Delivery) :
    Except (Stop Fault) (List Bytes) :=
  ({ s with deliveries := ds }.dump r operation).1

theorem dumped_eq_outcome (hs : s.sendFault s.nextSeq = none) :
    s.dumped r operation ds = Item.outcome s.nextSeq operation {} (Item.ofDeliveries ds) := by
  simp [dumped, dump, exchange, hs, Item.collect_eq_outcome]

/-- The first item that can settle a dump does. Up to its end a dump has the payloads of its own
messages, unless one of them, the last included, tells of an interruption. So neither the cut into
datagrams nor other requests' messages nor anything after the end play a part. An own error message
with the lowest code of all breaks the dump off, and nothing else does. -/
theorem dumped_by_items (hs : s.sendFault s.nextSeq = none) (r : Request) (operation : String) :
    (∀ ds, ∃ before last after, Item.ofDeliveries ds = before ++ last :: after ∧
      (∀ i ∈ before, i.decision? s.nextSeq operation = none) ∧
      ((∃ fault, last.decision? s.nextSeq operation = some (.stop (.fault fault)) ∧
          s.dumped r operation ds = .error (.fault fault)) ∨
        last.Overflows s.nextSeq ∧ s.dumped r operation ds = .error .overflow ∨
        last.decision? s.nextSeq operation = some .finish ∧
          s.dumped r operation ds =
            if (before ++ [last]).any (·.interrupts s.nextSeq) then
              .error (.fault (.interrupted operation))
            else .ok (before.filterMap (·.payload? s.nextSeq)))) ∧
    (∀ i : Item, i.decision? s.nextSeq operation = some (.stop .overflow) ↔
      i.Overflows s.nextSeq) ∧
    (∀ ds ds', (Item.ofDeliveries ds).filter (·.concerns s.nextSeq) =
        (Item.ofDeliveries ds').filter (·.concerns s.nextSeq) →
      s.dumped r operation ds = s.dumped r operation ds') ∧
    (∀ fs ds ds' rest, Brings ds fs → Brings ds' fs →
      s.dumped r operation (ds ++ rest) = s.dumped r operation (ds' ++ rest)) ∧
    ∀ ds ds' before last after after', last.decision? s.nextSeq operation = some .finish →
      Item.ofDeliveries ds = before ++ last :: after →
      Item.ofDeliveries ds' = before ++ last :: after' →
      s.dumped r operation ds = s.dumped r operation ds' := by
  refine ⟨?_, Item.decision?_eq_overflow_iff s.nextSeq operation, ?_, ?_, ?_⟩
  · intro ds
    obtain ⟨before, last, after, e, hi, hb, hl⟩ := Item.exists_decision s.nextSeq operation ds
    refine ⟨before, last, after, hi, hb, ?_⟩
    have ho := Item.outcome_of_decision hb hl {} after
    rw [← hi, ← dumped_eq_outcome (r := r) hs] at ho
    cases e with
    | stop stop =>
      cases stop with
      | fault fault => exact .inl ⟨fault, hl, ho⟩
      | overflow => exact .inr (.inl ⟨(last.decision?_eq_overflow_iff _ _).mp hl, ho⟩)
    | finish =>
      refine .inr (.inr ⟨hl, ?_⟩)
      simpa [Decision.settle, Dump.finish, Item.note, Item.foldl_absorb_interrupted,
        Item.foldl_absorb_payloads] using ho
  · intro ds ds' h
    rw [dumped_eq_outcome hs, dumped_eq_outcome hs, ← Item.outcome_filter_concerns, h,
      Item.outcome_filter_concerns]
  · intro fs ds ds' rest hb hb'
    rw [dumped_eq_outcome hs, dumped_eq_outcome hs, Item.ofDeliveries_brings_append hb,
      Item.ofDeliveries_brings_append hb']
  · intro ds ds' before last after after' hl hi hi'
    rw [dumped_eq_outcome hs, dumped_eq_outcome hs, hi, hi']
    exact Item.outcome_of_decision_irrel hl {} before after after'

/-- A payload, a message of another request that tells of an interruption, an acknowledgement, the
end, and a payload that comes too late. -/
def someParts : List Frame := [
  ⟨⟨20, Kind.newLink, 0x2, 1, 0⟩, [1, 2, 3, 4]⟩,
  ⟨⟨20, Kind.newLink, 0x12, 9, 0⟩, [5, 6, 7, 8]⟩,
  ⟨⟨36, Kind.error, 0, 1, 0⟩, List.replicate 20 0⟩,
  ⟨⟨16, Kind.done, 0x2, 1, 0⟩, []⟩,
  ⟨⟨17, Kind.newLink, 0x2, 1, 0⟩, [9]⟩]

def datagramOf (fs : List Frame) : Delivery := .datagram (Frame.encodeAll fs)

theorem brings_datagramOf {fs : List Frame} (wf : ∀ f ∈ fs, f.WellFormed)
    (fits : (Frame.encodeAll fs).length ≤ Delivery.capacity) (hne : fs ≠ []) :
    Brings [datagramOf fs] fs :=
  .last wf fits hne

/-- The same dump whole, cut in two, without the other request's message, and with a failure after
its end. -/
theorem dumped_by_items_someParts :
    ({ portId := 7 } : Session).sendFault 1 = none ∧
    Session.dumped { portId := 7 } (.dump Kind.getLink) "link dump" [datagramOf someParts] =
      .ok [[1, 2, 3, 4]] ∧
    Session.dumped { portId := 7 } (.dump Kind.getLink) "link dump"
        ([datagramOf (someParts.take 1), .notReady, datagramOf (someParts.drop 1)] ++ []) =
      Session.dumped { portId := 7 } (.dump Kind.getLink) "link dump"
        ([datagramOf someParts] ++ []) ∧
    Session.dumped { portId := 7 } (.dump Kind.getLink) "link dump"
        [datagramOf (someParts.filter (·.header.seq = 1))] =
      Session.dumped { portId := 7 } (.dump Kind.getLink) "link dump" [datagramOf someParts] ∧
    Session.dumped { portId := 7 } (.dump Kind.getLink) "link dump"
        [datagramOf (someParts.take 4), .failure .notPermitted] =
      Session.dumped { portId := 7 } (.dump Kind.getLink) "link dump" [datagramOf someParts] := by
  have hs : ({ portId := 7 } : Session).sendFault 1 = none := rfl
  have whole : Brings [datagramOf someParts] someParts :=
    brings_datagramOf (by decide) (by decide +kernel) (by decide)
  have cut : Brings [datagramOf (someParts.take 1), .notReady, datagramOf (someParts.drop 1)]
      someParts :=
    .more (by decide) (by decide +kernel)
      (.wait (brings_datagramOf (by decide) (by decide +kernel) (by decide)))
  have own : Brings [datagramOf (someParts.filter (·.header.seq = 1))]
      (someParts.filter (·.header.seq = 1)) :=
    brings_datagramOf (by decide) (by decide +kernel) (by decide)
  have early : Brings [datagramOf (someParts.take 4)] (someParts.take 4) :=
    brings_datagramOf (by decide) (by decide +kernel) (by decide)
  have hwhole := Item.ofDeliveries_brings_append whole []
  have hown := Item.ofDeliveries_brings_append own []
  have hearly := Item.ofDeliveries_brings_append early [.failure .notPermitted]
  obtain ⟨-, -, foreign, cuts, late⟩ :=
    dumped_by_items hs (.dump Kind.getLink) "link dump"
  refine ⟨hs, ?_, cuts someParts _ _ [] cut whole, foreign _ _ ?_,
    late _ _ ((someParts.take 3).map .message) (.message ⟨⟨16, Kind.done, 0x2, 1, 0⟩, []⟩) _ _
      (by decide) hearly hwhole⟩
  · rw [dumped_eq_outcome hs]
    exact (congrArg _ hwhole).trans rfl
  · refine (congrArg (List.filter _) hown).trans
      (Eq.trans ?_ (congrArg (List.filter _) hwhole).symm)
    rfl

/-- An error message for the first request with this code. -/
def codeFrame (code : Int32) : Frame :=
  ⟨⟨36, Kind.error, 0, 1, 0⟩, Bytes.ofNatLE 4 code.toUInt32.toNat ++ List.replicate 16 0⟩

def lowestRefusal : Frame := codeFrame Int32.minValue

theorem overflows_lowest : Item.Overflows 1 (.message lowestRefusal) := ⟨rfl, rfl, by decide, rfl⟩

/-- A dump that is refused with the lowest code of all comes to no error, it breaks off. -/
theorem lowest_code_overflows_dump :
    Item.Overflows 1 (.message lowestRefusal) ∧
      Session.dumped { portId := 7 } (.dump Kind.getLink) "link dump"
        [datagramOf [lowestRefusal]] = .error .overflow := by
  have brings : Brings [datagramOf [lowestRefusal]] [lowestRefusal] :=
    brings_datagramOf (by decide) (by decide +kernel) (by decide)
  refine ⟨overflows_lowest, ?_⟩
  rw [dumped_eq_outcome rfl]
  exact (congrArg _ (Item.ofDeliveries_brings_append brings [])).trans rfl

end Session
end VethPeer
